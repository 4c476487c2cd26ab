import NameBinding.Proofs.Table.Represented

/-!
# Tables whose names are interned

A name is a position in the interner, so it stands for a spelling if it was interned in the same table, and
two names are different texts if no text is stored twice.

* `Interner.Distinct`: no spelling is stored twice, which `intern` keeps.
* `Table.NamesInterned`: the names in a table are interned.

The main statements are `lookup_intern`, by which an interned text is the spelling of its name, and
`spelling_inj`, by which interned names are told apart by their spellings.
-/

namespace NameBinding

namespace Interner

variable {interner : Interner} {text : String} {name other : Name}

/-- No spelling is stored twice. -/
def Distinct (interner : Interner) : Prop := interner.spellings.toList.Nodup

theorem lookup_of_lt (lt : name.index < interner.size) :
    interner.lookup name = interner.spellings.toList.get ⟨name.index, lt⟩ := by
  rw [lookup, Array.getD_eq_getD_getElem?, Array.getElem?_eq_getElem lt]
  rfl

/-- Where no spelling is stored twice, different names are spelled differently. -/
theorem Distinct.lookup_inj (distinct : interner.Distinct) (lt : name.index < interner.size)
    (lt' : other.index < interner.size) (same : interner.lookup name = interner.lookup other) :
    name = other := by
  rw [lookup_of_lt lt, lookup_of_lt lt'] at same
  have hindex := distinct.getElem_inj_iff.mp same
  cases name
  cases other
  exact congrArg Name.mk hindex

/-- What is interned is stored already, or is put behind everything else. -/
theorem intern_cases (interner : Interner) (text : String) :
    ((interner.intern text).2 = interner ∧ (interner.intern text).1.index < interner.size ∧
        interner.lookup (interner.intern text).1 = text) ∨
      (text ∉ interner.spellings.toList ∧
        interner.intern text = (⟨interner.size⟩, ⟨interner.spellings.push text⟩)) := by
  unfold intern get?
  cases hfound : interner.spellings.findIdx? (· == text) with
  | none =>
      refine .inr ⟨fun member => ?_, rfl⟩
      have hdiffers := Array.findIdx?_eq_none_iff.mp hfound text (Array.mem_toList_iff.mp member)
      simp at hdiffers
  | some index =>
      obtain ⟨lt, hsame, -⟩ := Array.findIdx?_eq_some_iff_getElem.mp hfound
      exact .inl ⟨rfl, lt, (lookup_of_lt lt).trans (eq_of_beq hsame)⟩

/-- An interned text is the spelling of its name. -/
theorem lookup_intern (interner : Interner) (text : String) :
    (interner.intern text).2.lookup (interner.intern text).1 = text := by
  rcases interner.intern_cases text with ⟨hsame, -, hspelling⟩ | ⟨-, hpushed⟩
  · rw [hsame, hspelling]
  · rw [hpushed, lookup, Array.getD_eq_getD_getElem?]
    simp [size]

theorem size_le_intern (interner : Interner) (text : String) :
    interner.size ≤ (interner.intern text).2.size := by
  rcases interner.intern_cases text with ⟨hsame, -, -⟩ | ⟨-, hpushed⟩
  · rw [hsame]
  · rw [hpushed]
    simp [size]

theorem Distinct.intern (distinct : interner.Distinct) (text : String) :
    (interner.intern text).2.Distinct := by
  rcases interner.intern_cases text with ⟨hsame, -, -⟩ | ⟨hnew, hpushed⟩
  · rwa [hsame]
  · rw [hpushed, Distinct, Array.toList_push]
    exact List.nodup_append.mpr ⟨distinct, List.nodup_singleton text, fun a ha b hb same =>
      hnew (List.mem_singleton.mp hb ▸ same ▸ ha)⟩

end Interner

namespace Table

variable {table : Table} {name other : Name}

/-- No spelling is stored twice, and the names of the declarations are interned, as are those by which
out-of-line definitions know template parameters. -/
structure NamesInterned (table : Table) : Prop where
  distinct : table.interner.Distinct
  declared : ∀ id, (table.symbol id).name.index < table.interner.size
  renamed : ∀ id data, (table.symbol id).templateData? = some data →
    ∀ entry ∈ data.definitionParameters, entry.1.index < table.interner.size

namespace NamesInterned

/-- Another name may be interned. -/
theorem intern (interned : table.NamesInterned) (text : String) : (table.intern text).2.NamesInterned where
  distinct := interned.distinct.intern text
  declared := fun id => Nat.lt_of_lt_of_le (interned.declared id) (table.interner.size_le_intern text)
  renamed := fun id data holds entry member =>
    Nat.lt_of_lt_of_le (interned.renamed id data holds entry member) (table.interner.size_le_intern text)

/-- Interned names are told apart by their spellings. -/
theorem spelling_inj (interned : table.NamesInterned) (lt : name.index < table.interner.size)
    (lt' : other.index < table.interner.size) (same : table.spelling name = table.spelling other) :
    name = other :=
  interned.distinct.lookup_inj lt lt' same

end NamesInterned

end Table

end NameBinding
