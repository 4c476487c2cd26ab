import NameBinding.Template.Deduction

/-!
# Partial specializations

Of the registered partial specializations whose patterns match, the one that is more specialized
than every other is chosen; without one the use of the template is ambiguous.
-/

namespace NameBinding.Table

/-- The arguments of a partial specialization deduced from the arguments of its primary template. -/
def matchSpecialization? (table : Table) (args : List Descriptor) (specialization : SymbolId) :
    Option (SymbolId × List Descriptor) := do
  let data ← (table.symbol specialization).templateData?
  let patterns ← data.patterns
  let deduced ← table.deduceFromPatterns data.parameters patterns args
  pure (specialization, deduced)

/-- Is `a` at least as specialized as `b`?  It is when the patterns of `b` match those of `a`. -/
def atLeastAsSpecialized (table : Table) (a b : SymbolId) : Bool :=
  match (table.symbol a).templateData?, (table.symbol b).templateData? with
  | some dataA, some dataB =>
      match dataA.patterns, dataB.patterns with
      | some patternsA, some patternsB =>
          (table.deduceFromPatterns dataB.parameters patternsB patternsA).isSome
      | _, _ => false
  | _, _ => false

/-- Is `a` strictly more specialized than `b`? -/
def strictlyMoreSpecialized (table : Table) (a b : SymbolId) : Bool :=
  table.atLeastAsSpecialized a b && !table.atLeastAsSpecialized b a

/-- The partial specialization to use for `args`, with its own arguments. -/
def selectSpecialization (table : Table) (template : SymbolId) (args : List Descriptor) :
    Except SemanticError (Option (SymbolId × List Descriptor)) :=
  let symbol := table.symbol template
  let registered := (symbol.templateData?.map (·.specializations)).getD []
  match registered.filterMap (table.matchSpecialization? args) with
  | [] => .ok none
  | [only] => .ok (some only)
  | several =>
      let winners := several.zipIdx.filter fun (candidate, i) =>
        several.zipIdx.all fun (other, j) =>
          i == j || table.strictlyMoreSpecialized candidate.1 other.1
      match winners with
      | [(winner, _)] => .ok (some winner)
      | _ => .error (.ambiguous symbol.name)

end NameBinding.Table
