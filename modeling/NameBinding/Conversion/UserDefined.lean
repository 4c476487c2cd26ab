import NameBinding.Overload.Resolution
import NameBinding.Traversal

/-!
# User-defined conversions

Where no standard conversion applies, a converting constructor of the target's class or a conversion
function of the source's class may.  At most one user-defined function takes part: the steps before
and after it are standard conversions.

* `conversionCost` is the cost of an argument of a call.
* `resolveFunction` resolves a call.
-/

namespace NameBinding

namespace Table

/-- All declarations of the table. -/
def ids (table : Table) : List SymbolId := (List.range table.size).map SymbolId.mk

/-- The conversion functions of a class and of all its bases; each class counts once. -/
def conversionFunctions (table : Table) (id : SymbolId) : List SymbolId :=
  (depthFirst table.bases table.ids [id]).flatMap fun base => (table.symbol base).conversions

/-- The constructors of a class that take part in conversions. -/
def convertingConstructors (table : Table) (id : SymbolId) : List SymbolId :=
  (table.symbol id).constructors.filter fun constructor =>
    !(table.symbol constructor).type.flags.specifiers.isExplicit

end Table

/-- The best so far of several conversion functions, and whether another one is as good. -/
structure Contest where
  function : SymbolId
  cost : Cost
  tied : Bool

namespace Contest

/-- Let one more function enter. -/
def enter (contest : Option Contest) (entry : SymbolId × Cost) : Option Contest :=
  match contest with
  | none => some ⟨entry.1, entry.2, false⟩
  | some best =>
      match entry.2.compare best.cost with
      | .lt => some ⟨entry.1, entry.2, false⟩
      | .eq => some { best with tied := true }
      | .gt => some best

/-- The outcome: the only function with the least cost. -/
def outcome : Option Contest → UserDefined
  | none => .none
  | some best => if best.tied then .ambiguous else .function best.function

end Contest

namespace Analysis

/-- Add a conversion function to those whose return type converts to `target`. -/
def considerConversion (target : Descriptor) (entries : List (SymbolId × Cost))
    (function : SymbolId) : Analysis (List (SymbolId × Cost)) := do
  let table ← get
  match (table.symbol function).returnType with
  | none => pure entries
  | some type => do
      let cost ← nestedCost type target
      pure (if cost.isMatch then entries ++ [(function, cost)] else entries)

/-- The best conversion function of a class or of its bases. -/
def bestConversionFunction (id : SymbolId) (target : Descriptor) : Analysis UserDefined := do
  let table ← get
  let entries ← (table.conversionFunctions id).foldlM (considerConversion target) []
  pure (Contest.outcome (entries.foldl Contest.enter none))

/-- The user-defined function that converts `source` to `target`.  Constructors that are ambiguous
among each other, and a constructor beside a conversion function, are ambiguous. -/
def userDefinedConversion (source target : Descriptor) : Analysis UserDefined := do
  let table ← get
  let goal := (table.flattenType target).stripReference
  let start := (table.flattenType source).stripReference
  let constructors := ((table.classType? goal).map table.convertingConstructors).getD []
  match ← attempt (resolveOverload nestedCost constructors [source]) with
  | .error (.ambiguous _) => pure .ambiguous
  | .error error => fail error
  | .ok throughConstructor => do
      let table ← get
      let throughConversion ←
        match table.classType? start with
        | some id => bestConversionFunction id target
        | none => pure .none
      match throughConstructor, throughConversion with
      | some constructor, .none => pure (.function constructor)
      | some _, _ => pure .ambiguous
      | none, conversion => pure conversion

/-- The cost of passing `source` to a parameter of type `target`.  While a user-defined conversion
is being looked for (`nested`), no second one applies. -/
def conversionCost (source target : Descriptor) (nested : Bool) : Analysis Cost := do
  let cost ← nestedCost source target
  if cost.isMatch || nested || !cost.bindsTemporary then pure cost
  else do
    match ← userDefinedConversion source target with
    | .none => pure cost
    | userDefined => pure { cost with rank := .userDefined, userDefined }

/-- The function that a call resolves to.  Without argument types a single candidate is it, and
several cannot be told apart. -/
def resolveFunction (candidates : List SymbolId) (args : Option (List Descriptor)) :
    Analysis (Option SymbolId) := do
  match args with
  | some args => resolveOverload (conversionCost · · false) candidates args
  | none => do
      let table ← get
      match table.uniqueCandidates candidates with
      | [] => pure none
      | [only] => pure (some only)
      | first :: _ => fail (.unresolvedFunction (table.symbol first).name)

end Analysis

end NameBinding
