import NameBinding.Conversion.Cost
import NameBinding.Template.Deduction

/-!
# The best candidate

A candidate beats another one when it is at least as good for every argument and better for one, or
equally good for all arguments and preferred: a function is preferred to an instance of a function
template, and of two instances the one of the more specialized template.
-/

namespace NameBinding

/-- A candidate that accepts a call, with one cost for each argument. -/
structure Viable where
  function : SymbolId
  costs : List Cost

/-- The order of two lists of costs, argument by argument; nothing if each is better somewhere. -/
def compareCosts (a b : List Cost) : Option Ordering :=
  let outcomes := (a.zip b).map fun (x, y) => x.compare y
  match outcomes.contains .lt, outcomes.contains .gt with
  | true, true => none
  | true, false => some .lt
  | false, true => some .gt
  | false, false => some .eq

namespace Table

/-- The function template that a function is an instance of. -/
def functionTemplateOf? (table : Table) (function : SymbolId) : Option SymbolId :=
  ((table.symbol function).origin.map (·.template)).filter table.isFunctionTemplate

/-- Is `a` preferred to `b` when all costs are equal? -/
def winsTie (table : Table) (a b : SymbolId) : Bool :=
  match table.functionTemplateOf? a, table.functionTemplateOf? b with
  | none, some _ => true
  | some templateA, some templateB =>
      templateA != templateB && table.moreSpecializedFunction templateA templateB
        && !table.moreSpecializedFunction templateB templateA
  | _, none => false

/-- Does candidate `a` beat candidate `b`? -/
def isBetter (table : Table) (a b : Viable) : Bool :=
  match compareCosts a.costs b.costs with
  | some .lt => true
  | some .eq => table.winsTie a.function b.function
  | _ => false

/-- The candidate that beats every other one, if there is one. -/
def bestViable (table : Table) : List Viable → Option Viable
  | [] => none
  | first :: rest =>
      let winner := rest.foldl
        (fun best next => if table.isBetter next best then next else best) first
      if (first :: rest).all fun other =>
          other.function == winner.function || table.isBetter winner other then
        some winner
      else none

end Table

end NameBinding
