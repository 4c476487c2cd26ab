import NameBinding.Overload.Candidate
import NameBinding.Table.Signature
import NameBinding.Template.Instantiate
import NameBinding.Conversion.Standard

/-!
# Overload resolution

Candidates are reduced to those that accept the call, with a cost for each argument, and the best of
them is picked.  Function templates take part through the instance that the call deduces.  The cost
of an argument is a parameter here, because resolving the constructors of a user-defined conversion
uses costs that know no further user-defined conversion.
-/

namespace NameBinding

namespace Table

/-- The entities that the candidates stand for, each once, in order. -/
def uniqueCandidates (table : Table) (candidates : List SymbolId) : List SymbolId :=
  (candidates.map table.canonical).eraseDups

end Table

namespace Analysis

/-- How the cost of an argument for a parameter is found. -/
abbrev CostFunction := Descriptor → Descriptor → Analysis Cost

/-- The costs of the arguments, or nothing once one does not convert.  Arguments beyond the
parameters go through the ellipsis. -/
def argumentCosts (cost : CostFunction) :
    List Descriptor → List Descriptor → Analysis (Option (List Cost))
  | [], _ => pure (some [])
  | arg :: args, parameters => do
      let table ← get
      let first ←
        match parameters.head? with
        | some parameter => cost arg parameter
        | none => pure (table.ellipsisCost arg)
      if !first.isMatch then pure none
      else do
        let rest ← argumentCosts cost args parameters.tail
        pure (rest.map (first :: ·))

/-- The costs of a call for one function, or nothing if it does not accept the call.  Omitted
arguments need default values. -/
def candidateCosts (cost : CostFunction) (function : SymbolId) (args : List Descriptor) :
    Analysis (Option (List Cost)) := do
  let table ← get
  let symbol := table.symbol function
  let parameters := table.signature function
  if !parameters.all (·.isValid) then fail (.badTypeInfo symbol.name)
  else if parameters.length < args.length && !symbol.varargs then pure none
  else if args.length < parameters.length
      && !(symbol.parameters.drop args.length).all fun parameter =>
        (table.symbol parameter).type.defaultValue.isSome then
    pure none
  else argumentCosts cost args parameters

/-- The instance that a call deduces for a function template.  A failing deduction or an argument
that does not fit removes the candidate. -/
def deducedInstance? (template : SymbolId) (args : List Descriptor) :
    Analysis (Option SymbolId) := do
  let table ← get
  match table.deduceCall template args with
  | none => pure none
  | some deduced => do
      match ← attempt (instantiate template deduced) with
      | .ok made => pure (some made)
      | .error (.badTemplateArgument _ _) => pure none
      | .error error => fail error

/-- The function a candidate takes part with: itself, or the instance that the call deduces for a
function template. -/
def calledFunction? (candidate : SymbolId) (args : List Descriptor) :
    Analysis (Option SymbolId) := do
  let table ← get
  if table.isFunctionTemplate candidate then deducedInstance? candidate args
  else pure (some candidate)

/-- Add a candidate to the viable ones if it accepts the call. -/
def considerCandidate (cost : CostFunction) (args : List Descriptor) (viable : List Viable)
    (candidate : SymbolId) : Analysis (List Viable) := do
  match ← calledFunction? candidate args with
  | none => pure viable
  | some function => do
      let table ← get
      if (table.symbol function).functionData?.isNone
          || viable.any (·.function == function) then
        pure viable
      else do
        match ← candidateCosts cost function args with
        | none => pure viable
        | some costs => pure (viable ++ [⟨function, costs⟩])

/-- The function a call resolves to, or nothing if no candidate accepts it. -/
def resolveOverload (cost : CostFunction) (candidates : List SymbolId) (args : List Descriptor) :
    Analysis (Option SymbolId) := do
  let table ← get
  match table.uniqueCandidates candidates with
  | [] => pure none
  | first :: rest =>
      let name := (table.symbol first).name
      if !args.all (·.isValid) then fail (.badTypeInfo name)
      else do
        let given :=
          match args with
          | [only] => if only.isPlainVoid then [] else args
          | _ => args
        let viable ← (first :: rest).foldlM (considerCandidate cost given) []
        let table ← get
        if viable.isEmpty then pure none
        else
          match table.bestViable viable with
          | none => fail (.ambiguous name)
          | some winner =>
              if winner.costs.any (·.userDefined == .ambiguous) then fail (.ambiguous name)
              else pure (some winner.function)

end Analysis

end NameBinding
