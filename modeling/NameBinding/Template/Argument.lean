import NameBinding.Table.Identity

/-!
# Template arguments

A template argument denotes a type, a template or a value, and so does a template parameter.
`fitsParameter` says when an argument fits a parameter.
-/

namespace NameBinding

/-- What a template argument denotes. -/
inductive ArgumentSort where
  | type
  | template
  | value
  deriving DecidableEq, Repr

namespace ArgumentSort

/-- What a parameter of the given sort takes. -/
def ofParameterKind : Option BaseKind → ArgumentSort
  | none => .type
  | some .typeName => .type
  | some .template => .template
  | some _ => .value

end ArgumentSort

namespace Table

/-- What an argument denotes.  A constant or an enumerator is a value, a template without arguments
and operators is a template, and a template parameter is what it takes. -/
def argumentSort (table : Table) (arg : Descriptor) : ArgumentSort :=
  if arg.constant.isSome then .value
  else
    match arg.link with
    | none => .type
    | some link =>
        let symbol := table.symbol (table.canonical link)
        if symbol.isTemplateParameter then .ofParameterKind symbol.type.parameterKind
        else if symbol.type.kind = .enumerator then .value
        else if symbol.isTemplate && arg.templateArgs.isEmpty && !arg.hasOps then .template
        else .type

/-- Do the parameters of a template have the sorts that a template template parameter asks for?
One that is declared without parameters accepts any template. -/
def sameParameterSorts (table : Table) (parameter template : SymbolId) : Bool :=
  let sorts := fun id =>
    (table.symbol id).parameters.map fun inner => (table.symbol inner).type.parameterKind
  (sorts parameter).isEmpty || sorts parameter == sorts template

/-- Does an argument fit a template parameter?  A dependent template argument only needs the right
sort, and so does a value that is no constant; a constant must have the parameter's kind, or both
must be integral. -/
def fitsParameter (table : Table) (parameter : SymbolId) (arg : Descriptor) : Bool :=
  let sort := table.argumentSort arg
  match (table.symbol parameter).type.parameterKind with
  | none => sort == .type
  | some .typeName => sort == .type
  | some .template =>
      sort == .template
        && (table.isDependent arg
          || arg.link.any fun link => table.sameParameterSorts parameter (table.canonical link))
  | some kind =>
      sort == .value
        && (arg.constant.isNone || arg.kind == kind || (kind.isIntegral && arg.kind.isIntegral))

end Table

end NameBinding
