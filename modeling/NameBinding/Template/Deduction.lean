import NameBinding.Template.Argument

/-!
# Template argument deduction

Deduction matches a pattern, a type written in terms of template parameters, against another type
and binds every parameter it reaches.  It serves to match the patterns of partial specializations,
to find the arguments of a called function template, and to order templates by how specialized they
are.

* `deduceType` matches one type, `deduceFromPatterns` a whole argument list.
* `deduceCall` finds the arguments of a function template from the types of a call.
* `moreSpecializedFunction` orders function templates.

Template-ids may be written out, or stand as placeholders or instances; `templateIdParts?` sees all
three alike.  Following them is bounded by the nesting limit of the table.
-/

namespace NameBinding

/-- How strictly qualifiers must match. -/
inductive DeductionMode where
  /-- Template arguments: qualifiers match exactly. -/
  | exact
  /-- Call arguments: the parameter may be more qualified than the argument. -/
  | call
  deriving DecidableEq, Repr

namespace DeductionMode

/-- Do the qualifiers of a pattern level fit those of the argument? -/
def fits : DeductionMode → Cv → Cv → Bool
  | .exact, pattern, arg => pattern == arg
  | .call, pattern, arg => pattern.includes arg

end DeductionMode

namespace Bindings

/-- Bind a parameter, or compare with what it is bound to already. -/
def bindOrMatch (bindings : Bindings) (parameter : SymbolId) (type : Descriptor) :
    Option Bindings :=
  match bindings.lookup parameter with
  | some bound => if bound.same type then some bindings else none
  | none => some ((parameter, type) :: bindings)

end Bindings

namespace Table

/-- Bind a parameter to what is left of `arg` once the operators and qualifiers of the pattern are
matched off.

Operators are matched from the top level down, and the base qualifiers of the pattern come off the
level the parameter lands on: `const T *` against `const int *const *` binds `T` to
`const int *`. -/
def bindParameter (table : Table) (parameter : SymbolId) (mode : DeductionMode)
    (bindings : Bindings) (pattern arg : Descriptor) : Option Bindings :=
  let depth := pattern.ops.length
  let outer := (pattern.ops.zip arg.ops).all fun (p, a) => p.sameShape a && mode.fits p.cv a.cv
  if arg.ops.length < depth || !outer then none
  else
    let rest := { arg with ops := arg.ops.drop depth }.stripSpecifiers.stripDefault
    let level := rest.topCv
    if mode = .exact && !level.includes pattern.baseCv then none
    else
      let bound := rest.setTopCv (level.diff pattern.baseCv)
      let sort := ArgumentSort.ofParameterKind (table.symbol parameter).type.parameterKind
      if table.argumentSort bound = sort then
        bindings.bindOrMatch parameter bound
      else none

/-- The template and arguments of a template-id, of a placeholder or of an instance. -/
def templateIdParts? (table : Table) (type : Descriptor) : Option (SymbolId × List Descriptor) :=
  type.link.bind fun link =>
    if !type.templateArgs.isEmpty then some (link, type.templateArgs)
    else
      let symbol := table.symbol (table.canonical link)
      (symbol.placeholder?.or symbol.origin).map fun use => (use.template, use.args)

/-- Match a template-id pattern such as `S<T *>` or `TT<int>`.  The arguments are matched by
`deduce`. -/
def deduceTemplateId (table : Table) (parameters : List SymbolId)
    (deduce : Bindings → Descriptor → Descriptor → Option Bindings) (mode : DeductionMode)
    (bindings : Bindings) (pattern arg : Descriptor) : Option Bindings := do
  let (patternTemplate, patternArgs) ← table.templateIdParts? pattern
  let (argTemplate, argArgs) ← table.templateIdParts? arg
  guard (pattern.samePtrShape arg
    && ((pattern.ops.zip arg.ops).all fun (p, a) => mode.fits p.cv a.cv)
    && mode.fits pattern.baseCv arg.baseCv)
  let entity := table.canonical argTemplate
  let bound ←
    if patternTemplate ∈ parameters then bindings.bindOrMatch patternTemplate (.ofSymbol entity)
    else if table.canonical patternTemplate = entity then some bindings
    else none
  guard (patternArgs.length == argArgs.length)
  (patternArgs.zip argArgs).foldlM (fun known (p, a) => deduce known p a) bound

/-- Match a pattern against a type, extending the bindings of `parameters`. -/
def deduceType (table : Table) (parameters : List SymbolId) :
    Nat → DeductionMode → Bindings → Descriptor → Descriptor → Option Bindings
  | 0, _, _, _, _ => none
  | depth + 1, mode, bindings, pattern, arg =>
      let pattern := table.flattenType pattern
      let arg := table.flattenType arg
      let inner := deduceType table parameters depth .exact
      let matched :=
        if pattern.stripSpecifiers.same arg.stripSpecifiers then some bindings else none
      match pattern.link with
      | none => matched
      | some link =>
          if link ∈ parameters && pattern.templateArgs.isEmpty then
            table.bindParameter link mode bindings pattern arg
          else if link ∈ parameters || !pattern.templateArgs.isEmpty
              || (table.symbol link).isPlaceholder then
            table.deduceTemplateId parameters inner mode bindings pattern arg
          else matched

/-- Bind all parameters by matching patterns against arguments, position by position. -/
def deduceFromPatterns (table : Table) (parameters : List SymbolId)
    (patterns args : List Descriptor) : Option (List Descriptor) := do
  guard (patterns.length == args.length)
  let bindings ← (patterns.zip args).foldlM
    (fun known (p, a) =>
      table.deduceType parameters table.config.nestingLimit .exact known p a) []
  parameters.mapM fun parameter => bindings.lookup parameter

/-- Does a descriptor mention one of the parameters, directly, in its arguments, or through a
placeholder? -/
def mentionsWithin (table : Table) (parameters : List SymbolId) : Nat → Descriptor → Bool
  | 0, _ => false
  | depth + 1, type =>
      (type.link.any fun link =>
        link ∈ parameters
          || (table.symbol link).placeholder?.any fun use =>
            use.template ∈ parameters || use.args.any (mentionsWithin table parameters depth))
        || type.templateArgs.any (mentionsWithin table parameters depth)

/-- Does a descriptor mention one of the parameters? -/
def mentions (table : Table) (parameters : List SymbolId) (type : Descriptor) : Bool :=
  table.mentionsWithin parameters table.config.nestingLimit type

/-- Match one parameter of a called function template against the type of its argument.  A parameter
that mentions no template parameter takes no part.  Unless the parameter is a reference, the
argument decays and top-level qualifiers do not count. -/
def deduceCallParameter (table : Table) (parameters : List SymbolId) (bindings : Bindings)
    (declared given : Descriptor) : Option Bindings :=
  let pattern := table.flattenType declared
  let arg := (table.flattenType given).stripReference
  if !table.mentions parameters pattern then some bindings
  else if pattern.isReference then
    table.deduceType parameters table.config.nestingLimit .call bindings pattern.stripReference arg
  else
    table.deduceType parameters table.config.nestingLimit .call bindings pattern.stripTopCv
      arg.decay.stripTopCv

/-- The template arguments of a call to a function template, or nothing if deduction fails.
Template parameters left unbound must be trailing and have defaults; the result holds the others. -/
def deduceCall (table : Table) (template : SymbolId) (args : List Descriptor) :
    Option (List Descriptor) := do
  let entity := table.canonical template
  let parameters := (table.symbol entity).parameters
  let function ← table.templated? entity
  let declared := (table.symbol function).parameters
  guard (args.length ≤ declared.length || (table.symbol function).varargs)
  let bindings ← (declared.zip args).foldlM
    (fun known (parameter, arg) =>
      table.deduceCallParameter parameters known (table.symbol parameter).type arg) []
  let bound := parameters.takeWhile fun parameter => (bindings.lookup parameter).isSome
  let unbound := parameters.drop bound.length
  guard (unbound.all fun parameter =>
    (bindings.lookup parameter).isNone && (table.symbol parameter).type.defaultValue.isSome)
  pure (bound.filterMap fun parameter => bindings.lookup parameter)

/-- Is function template `a` at least as specialized as `b`?  It is when the parameters of `b` can
be deduced from the parameter types of `a`, which stand for arbitrary types. -/
def moreSpecializedFunction (table : Table) (a b : SymbolId) : Bool :=
  match table.templated? a, table.templated? b with
  | some functionA, some functionB =>
      let parametersA := (table.symbol functionA).parameters
      let parametersB := (table.symbol functionB).parameters
      let parameters := (table.symbol b).parameters
      let deduced := (parametersA.zip parametersB).foldlM
        (fun known (x, y) =>
          let arg := (table.flattenType (table.symbol x).type).stripReference
          let pattern := (table.flattenType (table.symbol y).type).stripReference
          let limit := table.config.nestingLimit
          if table.mentions parameters pattern then
            table.deduceType parameters limit .exact known pattern arg
          else
            table.deduceType parameters limit .exact known pattern.stripTopCv arg.stripTopCv)
        ([] : Bindings)
      parametersA.length == parametersB.length && deduced.isSome
  | _, _ => false

end Table

end NameBinding
