import NameBinding.Table.Basic

/-!
# Types as source text

A descriptor is written the way a declaration would spell it: the base first, then the operators
from the innermost to the top level, as in `const int *&`.
-/

namespace NameBinding

namespace Cv

/-- The qualifiers, separated by a blank. -/
def render (cv : Cv) : String :=
  " ".intercalate
    ((if cv.isConst then ["const"] else []) ++ (if cv.isVolatile then ["volatile"] else []))

end Cv

namespace SizeSign

/-- The modifiers, each followed by a blank. -/
def render (modifiers : SizeSign) : String :=
  (if modifiers.isUnsigned then "unsigned " else "")
    ++ (if modifiers.isSigned then "signed " else "")
    ++ (if modifiers.isShort then "short " else "")
    ++ (if modifiers.isLong then "long " else "")
    ++ (if modifiers.isLongLong then "long long " else "")

end SizeSign

namespace Table

/-- One operator with its qualifiers. -/
def renderOp (table : Table) (op : PtrOp) : String :=
  (match op.kind with
    | .pointer => "*"
    | .reference => "&"
    | .array => "[]"
    | .memberPointer => (op.memberOf.map table.nameOf).getD "" ++ "::*")
    ++ op.cv.render

/-- The operators from the innermost to the top level.  A blank stands before the first one and
after every one that has qualifiers. -/
def renderOps (table : Table) (ops : List PtrOp) : String :=
  (ops.reverse.foldl
    (fun (text, blank) op =>
      (text ++ (if blank then " " else "") ++ table.renderOp op, !op.cv.isEmpty))
    ("", true)).1

mutual

/-- A descriptor as source text. -/
def renderType (table : Table) : Descriptor → String
  | ⟨kind, flags, ops, link, args, _, constant, _⟩ =>
      (match constant with
        | some text => table.spelling text
        | none =>
            (if flags.cv.isEmpty then "" else flags.cv.render ++ " ")
              ++ flags.sizeSign.render
              ++ (match link with
                | some link => table.nameOf link
                | none => kind.keyword)
              ++ (if args.isEmpty then ""
                else "<" ++ ", ".intercalate (renderTypes table args) ++ ">"))
        ++ renderOps table ops

/-- Descriptors as source texts. -/
def renderTypes (table : Table) : List Descriptor → List String
  | [] => []
  | type :: rest => renderType table type :: renderTypes table rest

end

end Table

end NameBinding
