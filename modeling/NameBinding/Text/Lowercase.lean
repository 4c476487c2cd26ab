import NameBinding.Text.LetterCase

/-!
# Lowercasing a text

Completion compares spellings without regard to case.  The rule is the full one of the character
standard, not the ASCII one: a letter may become two characters, and a capital sigma at the end of
a word becomes the final form of the small letter.

* `lowercase` lowercases a whole text.
* `isFinalSigma` is the one rule that looks at the neighbours of a letter.
-/

namespace NameBinding.Text

/-- Does one of the ranges hold this code point? -/
def inRanges (ranges : List (Nat × Nat)) (c : Char) : Bool :=
  ranges.any fun range => range.1 ≤ c.toNat && c.toNat ≤ range.2

/-- Does the run list this code point as an upper-case letter? -/
def CaseRun.holds (run : CaseRun) (code : Nat) : Bool :=
  run.first ≤ code && code ≤ run.last && (code - run.first) % run.stride == 0

/-- The lower-case form of one character on its own. -/
def lowercaseChar (c : Char) : List Char :=
  if c.toNat < 0x80 then [c.toLower]
  else if c.toNat = 0x130 then ['i', '\u0307']
  else
    match caseRuns.find? (·.holds c.toNat) with
    | some run => [Char.ofNat (run.partner + (c.toNat - run.first))]
    | none => [c]

/-- Skipping case-ignorable characters, is the next one a cased letter? -/
def meetsCased (cs : List Char) : Bool :=
  match cs.dropWhile (inRanges caseIgnorableRanges) with
  | c :: _ => inRanges casedRanges c
  | [] => false

/-- A capital sigma ends its word when a cased letter stands before it and none after it.
`before` is the text in front of it, nearest character first. -/
def isFinalSigma (before after : List Char) : Bool :=
  meetsCased before && !meetsCased after

/-- Lowercase the characters that follow `before`, which is kept nearest character first. -/
def lowercaseAfter (before : List Char) : List Char → List Char
  | [] => []
  | c :: rest =>
      (if c = 'Σ' then [if isFinalSigma before rest then 'ς' else 'σ'] else lowercaseChar c)
        ++ lowercaseAfter (c :: before) rest

/-- The lower-case form of a text. -/
def lowercase (text : String) : String :=
  String.ofList (lowercaseAfter [] text.toList)

/-- Does `text` start with `stem`? -/
def startsWith (text stem : String) : Bool :=
  stem.toList.isPrefixOf text.toList

end NameBinding.Text
