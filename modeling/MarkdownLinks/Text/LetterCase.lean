import MarkdownLinks.Text.Basic
import MarkdownLinks.Text.LetterCase.Table

/-! Lowercasing with the whole of Unicode. Each character has its own image, one or two characters
long, except the capital sigma: at the end of a word it becomes a final sigma, which is where a cased
letter comes before it and none after it, characters that case ignores left aside. -/

namespace MarkdownLinks

namespace LetterCase

def isCased (c : Char) : Bool := casedRanges.any fun r => r.1 ≤ c.toNat && c.toNat ≤ r.2

def isIgnorable (c : Char) : Bool := ignorableRanges.any fun r => r.1 ≤ c.toNat && c.toNat ≤ r.2

/-- Whether the first character that case does not ignore is a cased letter. -/
def casedFirst (s : Text) : Bool :=
  match s.dropWhile isIgnorable with
  | c :: _ => isCased c
  | [] => false

/-- The lowercase image of a character on its own. -/
def lowerChar (c : Char) : Text :=
  if c.toNat < 0x80 then [c.toLower]
  else if c = 'İ' then ['i', '\u0307']
  else
    match lowercaseRows.find? fun row => row.covers c.toNat with
    | some row => [Char.ofNat (row.send c.toNat)]
    | none => [c]

/-- The lowercase image of a text that follows `before`, which is given last character first. -/
def lowerAfter (before : Text) : Text → Text
  | [] => []
  | c :: s =>
      (if c = 'Σ' then [if casedFirst before && !casedFirst s then 'ς' else 'σ'] else lowerChar c) ++
        lowerAfter (c :: before) s

end LetterCase

/-- The text in lowercase. -/
def lowercase (s : Text) : Text := LetterCase.lowerAfter [] s

end MarkdownLinks
