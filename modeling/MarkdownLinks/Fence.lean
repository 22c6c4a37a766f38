import MarkdownLinks.Text.Blank

/-! Fenced blocks as a reader of prose sees them, line by line. A line whose first three characters
behind blanks are backticks opens a block; the block is closed by a line that holds exactly the run of
backticks that opened it, blanks aside. Every other run of backticks inside a block is content, so a
longer fence can show a complete example of a shorter one. -/

namespace MarkdownLinks

/-- Where a reader stands between two lines: outside all blocks, or inside one, with the text of the
line that closes it. A block whose closing line is not known lasts to the end. -/
inductive Fence where
  | outside
  | inside (closing : Option Text)
  deriving DecidableEq

namespace Fence

/-- The fewest backticks that open a block. -/
def minRun : Nat := 3

/-- The backticks at the front of a line, behind blanks. -/
def run (line : Text) : Text := (trimStart line).takeWhile (· == '\x60')

/-- The place behind a line, and whether the line opened or closed a block. -/
def step (line : Text) : Fence → Fence × Bool
  | .inside closing =>
      if closing = some (trim line) then (.outside, true) else (.inside closing, false)
  | .outside =>
      if minRun ≤ (run line).length then (.inside (some (run line)), true) else (.outside, false)

/-- Whether a line at this place is prose: outside all blocks, and no fence itself. -/
def isProse (line : Text) (place : Fence) : Bool :=
  match place.step line with
  | (.outside, false) => true
  | _ => false

end Fence

end MarkdownLinks
