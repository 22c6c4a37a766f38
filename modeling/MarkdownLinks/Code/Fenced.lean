import MarkdownLinks.Code.Segment
import MarkdownLinks.Text.Blank
import MarkdownLinks.Text.Lines

/-! Fenced blocks as they are taken out of a text. A fence line has three or more backticks or three or
more tildes behind its blanks. A fence opens a block if a later line has a fence of the same character
that is at least as long, and the first such line closes it; a fence that nothing closes is text. The
block begins with the opening run and ends with the closing run, and what follows the closing run on
its line is read as if a line began there. -/

namespace MarkdownLinks.Code

/-- A fence line taken apart: its blanks, its run of fence characters, and what follows the run. -/
structure FenceLine where
  indent : Text
  mark : Char
  run : Text
  rest : Text
  deriving DecidableEq

namespace FenceLine

/-- A line as a fence line. -/
def ofLine? (line : Text) : Option FenceLine :=
  match trimStart line with
  | [] => none
  | c :: s =>
      if (c = '\x60' ∨ c = '~') ∧ 3 ≤ ((c :: s).takeWhile (· == c)).length then
        some ⟨line.takeWhile isBlank, c, (c :: s).takeWhile (· == c), s.dropWhile (· == c)⟩
      else none

/-- Whether a fence closes the block that another one opens. -/
def closes (closing opening : FenceLine) : Bool :=
  closing.mark == opening.mark && opening.run.length ≤ closing.run.length

/-- The parts of a fence line are the line. -/
theorem line_eq {line : Text} {f : FenceLine} (h : ofLine? line = some f) :
    line = f.indent ++ f.run ++ f.rest := by
  unfold ofLine? at h
  split at h
  · cases h
  · rename_i c s hs
    split at h
    · cases h
      have hline : line = line.takeWhile isBlank ++ trimStart line :=
        (List.takeWhile_append_dropWhile).symm
      have hrun : c :: s = (c :: s).takeWhile (· == c) ++ s.dropWhile (· == c) := by
        rw [List.takeWhile_cons_of_pos (by simp), List.cons_append, List.takeWhile_append_dropWhile]
      rw [List.append_assoc, ← hrun, ← hs]
      exact hline
    · cases h

end FenceLine

/-- What stands up to the end of the first run that closes a block, and what follows. -/
def throughClosing? (opening : FenceLine) : Text → Option (Text × Text)
  | [] => none
  | c :: s =>
      match (FenceLine.ofLine? (firstLine (c :: s))).filter fun f => f.closes opening with
      | some closing => some (closing.indent ++ closing.run, closing.rest ++ otherLines (c :: s))
      | none =>
          (throughClosing? opening (otherLines (c :: s))).map fun (through, rest) =>
            (firstLine (c :: s) ++ through, rest)
termination_by s => s.length
decreasing_by exact length_otherLines_lt c s

/-- The parts of the cut are the text. -/
theorem throughClosing?_eq {opening : FenceLine} {s through rest : Text}
    (h : throughClosing? opening s = some (through, rest)) : s = through ++ rest := by
  fun_induction throughClosing? opening s generalizing through with
  | case1 => cases h
  | case2 c s closing hf =>
      cases h
      obtain ⟨hl, _⟩ := Option.filter_eq_some_iff.1 hf
      rw [← List.append_assoc, ← FenceLine.line_eq hl, firstLine_append_otherLines]
  | case3 c s hf ih =>
      obtain ⟨⟨through', rest'⟩, hp, h⟩ := Option.map_eq_some_iff.1 h
      cases h
      rw [List.append_assoc, ← ih hp, firstLine_append_otherLines]

theorem length_throughClosing?_le {opening : FenceLine} {s through rest : Text}
    (h : throughClosing? opening s = some (through, rest)) : rest.length ≤ s.length := by
  rw [throughClosing?_eq h, List.length_append]
  exact Nat.le_add_left _ _

/-- The fenced blocks of a text, and the characters outside them. -/
def fencedParts : Text → List (Segment Char)
  | [] => []
  | c :: s =>
      match FenceLine.ofLine? (firstLine (c :: s)) with
      | none => (firstLine (c :: s)).map .plain ++ fencedParts (otherLines (c :: s))
      | some opening =>
          match _ : throughClosing? opening (otherLines (c :: s)) with
          | none => (firstLine (c :: s)).map .plain ++ fencedParts (otherLines (c :: s))
          | some (through, rest) =>
              opening.indent.map .plain ++
                .code (opening.run ++ opening.rest ++ through) :: fencedParts rest
termination_by s => s.length
decreasing_by
  · exact length_otherLines_lt c s
  · exact length_otherLines_lt c s
  · exact Nat.lt_of_le_of_lt (length_throughClosing?_le (by assumption)) (length_otherLines_lt c s)

/-- The parts joined give the text back. -/
theorem segmentsText_fencedParts (s : Text) : segmentsText (fencedParts s) = s := by
  fun_induction fencedParts s with
  | case1 => rfl
  | case2 c s hl ih =>
      rw [segmentsText_append, segmentsText_map_plain, ih, firstLine_append_otherLines]
  | case3 c s opening hl ht ih =>
      rw [segmentsText_append, segmentsText_map_plain, ih, firstLine_append_otherLines]
  | case4 c s opening hl through rest ht ih =>
      rw [segmentsText_append, segmentsText_map_plain, segmentsText_code, ih, List.append_assoc,
        ← throughClosing?_eq ht, ← List.append_assoc, ← List.append_assoc, ← FenceLine.line_eq hl,
        firstLine_append_otherLines]

end MarkdownLinks.Code
