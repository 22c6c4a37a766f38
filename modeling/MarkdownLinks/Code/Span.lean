import MarkdownLinks.Code.Segment

/-! Code spans as they are taken out of a row of symbols, some of which are ticks. A longest stretch of
ticks is a run. A run opens a span if a run of the same length follows, and the first such run closes
it, line breaks notwithstanding; reading goes on behind it. A run that no equal one follows is text. -/

namespace MarkdownLinks.Code

variable {α : Type}

/-- Whether a character is a backtick. -/
def isTick (c : Char) : Bool := c == '\x60'

/-- What stands up to the end of the first run of `n` ticks, and what follows. -/
@[specialize] def throughRun? (tick : α → Bool) (n : Nat) : List α → Option (List α × List α)
  | [] => none
  | a :: s =>
      if tick a then
        if (s.takeWhile tick).length + 1 = n then some (a :: s.takeWhile tick, s.dropWhile tick)
        else
          (throughRun? tick n (s.dropWhile tick)).map fun (through, rest) =>
            (a :: s.takeWhile tick ++ through, rest)
      else (throughRun? tick n s).map fun (through, rest) => (a :: through, rest)
termination_by s => s.length
decreasing_by
  · exact Nat.lt_succ_of_le (List.dropWhile_sublist tick).length_le
  · exact Nat.lt_succ_self _

/-- The parts of the cut are the row. -/
theorem throughRun?_eq {tick : α → Bool} {n : Nat} {s through rest : List α}
    (h : throughRun? tick n s = some (through, rest)) : s = through ++ rest := by
  fun_induction throughRun? tick n s generalizing through with
  | case1 => cases h
  | case2 a s ha hn =>
      cases h
      rw [List.cons_append, List.takeWhile_append_dropWhile]
  | case3 a s ha hn ih =>
      obtain ⟨⟨through', rest'⟩, hp, h⟩ := Option.map_eq_some_iff.1 h
      cases h
      rw [List.append_assoc, ← ih hp, List.cons_append, List.takeWhile_append_dropWhile]
  | case4 a s ha ih =>
      obtain ⟨⟨through', rest'⟩, hp, h⟩ := Option.map_eq_some_iff.1 h
      cases h
      rw [List.cons_append, ← ih hp]

theorem length_throughRun?_le {tick : α → Bool} {n : Nat} {s through rest : List α}
    (h : throughRun? tick n s = some (through, rest)) : rest.length ≤ s.length := by
  rw [throughRun?_eq h, List.length_append]
  exact Nat.le_add_left _ _

/-- The code spans of a row, and the symbols outside them. -/
@[specialize] def spanParts (tick : α → Bool) : List α → List (Segment α)
  | [] => []
  | a :: s =>
      if tick a then
        match _ : throughRun? tick ((s.takeWhile tick).length + 1) (s.dropWhile tick) with
        | some (through, rest) => .code (a :: s.takeWhile tick ++ through) :: spanParts tick rest
        | none => (a :: s.takeWhile tick).map .plain ++ spanParts tick (s.dropWhile tick)
      else .plain a :: spanParts tick s
termination_by s => s.length
decreasing_by
  · exact Nat.lt_succ_of_le (Nat.le_trans (length_throughRun?_le (by assumption))
      (List.dropWhile_sublist tick).length_le)
  · exact Nat.lt_succ_of_le (List.dropWhile_sublist tick).length_le
  · exact Nat.lt_succ_self _

/-- The parts joined give the row back. -/
theorem segmentsText_spanParts (tick : α → Bool) (s : List α) :
    segmentsText (spanParts tick s) = s := by
  fun_induction spanParts tick s with
  | case1 => rfl
  | case2 a s ha through rest hs ih =>
      rw [segmentsText_code, ih, List.append_assoc, ← throughRun?_eq hs, List.cons_append,
        List.takeWhile_append_dropWhile]
  | case3 a s ha hs ih =>
      rw [segmentsText_append, segmentsText_map_plain, ih, List.cons_append,
        List.takeWhile_append_dropWhile]
  | case4 a s ha ih => rw [segmentsText_plain, ih]

end MarkdownLinks.Code
