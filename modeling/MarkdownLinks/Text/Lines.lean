import MarkdownLinks.Text.Basic

/-! The lines of a text. A line ends with its line feed or at the end of the text. A *full* line keeps
its terminator, so that the full lines of a text joined give the text back; a line is its full line
without the line feed and without one carriage return before that. A carriage return that no line
feed follows is content. -/

namespace MarkdownLinks

/-- One character in front of the full lines of what follows it. -/
def pushFront (c : Char) : List Text → List Text
  | [] => [[c]]
  | l :: ls => if c = '\n' then [c] :: l :: ls else (c :: l) :: ls

/-- The lines with their terminators. -/
def fullLines (s : Text) : List Text := s.foldr pushFront []

/-- The first full line. -/
def firstLine (s : Text) : Text :=
  match splitFirst? '\n' s with
  | some (line, _) => line ++ ['\n']
  | none => s

/-- What follows the first full line. -/
def otherLines (s : Text) : Text :=
  match splitFirst? '\n' s with
  | some (_, rest) => rest
  | none => []

/-- A full line without its line feed, and without the carriage return before it. -/
def dropTerminator (l : Text) : Text :=
  match l.reverse with
  | '\n' :: '\r' :: r => r.reverse
  | '\n' :: r => r.reverse
  | _ => l

/-- The lines without their terminators. -/
def lines (s : Text) : List Text := (fullLines s).map dropTerminator

/-- The text of some lines, each ended by a line feed. -/
def unlines (ls : List Text) : Text := ls.flatMap fun l => l ++ ['\n']

@[simp] theorem fullLines_nil : fullLines [] = [] := rfl

@[simp] theorem fullLines_cons (c : Char) (s : Text) :
    fullLines (c :: s) = pushFront c (fullLines s) := rfl

theorem flatten_pushFront (c : Char) (ls : List Text) : (pushFront c ls).flatten = c :: ls.flatten := by
  cases ls with
  | nil => rfl
  | cons l ls =>
      simp only [pushFront]
      split <;> simp

/-- The full lines joined give the text back. -/
theorem flatten_fullLines (s : Text) : (fullLines s).flatten = s := by
  induction s with
  | nil => rfl
  | cons c s ih => rw [fullLines_cons, flatten_pushFront, ih]

@[simp] theorem firstLine_nil : firstLine [] = [] := rfl

@[simp] theorem otherLines_nil : otherLines [] = [] := rfl

@[simp] theorem firstLine_newline (s : Text) : firstLine ('\n' :: s) = ['\n'] := by
  simp [firstLine, splitFirst?_cons]

@[simp] theorem otherLines_newline (s : Text) : otherLines ('\n' :: s) = s := by
  simp [otherLines, splitFirst?_cons]

theorem firstLine_cons {c : Char} (hc : c ≠ '\n') (s : Text) : firstLine (c :: s) = c :: firstLine s := by
  unfold firstLine
  rw [splitFirst?_cons, if_neg hc]
  cases splitFirst? '\n' s <;> rfl

theorem otherLines_cons {c : Char} (hc : c ≠ '\n') (s : Text) : otherLines (c :: s) = otherLines s := by
  unfold otherLines
  rw [splitFirst?_cons, if_neg hc]
  cases splitFirst? '\n' s <;> rfl

theorem firstLine_append {a : Text} (ha : '\n' ∉ a) (s : Text) : firstLine (a ++ s) = a ++ firstLine s := by
  induction a with
  | nil => rfl
  | cons c a ih =>
      rw [List.mem_cons, not_or] at ha
      rw [List.cons_append, firstLine_cons (Ne.symm ha.1), ih ha.2, List.cons_append]

theorem otherLines_append {a : Text} (ha : '\n' ∉ a) (s : Text) : otherLines (a ++ s) = otherLines s := by
  induction a with
  | nil => rfl
  | cons c a ih =>
      rw [List.mem_cons, not_or] at ha
      rw [List.cons_append, otherLines_cons (Ne.symm ha.1), ih ha.2]

theorem firstLine_append_otherLines (s : Text) : firstLine s ++ otherLines s = s := by
  unfold firstLine otherLines
  split
  · rename_i hs
    simp [(splitFirst?_eq_some_iff.1 hs).1]
  · simp

/-- A first line is ended by its only line feed, or it is all there is and has none. -/
theorem firstLine_cases (s : Text) :
    (∃ a, '\n' ∉ a ∧ firstLine s = a ++ ['\n']) ∨ ('\n' ∉ s ∧ firstLine s = s ∧ otherLines s = []) := by
  unfold firstLine otherLines
  split
  · rename_i a rest hs
    exact Or.inl ⟨a, (splitFirst?_eq_some_iff.1 hs).2, rfl⟩
  · rename_i hs
    exact Or.inr ⟨splitFirst?_eq_none_iff.1 hs, rfl, rfl⟩

/-- What a first line begins with has no line feed if something follows it on the line. -/
theorem not_mem_of_firstLine_eq {s a b : Text} (h : firstLine s = a ++ b) (hb : b ≠ []) : '\n' ∉ a := by
  rcases firstLine_cases s with ⟨l, hl, hs⟩ | ⟨hl, hs, _⟩
  · have hlast : l = a ++ b.dropLast := by
      rw [← List.dropLast_append_of_ne_nil hb, ← h, hs, List.dropLast_concat]
    rw [hlast, List.mem_append, not_or] at hl
    exact hl.1
  · rw [← hs, h, List.mem_append, not_or] at hl
    exact hl.1

/-- A first line in front of another text is its first line, unless it is not ended. -/
theorem firstLine_firstLine_append (s : Text) {t : Text} (ht : otherLines s = [] → t = []) :
    firstLine (firstLine s ++ t) = firstLine s ∧ otherLines (firstLine s ++ t) = t := by
  rcases firstLine_cases s with ⟨a, ha, hs⟩ | ⟨ha, hs, hrest⟩
  · rw [hs, List.append_assoc, firstLine_append ha, otherLines_append ha, List.singleton_append,
      firstLine_newline, otherLines_newline]
    exact ⟨rfl, rfl⟩
  · rw [ht hrest, hs, List.append_nil]
    exact ⟨hs, hrest⟩

theorem length_otherLines_lt (c : Char) (s : Text) : (otherLines (c :: s)).length < (c :: s).length := by
  unfold otherLines
  split
  · rename_i hs
    exact length_lt_of_splitFirst? hs
  · exact Nat.succ_pos _

/-- The full lines of a text are its first line and the full lines of what follows. -/
theorem fullLines_eq (c : Char) (s : Text) :
    fullLines (c :: s) = firstLine (c :: s) :: fullLines (otherLines (c :: s)) := by
  induction s generalizing c with
  | nil =>
      by_cases hc : c = '\n'
      · subst hc
        rfl
      · rw [firstLine_cons hc, otherLines_cons hc]
        rfl
  | cons d s ih =>
      rw [fullLines_cons, ih]
      by_cases hc : c = '\n'
      · subst hc
        rw [firstLine_newline, otherLines_newline, ih]
        simp [pushFront]
      · rw [firstLine_cons hc, otherLines_cons hc]
        simp [pushFront, hc]

end MarkdownLinks
