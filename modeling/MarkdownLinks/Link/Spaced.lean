import MarkdownLinks.Link.Basic

/-! Links whose target may hold blanks: a destination in angle brackets, or the shortest run of
characters behind which the link ends, with an optional title of any of the three kinds. Images are
read as links. A whole line may instead be a reference definition, `[label]: target "title"`, whose
target is in angle brackets or one run without blanks; a label that begins with `^` makes it a
footnote, which is no definition. -/

namespace MarkdownLinks.Link

/-- A destination with its angle brackets, and what follows it. -/
def angled? : Text → Option (Text × Text)
  | '<' :: s => (splitFirst? '>' s).map fun (inner, rest) => ('<' :: (inner ++ ['>']), rest)
  | _ => none

/-- The shortest target that is not empty and behind which the link ends, past a title if one with
the given delimiters stands there. -/
def shortest? (titleEnd : Char → Option Char) : Text → Option (Text × Text)
  | [] => none
  | c :: s =>
      if c = ')' then none
      else
        match close? titleEnd s with
        | some rest => some ([c], rest)
        | none => (shortest? titleEnd s).map fun (target, rest) => (c :: target, rest)

/-- The delimiters of a title in quotes, `"…"` or `'…'`. -/
def quoteEnd? (c : Char) : Option Char := if c = '(' then none else titleEnd? c

/-- Whether another closing parenthesis stands right behind the first one. -/
def closesTwice (s : Text) : Bool :=
  (splitFirst? ')' s).any fun (_, rest) => rest.head? == some ')'

/-- A target in angle brackets if the link ends behind it, else the shortest target. The shortest
target holds no closing parenthesis, so a title in parentheses behind it takes the first one and the
link needs another right behind that. Where there is none, such titles are not tried. -/
def spacedTarget? (s : Text) : Option (Text × Text) :=
  ((angled? s).bind fun (target, s) => (close? titleEnd? s).map fun rest => (target, rest)).or
    (shortest? (if closesTwice s then titleEnd? else quoteEnd?) s)

theorem closesTwice_cons {c : Char} {s : Text} (h : c ≠ ')') : closesTwice (c :: s) = closesTwice s := by
  simp only [closesTwice, splitFirst?_cons, if_neg h]
  cases splitFirst? ')' s <;> rfl

theorem closesTwice_trimStart (s : Text) : closesTwice (trimStart s) = closesTwice s := by
  induction s with
  | nil => rfl
  | cons c s ih =>
      rw [trimStart, List.dropWhile_cons]
      split
      · rename_i hc
        rw [closesTwice_cons (by rintro rfl; exact absurd hc (by decide)), ← ih, trimStart]
      · rfl

theorem closesTwice_of_skipBlanks? {s rest : Text} (h : skipBlanks? s = some rest) :
    closesTwice rest = closesTwice s := by
  cases s with
  | nil => cases h
  | cons c s =>
      simp only [skipBlanks?] at h
      split at h
      · rename_i hc
        cases h
        rw [closesTwice_trimStart, closesTwice_cons (by rintro rfl; exact absurd hc (by decide))]
      · cases h

/-- Behind a lone first closing parenthesis no link ends with a title in parentheses. -/
theorem close?_quoteEnd? {s : Text} (h : closesTwice s = false) :
    close? quoteEnd? s = close? titleEnd? s := by
  simp only [close?, skipTitle?]
  cases hs : skipBlanks? s with
  | none => rfl
  | some t =>
      cases t with
      | nil => rfl
      | cons c inner =>
          by_cases hc : c = '('
          · subst hc
            rw [← closesTwice_of_skipBlanks? hs, closesTwice_cons (by decide), closesTwice] at h
            cases hp : splitFirst? ')' inner with
            | none => simp [quoteEnd?, titleEnd?, hp]
            | some p =>
                rw [hp] at h
                obtain ⟨title, _ | ⟨d, rest⟩⟩ := p <;> simp_all [quoteEnd?, titleEnd?]
          · simp only [quoteEnd?, if_neg hc]

theorem shortest?_quoteEnd? {s : Text} (h : closesTwice s = false) :
    shortest? quoteEnd? s = shortest? titleEnd? s := by
  induction s with
  | nil => rfl
  | cons c s ih =>
      by_cases hc : c = ')'
      · simp [shortest?, hc]
      · rw [closesTwice_cons hc] at h
        rw [shortest?, shortest?, close?_quoteEnd? h, ih h]

/-- Titles of all three kinds are read behind the shortest target. -/
theorem spacedTarget?_eq (s : Text) :
    spacedTarget? s =
      ((angled? s).bind fun (target, s) => (close? titleEnd? s).map fun rest => (target, rest)).or
        (shortest? titleEnd? s) := by
  rw [spacedTarget?]
  cases h : closesTwice s with
  | true => rfl
  | false => rw [← shortest?_quoteEnd? h]; rfl

theorem length_angled?_lt {s target rest : Text} (h : angled? s = some (target, rest)) :
    rest.length < s.length := by
  unfold angled? at h
  split at h
  · obtain ⟨⟨inner, rest'⟩, hs, h⟩ := Option.map_eq_some_iff.1 h
    cases h
    exact Nat.lt_succ_of_lt (length_lt_of_splitFirst? hs)
  · cases h

theorem length_shortest?_lt {titleEnd : Char → Option Char} {s target rest : Text}
    (h : shortest? titleEnd s = some (target, rest)) : rest.length < s.length := by
  induction s generalizing target with
  | nil => simp [shortest?] at h
  | cons c s ih =>
      unfold shortest? at h
      split at h
      · cases h
      · split at h
        · rename_i hc
          cases h
          exact Nat.lt_succ_of_lt (length_close?_lt hc)
        · obtain ⟨⟨target', rest'⟩, hs, h⟩ := Option.map_eq_some_iff.1 h
          cases h
          exact Nat.lt_succ_of_lt (ih hs)

theorem length_spacedTarget?_lt {s target rest : Text} (h : spacedTarget? s = some (target, rest)) :
    rest.length < s.length := by
  rcases Option.or_eq_some_iff.1 h with h | ⟨_, h⟩
  · obtain ⟨⟨target', s'⟩, ha, h⟩ := Option.bind_eq_some_iff.1 h
    obtain ⟨rest', hc, h⟩ := Option.map_eq_some_iff.1 h
    cases h
    exact Nat.lt_trans (length_close?_lt hc) (length_angled?_lt ha)
  · exact length_shortest?_lt h

/-- Reads a link or an image with a target that may hold blanks. -/
def spaced : Reader Link := reader spacedTarget? length_spacedTarget?_lt

/-- Whether a line may end here: nothing but blanks, with a title among them or not. -/
def endsLine (s : Text) : Bool :=
  s.all isBlank || (skipTitle? titleEnd? s).any fun rest => rest.all isBlank

/-- What follows the label of a reference definition and its colon, without leading blanks. -/
def skipDefinitionLabel? (line : Text) : Option Text :=
  match trimStart line with
  | '[' :: c :: s =>
      if c = ']' ∨ c = '^' then none
      else
        match splitFirst? ']' s with
        | some (_, ':' :: rest) => some (trimStart rest)
        | _ => none
  | _ => none

/-- The target of a reference definition that takes up the whole line. -/
def definitionTarget? (line : Text) : Option Text :=
  (skipDefinitionLabel? line).bind fun s =>
    let word := s.takeWhile fun c => !isBlank c
    ((angled? s).bind fun (target, rest) => if endsLine rest then some target else none).or
      (if word ≠ [] ∧ endsLine (s.dropWhile fun c => !isBlank c) then some word else none)

end MarkdownLinks.Link
