import MarkdownLinks.Link.Basic
import MarkdownLinks.Proofs.Text.Blank

/-! Titles as they are written, and how a link ends. A title is at least one blank and a text between
delimiters that has no closing delimiter in it. Behind the target a link ends with a closing parenthesis
that a title may precede, and in no other way. -/

namespace MarkdownLinks.Link

/-- A title as it is written behind a target, for the delimiters that `titleEnd` gives. -/
structure Title (titleEnd : Char → Option Char) where
  blanks : Text
  opening : Char
  inner : Text
  closing : Char
  blanks_ne_nil : blanks ≠ []
  isBlank_of_mem : ∀ c ∈ blanks, isBlank c
  delimiters : titleEnd opening = some closing
  closing_not_mem : closing ∉ inner

variable {titleEnd : Char → Option Char}

def Title.text (t : Title titleEnd) : Text := t.blanks ++ t.opening :: (t.inner ++ [t.closing])

/-- What stands behind a target where a title may stand. -/
def titleText : Option (Title titleEnd) → Text
  | none => []
  | some t => t.text

/-- A title with more blanks in front of it. -/
def Title.indent (t : Title titleEnd) (blanks : Text) (h : ∀ c ∈ blanks, isBlank c) : Title titleEnd where
  blanks := blanks ++ t.blanks
  opening := t.opening
  inner := t.inner
  closing := t.closing
  blanks_ne_nil := List.append_ne_nil_of_right_ne_nil blanks t.blanks_ne_nil
  isBlank_of_mem := fun c hc => (List.mem_append.1 hc).elim (h c) (t.isBlank_of_mem c)
  delimiters := t.delimiters
  closing_not_mem := t.closing_not_mem

theorem Title.text_indent (t : Title titleEnd) (blanks : Text) (h : ∀ c ∈ blanks, isBlank c) :
    (t.indent blanks h).text = blanks ++ t.text := by
  simp [indent, text]

theorem Title.text_append (t : Title titleEnd) (s : Text) :
    t.text ++ s = t.blanks ++ t.opening :: (t.inner ++ t.closing :: s) := by
  simp [text]

theorem titleEnd?_eq_none_of_isBlank {c : Char} (h : isBlank c) : titleEnd? c = none := by
  unfold titleEnd?
  split
  · exact absurd h (by decide)
  · exact absurd h (by decide)
  · exact absurd h (by decide)
  · rfl

theorem quotedTitleEnd?_eq_none_of_isBlank {c : Char} (h : isBlank c) : quotedTitleEnd? c = none := by
  unfold quotedTitleEnd?
  split
  · exact absurd h (by decide)
  · rfl

theorem isBlank_of_titleEnd? {c e : Char} (h : titleEnd? c = some e) : isBlank e = false := by
  unfold titleEnd? at h
  split at h <;> cases h <;> rfl

theorem eq_of_titleEnd?_eq_quote {c : Char} (h : titleEnd? c = some '"') : c = '"' := by
  unfold titleEnd? at h
  split at h
  · rfl
  · cases h
  · cases h
  · cases h

theorem eq_quote_of_quotedTitleEnd? {c e : Char} (h : quotedTitleEnd? c = some e) : c = '"' ∧ e = '"' := by
  unfold quotedTitleEnd? at h
  split at h
  · exact ⟨rfl, (Option.some.inj h).symm⟩
  · cases h

/-- A title in double quotes is a title. -/
def Title.ofQuoted (t : Title quotedTitleEnd?) : Title titleEnd? where
  blanks := t.blanks
  opening := t.opening
  inner := t.inner
  closing := t.closing
  blanks_ne_nil := t.blanks_ne_nil
  isBlank_of_mem := t.isBlank_of_mem
  delimiters := by
    rw [(eq_quote_of_quotedTitleEnd? t.delimiters).1, (eq_quote_of_quotedTitleEnd? t.delimiters).2]
    rfl
  closing_not_mem := t.closing_not_mem

theorem titleText_map_ofQuoted (title : Option (Title quotedTitleEnd?)) :
    titleText (title.map Title.ofQuoted) = titleText title := by
  cases title <;> rfl

section
variable (hdelim : ∀ {c}, isBlank c → titleEnd c = none)
include hdelim

theorem Title.isBlank_opening (t : Title titleEnd) : isBlank t.opening = false := by
  refine Bool.eq_false_iff.2 fun h => ?_
  have hopening := t.delimiters
  rw [hdelim h] at hopening
  cases hopening

/-- Skipping a title takes a title and leaves what follows it. -/
theorem skipTitle?_eq_some_iff {s rest : Text} :
    skipTitle? titleEnd s = some rest ↔ ∃ t : Title titleEnd, s = t.text ++ rest := by
  constructor
  · intro h
    unfold skipTitle? at h
    split at h
    · rename_i c inner hs
      obtain ⟨blanks, rfl, hne, hblanks, -⟩ := skipBlanks?_eq_some_iff.1 hs
      obtain ⟨e, he, h⟩ := Option.bind_eq_some_iff.1 h
      obtain ⟨⟨title, after⟩, hcut, rfl⟩ := Option.map_eq_some_iff.1 h
      obtain ⟨rfl, hclosing⟩ := splitFirst?_eq_some_iff.1 hcut
      exact ⟨⟨blanks, c, title, e, hne, hblanks, he, hclosing⟩, by simp [Title.text]⟩
    · cases h
  · rintro ⟨t, rfl⟩
    have hskip : skipBlanks? (t.text ++ rest) = some (t.opening :: (t.inner ++ t.closing :: rest)) := by
      refine skipBlanks?_eq_some_iff.2 ⟨t.blanks, t.text_append rest, t.blanks_ne_nil, t.isBlank_of_mem, ?_⟩
      rintro c ⟨⟩
      exact t.isBlank_opening hdelim
    simp only [skipTitle?, hskip]
    rw [t.delimiters, Option.bind_some, splitFirst?_append _ t.closing_not_mem, Option.map_some]

theorem close?_text_append_eq_some_iff (t : Title titleEnd) {s rest : Text} :
    close? titleEnd (t.text ++ s) = some rest ↔ s = ')' :: rest := by
  have hskip : skipTitle? titleEnd (t.text ++ s) = some s := (skipTitle?_eq_some_iff hdelim).2 ⟨t, rfl⟩
  have hne : ∀ r, t.text ++ s ≠ ')' :: r := by
    intro r h
    obtain ⟨c, blanks, hcons⟩ := List.exists_cons_of_ne_nil t.blanks_ne_nil
    rw [t.text_append, hcons, List.cons_append, List.cons.injEq] at h
    exact absurd (t.isBlank_of_mem c (hcons ▸ List.mem_cons_self)) (by rw [h.1]; decide)
  unfold close?
  split
  · rename_i r heq
    exact absurd heq (hne r)
  · rw [hskip]
    constructor
    · intro h
      split at h
      · rename_i heq
        cases heq
        cases h
        rfl
      · cases h
    · rintro rfl
      rfl

/-- A link ends with a closing parenthesis that a title may precede. -/
theorem close?_eq_some_iff {s rest : Text} :
    close? titleEnd s = some rest ↔ ∃ t : Option (Title titleEnd), s = titleText t ++ ')' :: rest := by
  constructor
  · intro h
    unfold close? at h
    split at h
    · cases h
      exact ⟨none, rfl⟩
    · split at h
      · rename_i hs
        cases h
        obtain ⟨t, rfl⟩ := (skipTitle?_eq_some_iff hdelim).1 hs
        exact ⟨some t, rfl⟩
      · cases h
  · rintro ⟨_ | t, rfl⟩
    · rfl
    · exact (close?_text_append_eq_some_iff hdelim t).2 rfl

end

/-- No link ends in front of a character that is neither a blank nor a closing parenthesis. -/
theorem close?_cons_eq_none {c : Char} (hblank : isBlank c = false) (hc : c ≠ ')') (s : Text) :
    close? titleEnd (c :: s) = none := by
  have hskip : skipTitle? titleEnd (c :: s) = none := by
    simp [skipTitle?, skipBlanks?, hblank]
  unfold close?
  split
  · rename_i heq
    exact absurd (List.cons.inj heq).1 hc
  · rw [hskip]

/-- In front of the only closing parenthesis a link ends with a title or with nothing. -/
theorem exists_titleText_eq_of_close?_concat {u rest : Text} (hparen : ')' ∉ u)
    (h : close? titleEnd? (u ++ [')']) = some rest) : ∃ title : Option (Title titleEnd?), u = titleText title := by
  obtain ⟨title, htitle⟩ := (close?_eq_some_iff titleEnd?_eq_none_of_isBlank).1 h
  refine ⟨title, ?_⟩
  rcases List.append_eq_append_iff.1 htitle with ⟨z, hz, hrest⟩ | ⟨z, hz, hrest⟩
  · have hlength := congrArg List.length hrest
    simp only [List.length_append, List.length_cons, List.length_nil] at hlength
    rw [hz, List.eq_nil_of_length_eq_zero (show z.length = 0 by omega), List.append_nil]
  · cases z with
    | nil => rw [hz, List.append_nil]
    | cons e z => exact absurd (by rw [hz, (List.cons.inj hrest).1]; simp) hparen

theorem Title.getLast?_text (t : Title titleEnd) : t.text.getLast? = some t.closing := by
  rw [text, ← List.cons_append, ← List.append_assoc, List.getLast?_concat]

/-- No link ends where blanks stand in front of the last closing parenthesis. -/
theorem close?_concat_eq_none {u : Text} {c : Char} (hparen : ')' ∉ u) (hlast : c ∈ u.getLast?) (hc : isBlank c) :
    close? titleEnd? (u ++ [')']) = none := by
  refine Option.eq_none_iff_forall_ne_some.2 fun rest h => ?_
  obtain ⟨title, rfl⟩ := exists_titleText_eq_of_close?_concat hparen h
  cases title with
  | none => cases hlast
  | some t =>
      rw [titleText, t.getLast?_text] at hlast
      cases hlast
      rw [isBlank_of_titleEnd? t.delimiters] at hc
      cases hc

/-- No link ends where a single double quote stands at the end in front of it. -/
theorem close?_quote_eq_none {w : Text} (hquote : '"' ∉ w) (hparen : ')' ∉ w) :
    close? titleEnd? (w ++ ['"', ')']) = none := by
  refine Option.eq_none_iff_forall_ne_some.2 fun rest h => ?_
  have hparen' : ')' ∉ w ++ ['"'] := by
    simp [hparen]
  rw [List.append_cons] at h
  obtain ⟨title, htitle⟩ := exists_titleText_eq_of_close?_concat hparen' h
  cases title with
  | none => exact List.append_ne_nil_of_right_ne_nil w (List.cons_ne_nil _ _) htitle
  | some t =>
      have hconcat : w ++ ['"'] = (t.blanks ++ t.opening :: t.inner) ++ [t.closing] := by
        rw [List.append_assoc, List.cons_append]
        exact htitle
      obtain ⟨rfl, hclosing⟩ := List.append_inj' hconcat rfl
      -- a title that a double quote closes is opened by another
      have hopening : t.opening = '"' := eq_of_titleEnd?_eq_quote (t.delimiters.trans (congrArg List.head? hclosing).symm)
      exact hquote (hopening ▸ List.mem_append_right _ List.mem_cons_self)

end MarkdownLinks.Link
