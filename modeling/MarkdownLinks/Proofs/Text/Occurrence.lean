import MarkdownLinks.Text.Replace

/-! Occurrences of a word in a text, and what replacing them does. An occurrence *begins in* the front
part of a text if its first character belongs to that part, wherever it ends. The replacement of a word
copies a front part in which no occurrence begins, and replaces an occurrence at the front. -/

namespace MarkdownLinks

section
variable {α : Type} {word s t : List α} {a : α}

theorem prefix_of_not_mem (ha : a ∉ word) (h : word <+: s ++ a :: t) : word <+: s := by
  obtain ⟨r, hr⟩ := h
  rcases List.append_eq_append_iff.1 hr with ⟨b, hb, _⟩ | ⟨b, hb, hb'⟩
  · exact ⟨b, hb.symm⟩
  · cases b with
    | nil => exact ⟨[], by rw [hb, List.append_nil, List.append_nil]⟩
    | cons e b =>
        rw [List.cons_append, List.cons.injEq] at hb'
        refine absurd ?_ ha
        rw [hb, hb'.1]
        exact List.mem_append_right s List.mem_cons_self

/-- A word does not reach over a character that it does not have. -/
theorem infix_of_not_mem (ha : a ∉ word) (h : word <:+: s ++ a :: t) : word <:+: s ∨ word <:+: t := by
  induction s with
  | nil =>
      rcases List.infix_cons_iff.1 h with h | h
      · have hnil := List.prefix_nil.1 (prefix_of_not_mem (s := []) ha h)
        exact Or.inl ⟨[], [], by rw [hnil]; rfl⟩
      · exact Or.inr h
  | cons b s ih =>
      rcases List.infix_cons_iff.1 h with h | h
      · exact Or.inl (prefix_of_not_mem (s := b :: s) ha h).isInfix
      · exact (ih h).imp_left fun h => h.trans (List.suffix_cons b s).isInfix

end

/-- Whether an occurrence of a word begins in `s` when `t` follows. -/
def BeginsIn (word s t : Text) : Prop := ∃ u, u <:+ s ∧ u ≠ [] ∧ word <+: u ++ t

theorem not_beginsIn_nil (word t : Text) : ¬BeginsIn word [] t := by
  rintro ⟨u, hu, hne, _⟩
  exact hne (List.suffix_nil.1 hu)

theorem beginsIn_cons_iff {word s t : Text} {c : Char} :
    BeginsIn word (c :: s) t ↔ word <+: c :: (s ++ t) ∨ BeginsIn word s t := by
  constructor
  · rintro ⟨u, hu, hne, h⟩
    rcases List.suffix_cons_iff.1 hu with rfl | hu
    · exact Or.inl h
    · exact Or.inr ⟨u, hu, hne, h⟩
  · rintro (h | ⟨u, hu, hne, h⟩)
    · exact ⟨c :: s, List.suffix_refl _, List.cons_ne_nil c s, h⟩
    · exact ⟨u, hu.trans (List.suffix_cons c s), hne, h⟩

section
variable {word : Text} (hword : word ≠ []) (new : Text)
include hword

theorem replaceAll_nil : replaceAll word new [] = [] := by
  rw [replaceAll, dif_neg hword, Reader.replace, Reader.scan_nil]

theorem replaceAll_word_append (s : Text) : replaceAll word new (word ++ s) = new ++ replaceAll word new s := by
  have hread : (wordReader word hword).read (word ++ s) = some ((), s) := by
    rw [wordReader]
    exact Option.map_eq_some_iff.2 ⟨s, dropPrefix?_eq_some_iff.2 rfl, rfl⟩
  simp only [replaceAll, dif_neg hword, Reader.replace]
  rw [Reader.scan_of_read _ hread]

theorem replaceAll_cons {c : Char} {s : Text} (h : ¬word <+: c :: s) :
    replaceAll word new (c :: s) = c :: replaceAll word new s := by
  have hread : (wordReader word hword).read (c :: s) = none := by
    rw [wordReader, Option.map_eq_none_iff, Option.eq_none_iff_forall_ne_some]
    intro rest hrest
    exact h ⟨rest, (dropPrefix?_eq_some_iff.1 hrest).symm⟩
  simp only [replaceAll, dif_neg hword, Reader.replace]
  rw [Reader.scan_of_read_eq_none _ hread]

theorem replaceAll_append {s t : Text} (h : ¬BeginsIn word s t) :
    replaceAll word new (s ++ t) = s ++ replaceAll word new t := by
  induction s with
  | nil => rfl
  | cons c s ih =>
      rw [beginsIn_cons_iff, not_or] at h
      rw [List.cons_append, replaceAll_cons hword new h.1, ih h.2, List.cons_append]

end

end MarkdownLinks
