import MarkdownLinks.Text.Blank
import Mathlib.Data.List.TakeWhile

/-! Blanks at the front and at the end of a text. Trimming takes only blanks, so blanks that are put behind
a text are trimmed away again, and a text that neither begins nor ends with a blank stays as it is.
Skipping blanks takes all blanks that there are, and at least one. -/

namespace MarkdownLinks

variable {s t rest : Text} {c : Char}

theorem trimStart_of_isBlank (h : ∀ c ∈ s, isBlank c) : trimStart s = [] :=
  List.dropWhile_eq_nil_iff.2 h

theorem trimStart_cons_of_not (hc : isBlank c = false) (s : Text) : trimStart (c :: s) = c :: s :=
  List.dropWhile_cons_of_neg (Bool.eq_false_iff.1 hc)

theorem trimStart_append_of_isBlank (h : ∀ c ∈ s, isBlank c) (t : Text) : trimStart (s ++ t) = trimStart t :=
  List.dropWhile_append_of_pos h

theorem head?_trimStart (hc : c ∈ (trimStart s).head?) : isBlank c = false := by
  have h := List.head?_dropWhile_not isBlank s
  rw [show (s.dropWhile isBlank).head? = some c from hc] at h
  exact h

/-- Trimming takes only blanks from the end. -/
theorem exists_trimEnd (s : Text) : ∃ blanks, s = trimEnd s ++ blanks ∧ ∀ c ∈ blanks, isBlank c := by
  refine ⟨(s.reverse.takeWhile isBlank).reverse, ?_, fun c hc => ?_⟩
  · rw [trimEnd, ← List.reverse_append, List.takeWhile_append_dropWhile, List.reverse_reverse]
  · exact List.all_eq_true.1 List.all_takeWhile c (List.mem_reverse.1 hc)

theorem getLast?_trimEnd (hc : c ∈ (trimEnd s).getLast?) : isBlank c = false := by
  rw [trimEnd, List.getLast?_reverse] at hc
  exact head?_trimStart hc

theorem trimEnd_append_of_isBlank (h : ∀ c ∈ t, isBlank c) (s : Text) : trimEnd (s ++ t) = trimEnd s := by
  rw [trimEnd, List.reverse_append, List.dropWhile_append_of_pos fun c hc => h c (List.mem_reverse.1 hc), trimEnd]

/-- Blanks behind a text are trimmed away. -/
theorem trim_append_of_isBlank (h : ∀ c ∈ t, isBlank c) (s : Text) : trim (s ++ t) = trim s := by
  rw [trim, trim, trimStart, List.dropWhile_append]
  split
  · rename_i hempty
    rw [← trimStart, trimStart_of_isBlank h, trimStart, List.isEmpty_iff.1 hempty]
  · rw [trimEnd_append_of_isBlank h, trimStart]

theorem mem_of_mem_trim (h : c ∈ trim s) : c ∈ s := by
  rw [trim, trimEnd, List.mem_reverse] at h
  exact (List.dropWhile_sublist isBlank).subset (List.mem_reverse.1 ((List.dropWhile_sublist isBlank).subset h))

theorem length_trim_le (s : Text) : (trim s).length ≤ s.length := by
  have hend := (List.dropWhile_sublist isBlank (l := (trimStart s).reverse)).length_le
  rw [trim, trimEnd, List.length_reverse]
  rw [List.length_reverse] at hend
  exact Nat.le_trans hend (length_trimStart_le s)

/-- A text that does not begin with a blank begins with the same character when it is trimmed. -/
theorem head?_trim (hc : isBlank c = false) (s : Text) : (trim (c :: s)).head? = some c := by
  obtain ⟨blanks, heq, hblanks⟩ := exists_trimEnd (c :: s)
  rw [trim, trimStart_cons_of_not hc]
  cases h : trimEnd (c :: s) with
  | nil =>
      rw [h, List.nil_append] at heq
      rw [hblanks c (heq ▸ List.mem_cons_self)] at hc
      cases hc
  | cons d t =>
      rw [h, List.cons_append] at heq
      rw [(List.cons.inj heq).1, List.head?_cons]

theorem trimEnd_eq_self (h : ∀ c ∈ s.getLast?, isBlank c = false) : trimEnd s = s := by
  unfold trimEnd
  cases hs : s.reverse with
  | nil => rw [List.reverse_eq_nil_iff.1 hs, List.dropWhile_nil, List.reverse_nil]
  | cons c t =>
      have hc : isBlank c = false := h c (by rw [← List.head?_reverse, hs]; rfl)
      rw [List.dropWhile_cons_of_neg (Bool.eq_false_iff.1 hc), ← hs, List.reverse_reverse]

/-- A text that neither begins nor ends with a blank is trimmed. -/
theorem trim_eq_self (hhead : ∀ c ∈ s.head?, isBlank c = false) (hlast : ∀ c ∈ s.getLast?, isBlank c = false) :
    trim s = s := by
  have hstart : trimStart s = s := by
    cases s with
    | nil => rfl
    | cons c s => exact trimStart_cons_of_not (hhead c rfl) s
  rw [trim, hstart, trimEnd_eq_self hlast]

/-- Of a text that ends in text without blanks, trimming takes only blanks at the front. -/
theorem trim_append_of_not_isBlank (hne : t ≠ []) (h : ∀ c ∈ t, isBlank c = false) (s : Text) :
    trim (s ++ t) = trimStart s ++ t := by
  have hstart : trimStart (s ++ t) = trimStart s ++ t := by
    rw [trimStart, List.dropWhile_append]
    split
    · rename_i hempty
      obtain ⟨c, u, rfl⟩ := List.exists_cons_of_ne_nil hne
      rw [trimStart, List.isEmpty_iff.1 hempty, List.nil_append]
      exact trimStart_cons_of_not (h c List.mem_cons_self) u
    · rfl
  rw [trim, hstart, trimEnd_eq_self]
  intro c hc
  rw [List.getLast?_append, List.getLast?_eq_some_getLast hne, Option.some_or] at hc
  cases hc
  exact h _ (List.getLast_mem hne)

theorem trim_of_not_isBlank (h : ∀ c ∈ s, isBlank c = false) : trim s = s :=
  trim_eq_self (fun c hc => h c (List.mem_of_mem_head? hc)) fun c hc => h c (List.mem_of_mem_getLast? hc)

/-- What trimming takes from behind a text that does not begin with a blank is blank. -/
theorem isBlank_of_trim_append_eq (hne : s ≠ []) (hhead : ∀ c ∈ s.head?, isBlank c = false)
    (h : trim (s ++ t) = s) : ∀ c ∈ t, isBlank c := by
  have hstart : trimStart (s ++ t) = s ++ t := by
    obtain ⟨c, u, rfl⟩ := List.exists_cons_of_ne_nil hne
    exact trimStart_cons_of_not (hhead c rfl) (u ++ t)
  obtain ⟨blanks, heq, hblanks⟩ := exists_trimEnd (s ++ t)
  rw [trim, hstart] at h
  rw [h] at heq
  rwa [List.append_cancel_left heq]

/-- Skipping blanks takes all blanks at the front, of which there is at least one. -/
theorem skipBlanks?_eq_some_iff :
    skipBlanks? s = some rest ↔
      ∃ blanks, s = blanks ++ rest ∧ blanks ≠ [] ∧ (∀ c ∈ blanks, isBlank c) ∧
        ∀ c ∈ rest.head?, isBlank c = false := by
  constructor
  · intro h
    unfold skipBlanks? at h
    split at h
    · rename_i c s
      split at h
      · rename_i hc
        cases h
        obtain ⟨blanks, hs, hblanks⟩ := exists_trimStart s
        refine ⟨c :: blanks, by rw [List.cons_append, ← hs], List.cons_ne_nil c blanks, ?_,
          fun d hd => head?_trimStart hd⟩
        exact List.forall_mem_cons.2 ⟨hc, hblanks⟩
      · cases h
    · cases h
  · rintro ⟨blanks, rfl, hne, hblanks, hrest⟩
    obtain ⟨c, blanks, rfl⟩ := List.exists_cons_of_ne_nil hne
    obtain ⟨hc, hblanks⟩ := List.forall_mem_cons.1 hblanks
    rw [List.cons_append, skipBlanks?, if_pos hc, trimStart_append_of_isBlank hblanks]
    cases rest with
    | nil => rfl
    | cons d rest => rw [trimStart_cons_of_not (hrest d rfl)]

end MarkdownLinks
