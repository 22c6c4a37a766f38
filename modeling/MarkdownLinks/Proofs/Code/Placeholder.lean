import MarkdownLinks.Code.Outline
import MarkdownLinks.Proofs.Code.Fences
import MarkdownLinks.Proofs.Text.Occurrence

/-! Placeholders as words. A placeholder is two underscores, a name, a number and two underscores, all
of it letters, digits and underscores. No placeholder is the front of another one. Where a placeholder
begins inside another one, it begins with the underscores at its end; so in a row of placeholders each
is found only where it stands, unless the text behind one goes on as a placeholder would. -/

namespace MarkdownLinks.Code

theorem underscore_not_mem_decimal (n : Nat) : '_' ∉ decimal n := Nat.underscore_not_in_toDigits

theorem decimal_injective {n m : Nat} (h : decimal n = decimal m) : n = m := by
  rw [← Nat.ofDigitChars_ten_toDigits (n := n), ← Nat.ofDigitChars_ten_toDigits (n := m)]
  exact congrArg (Nat.ofDigitChars 10 · 0) h

theorem eq_of_decimal_prefix {n m : Nat} {s t : Text}
    (h : decimal n ++ '_' :: s <+: decimal m ++ '_' :: t) : n = m := by
  obtain ⟨u, hu⟩ := h
  rw [List.append_assoc, List.cons_append] at hu
  exact decimal_injective (append_delimiter_inj (underscore_not_mem_decimal n) (underscore_not_mem_decimal m) hu).1

namespace Slot

/-- What the placeholders of blocks begin with, and what those of spans begin with. -/
def name : Slot → Text
  | .fenced _ => "__FENCED_CODE_BLOCK_".toList
  | .inline _ => "__INLINE_CODE_".toList

def number : Slot → Nat
  | .fenced n => n
  | .inline n => n

theorem placeholder_eq (slot : Slot) :
    slot.placeholder = slot.name ++ (decimal slot.number ++ ['_', '_']) := by
  cases slot with
  | fenced n => exact List.append_assoc _ _ _
  | inline n => exact List.append_assoc _ _ _

theorem mem_placeholder {slot : Slot} {c : Char} (h : c ∈ slot.placeholder) :
    c.isAlphanum ∨ c = '_' := by
  rw [placeholder_eq] at h
  rcases List.mem_append.1 h with h | h
  · have hname : slot.name.all fun c => c.isAlphanum || c == '_' := by
      cases slot with
      | fenced n => exact (by decide : "__FENCED_CODE_BLOCK_".toList.all fun c => c.isAlphanum || c == '_')
      | inline n => exact (by decide : "__INLINE_CODE_".toList.all fun c => c.isAlphanum || c == '_')
    simpa using List.all_eq_true.1 hname c h
  · rcases List.mem_append.1 h with h | h
    · exact Or.inl (by rw [Char.isAlphanum, mem_decimal h, Bool.or_true])
    · exact Or.inr (by simpa using h)

theorem not_mem_placeholder {c : Char} (hc : c.isAlphanum = false) (hu : c ≠ '_') (slot : Slot) :
    c ∉ slot.placeholder := by
  intro h
  rcases mem_placeholder h with h | h
  · rw [hc] at h
    cases h
  · exact hu h

theorem fenceMark_not_mem_placeholder {c : Char} (hc : isFenceMark c) (slot : Slot) :
    c ∉ slot.placeholder := by
  rcases Bool.or_eq_true_iff.1 hc with h | h <;> rw [beq_iff_eq.1 h] <;>
    exact not_mem_placeholder (by decide) (by decide) slot

theorem isTick_eq_false_of_mem_placeholder (slot : Slot) : ∀ c ∈ slot.placeholder, isTick c = false := by
  intro c hc
  apply beq_eq_false_iff_ne.2
  intro h
  exact not_mem_placeholder (by decide) (by decide) slot (h ▸ hc)

theorem newline_not_mem_placeholder (slot : Slot) : '\n' ∉ slot.placeholder :=
  not_mem_placeholder (by decide) (by decide) slot

/-- A placeholder begins with two underscores and a letter, which is another one for blocks than for
spans. -/
theorem exists_placeholder_eq (slot : Slot) :
    ∃ s, slot.placeholder = '_' :: '_' :: (match slot with | .fenced _ => 'F' | .inline _ => 'I') :: s := by
  cases slot with
  | fenced n => exact ⟨_, rfl⟩
  | inline n => exact ⟨_, rfl⟩

theorem exists_placeholder_eq_cons (slot : Slot) : ∃ s, slot.placeholder = '_' :: s := by
  obtain ⟨s, hs⟩ := exists_placeholder_eq slot
  exact ⟨_, hs⟩

theorem getLast?_placeholder (slot : Slot) : slot.placeholder.getLast? = some '_' := by
  rw [placeholder_eq, List.getLast?_append, List.getLast?_append]
  rfl

/-- No placeholder is the front of another one. -/
theorem eq_of_placeholder_prefix {slot other : Slot} {s : Text}
    (h : slot.placeholder <+: other.placeholder ++ s) : slot = other := by
  obtain ⟨t, ht⟩ := exists_placeholder_eq slot
  obtain ⟨t', ht'⟩ := exists_placeholder_eq other
  have hletter : '_' :: '_' :: _ :: t <+: '_' :: '_' :: _ :: (t' ++ s) := ht ▸ ht' ▸ h
  have hnumber : slot.name = other.name → slot.number = other.number := by
    intro hname
    rw [placeholder_eq, placeholder_eq, hname, List.append_assoc] at h
    have hdigits := (List.prefix_append_right_inj _).1 h
    rw [List.append_assoc] at hdigits
    exact eq_of_decimal_prefix hdigits
  cases slot with
  | fenced n =>
      cases other with
      | fenced m => exact congrArg fenced (hnumber rfl)
      | inline m => simp at hletter
  | inline n =>
      cases other with
      | fenced m => simp at hletter
      | inline m => exact congrArg inline (hnumber rfl)

/-- The ends of a placeholder at which another one may begin. -/
def IsTail (u : Text) : Prop := u = ['_'] ∨ u = ['_', '_']

/-- A part of the last two characters in front of another part is one of them in front of the other. -/
theorem IsTail.of_append {u w : Text} (h : IsTail (u ++ w)) (hu : u ≠ []) (hw : w ≠ []) :
    w = ['_'] ∧ u ++ w = ['_', '_'] := by
  obtain ⟨a, u, rfl⟩ := List.exists_cons_of_ne_nil hu
  obtain ⟨b, w, rfl⟩ := List.exists_cons_of_ne_nil hw
  cases u with
  | nil =>
      rcases h with h | h
      · cases h
      · cases h
        exact ⟨rfl, rfl⟩
  | cons c u => rcases h with h | h <;> simp at h


theorem isTail_of_suffix {u : Text} {n : Nat} (hne : u ≠ []) (hhead : ∀ c ∈ u.head?, c = '_')
    (h : u <:+ decimal n ++ ['_', '_']) : IsTail u := by
  obtain ⟨p, hp⟩ := h
  rcases List.append_eq_append_iff.1 hp with ⟨a, ha, rfl⟩ | ⟨b, _, hb⟩
  · cases a with
    | nil => exact Or.inr rfl
    | cons c a =>
        have hc : c = '_' := hhead c rfl
        refine absurd ?_ (underscore_not_mem_decimal n)
        rw [ha, hc]
        exact List.mem_append_right p List.mem_cons_self
  · rcases List.suffix_cons_iff.1 ⟨b, hb.symm⟩ with rfl | h
    · exact Or.inr rfl
    · rcases List.suffix_cons_iff.1 h with rfl | h
      · exact Or.inl rfl
      · exact absurd (List.suffix_nil.1 h) hne

theorem two_underscores_drop_name (slot : Slot) :
    ∀ k < slot.name.length, 0 < k → ['_', '_'].isPrefixOf (slot.name.drop k) = false := by
  cases slot with
  | fenced n => exact (by decide : ∀ k < "__FENCED_CODE_BLOCK_".toList.length, 0 < k →
      ['_', '_'].isPrefixOf ("__FENCED_CODE_BLOCK_".toList.drop k) = false)
  | inline n => exact (by decide : ∀ k < "__INLINE_CODE_".toList.length, 0 < k →
      ['_', '_'].isPrefixOf ("__INLINE_CODE_".toList.drop k) = false)

/-- A placeholder that begins inside another one begins where it begins, or with its last two
characters. -/
theorem overlap {slot other : Slot} {u s : Text} (hu : u <:+ other.placeholder) (hne : u ≠ [])
    (h : slot.placeholder <+: u ++ s) : u = other.placeholder ∨ IsTail u := by
  have htwo : ['_', '_'] <+: u ++ s := by
    obtain ⟨t, ht⟩ := exists_placeholder_eq slot
    exact List.IsPrefix.trans ⟨_, ht.symm⟩ h
  have hhead : ∀ c ∈ u.head?, c = '_' := by
    intro c hc
    obtain ⟨v, rfl⟩ := List.head?_eq_some_iff.1 hc
    exact (List.cons_prefix_cons.1 htwo).1.symm
  rw [placeholder_eq] at hu ⊢
  obtain ⟨p, hp⟩ := hu
  rcases List.append_eq_append_iff.1 hp with ⟨a, ha, hua⟩ | ⟨b, _, hb⟩
  · cases a with
    | nil => exact Or.inr (isTail_of_suffix (n := other.number) hne hhead ⟨[], hua⟩)
    | cons c a =>
        cases p with
        | nil => exact Or.inl (by rw [hua, ha, List.nil_append])
        | cons d p =>
            -- Inside the name no two underscores stand side by side, and a digit follows it.
            have hdrop : other.name.drop (d :: p).length = c :: a := by rw [ha, List.drop_left]
            have hlt : (d :: p).length < other.name.length := by
              rw [ha, List.length_append, List.length_cons (a := c)]
              omega
            have hnot := two_underscores_drop_name other _ hlt (Nat.succ_pos _)
            rw [hdrop] at hnot
            rw [hua] at htwo
            obtain ⟨rfl, hone⟩ := List.cons_prefix_cons.1 htwo
            cases a with
            | nil =>
                obtain ⟨e, ds, hds⟩ := List.exists_cons_of_ne_nil (Nat.toDigits_ne_nil (b := 10) (n := other.number))
                have hdec : decimal other.number = e :: ds := hds
                rw [hdec] at hone
                obtain ⟨rfl, _⟩ := List.cons_prefix_cons.1 hone
                exact absurd (hdec ▸ List.mem_cons_self) (underscore_not_mem_decimal other.number)
            | cons e a =>
                obtain ⟨rfl, _⟩ := List.cons_prefix_cons.1 hone
                cases hnot
  · exact Or.inr (isTail_of_suffix (n := other.number) hne hhead ⟨b, hb.symm⟩)

theorem two_lt_length_placeholder (slot : Slot) : 2 < slot.placeholder.length := by
  obtain ⟨t, ht⟩ := exists_placeholder_eq slot
  rw [ht]
  exact Nat.succ_lt_succ (Nat.succ_lt_succ (Nat.succ_pos _))

/-- In a placeholder that has lost its last one or two characters no placeholder begins, if what
follows is a character that placeholders do not have. -/
theorem not_beginsIn_stub {slot other : Slot} {v w s : Text} {f : Char} (hv : other.placeholder = v ++ w)
    (hw : IsTail w) (hf : f ∉ slot.placeholder) : ¬BeginsIn slot.placeholder v (f :: s) := by
  rintro ⟨u, hu, hne, h⟩
  have hfront : slot.placeholder <+: u := prefix_of_not_mem hf h
  have hend : u ++ w <:+ other.placeholder := by
    obtain ⟨p, rfl⟩ := hu
    exact ⟨p, by rw [hv, List.append_assoc]⟩
  have hlen := hfront.length_le
  have htwo := two_lt_length_placeholder slot
  have hover : slot.placeholder <+: u ++ w ++ [] := by
    rw [List.append_nil]
    exact hfront.trans (List.prefix_append u w)
  rcases overlap hend (by simp [hne]) hover with hall | htail
  · have hslot : slot = other :=
      eq_of_placeholder_prefix (s := []) (by
        rw [List.append_nil, ← hall]
        exact hfront.trans (List.prefix_append u w))
    have hshort := congrArg List.length hall
    rw [List.length_append, ← hslot] at hshort
    rcases hw with rfl | rfl <;> simp only [List.length_cons, List.length_nil] at hshort <;> omega
  · have hshort : (u ++ w).length ≤ 2 := by rcases htail with h | h <;> rw [h] <;> decide
    rw [List.length_append] at hshort
    omega

end Slot

end MarkdownLinks.Code
