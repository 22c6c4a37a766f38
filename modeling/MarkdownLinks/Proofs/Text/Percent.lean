import MarkdownLinks.Text.Percent

/-! Which characters an encoded path has. An escape is a percent sign and hexadecimal digits, so an
encoded path has no characters but the unreserved ones, the separator and percent signs; and it is at
least as long as the path. -/

namespace MarkdownLinks.Percent

section
variable {c d : Char}

theorem isAlphanum_hexDigit {n : Nat} (hn : n < 16) : (hexDigit n).isAlphanum :=
  (by decide : ∀ n < 16, (hexDigit n).isAlphanum) n hn

theorem mem_escape {b : UInt8} (h : d ∈ escape b) : d = '%' ∨ d.isAlphanum := by
  have hb := b.toNat_lt
  rw [escape, List.mem_cons, List.mem_cons, List.mem_singleton] at h
  rcases h with rfl | rfl | rfl
  · exact Or.inl rfl
  · exact Or.inr (isAlphanum_hexDigit (by omega))
  · exact Or.inr (isAlphanum_hexDigit (by omega))

theorem isPlain_of_isAlphanum (h : c.isAlphanum) : isPlain c := by
  simp [isPlain, h]

section
variable (hc : ¬isPlain c)
include hc

theorem encodeChar_of_not_isPlain : encodeChar c = (String.utf8EncodeChar c).flatMap escape := by
  rw [encodeChar, if_neg hc]

/-- A character that is escaped has percent signs and digits in its place. -/
theorem mem_encodeChar (h : d ∈ encodeChar c) : d = '%' ∨ d.isAlphanum := by
  rw [encodeChar_of_not_isPlain hc] at h
  obtain ⟨b, -, hb⟩ := List.mem_flatMap.1 h
  exact mem_escape hb

/-- What stands in the place of a character that is escaped begins with a percent sign. -/
theorem exists_encodeChar_eq_cons : ∃ s, encodeChar c = '%' :: s := by
  obtain ⟨b, bs, hbs⟩ : ∃ b bs, String.utf8EncodeChar c = b :: bs := List.exists_cons_of_length_pos (by
    rw [String.length_utf8EncodeChar]
    exact c.utf8Size_pos)
  rw [encodeChar_of_not_isPlain hc, hbs, List.flatMap_cons]
  exact ⟨_, rfl⟩

end

/-- An encoded path has no characters but percent signs and those that need no escape. -/
theorem mem_encodePath {s : Text} (h : d ∈ encodePath s) : d = '%' ∨ isPlain d := by
  obtain ⟨c, -, hd⟩ := List.mem_flatMap.1 h
  by_cases hc : isPlain c
  · rw [encodeChar, if_pos hc, List.mem_singleton] at hd
    exact Or.inr (hd ▸ hc)
  · exact (mem_encodeChar hc hd).imp_right isPlain_of_isAlphanum

theorem not_mem_encodePath (hpercent : c ≠ '%') (hc : ¬isPlain c) (s : Text) : c ∉ encodePath s := fun h =>
  (mem_encodePath h).elim hpercent hc

theorem length_le_encodePath (s : Text) : s.length ≤ (encodePath s).length := by
  induction s with
  | nil => exact Nat.le_refl 0
  | cons c s ih =>
      have hchar : 1 ≤ (encodeChar c).length := by
        by_cases hc : isPlain c
        · rw [encodeChar, if_pos hc]
          exact Nat.le_refl 1
        · obtain ⟨t, ht⟩ := exists_encodeChar_eq_cons hc
          rw [ht, List.length_cons]
          exact Nat.le_add_left 1 _
      rw [encodePath, List.flatMap_cons, ← encodePath, List.length_append, List.length_cons]
      omega

theorem encodePath_ne_nil {s : Text} (h : s ≠ []) : encodePath s ≠ [] := fun hnil => by
  have hlength := length_le_encodePath s
  rw [hnil, List.length_nil] at hlength
  exact h (List.eq_nil_of_length_eq_zero (Nat.le_zero.1 hlength))

theorem encodePath_of_isPlain {s : Text} (h : ∀ c ∈ s, isPlain c) : encodePath s = s := by
  induction s with
  | nil => rfl
  | cons c s ih =>
      rw [encodePath, List.flatMap_cons, ← encodePath, ih fun d hd => h d (List.mem_cons_of_mem c hd),
        encodeChar, if_pos (h c List.mem_cons_self)]
      rfl

end

end MarkdownLinks.Percent
