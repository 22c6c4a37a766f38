import MarkdownLinks.Proofs.Text.Percent

/-! Decoding what percent coding has encoded. The bytes that an encoded path stands for are those of the
path, so decoding gives the path back, whatever percent signs it holds. A text stands for its own bytes
exactly if it holds no well-formed escape: every such escape makes one byte of three characters. -/

namespace MarkdownLinks.Percent

theorem hexValue?_hexDigit {n : Nat} (hn : n < 16) : hexValue? (hexDigit n) = some n :=
  (by decide : ∀ n < 16, hexValue? (hexDigit n) = some n) n hn

theorem bytes_cons_of_ne {c : Char} (hc : c ≠ '%') (s : Text) :
    bytes (c :: s) = String.utf8EncodeChar c ++ bytes s :=
  bytes.eq_3 c s fun _ _ _ h _ => hc h

theorem bytes_escape_append (b : UInt8) (s : Text) : bytes (escape b ++ s) = b :: bytes s := by
  have hb := b.toNat_lt
  have hhigh := hexValue?_hexDigit (n := b.toNat / 16) (by omega)
  have hlow := hexValue?_hexDigit (n := b.toNat % 16) (by omega)
  have hvalue : 16 * (b.toNat / 16) + b.toNat % 16 = b.toNat := Nat.div_add_mod b.toNat 16
  show bytes ('%' :: hexDigit (b.toNat / 16) :: hexDigit (b.toNat % 16) :: s) = b :: bytes s
  rw [bytes, hhigh, hlow]
  dsimp only
  rw [hvalue, UInt8.ofNat_toNat]

theorem bytes_escapes_append (bs : List UInt8) (s : Text) :
    bytes (bs.flatMap escape ++ s) = bs ++ bytes s := by
  induction bs with
  | nil => rfl
  | cons b bs ih => rw [List.flatMap_cons, List.append_assoc, bytes_escape_append, ih, List.cons_append]

theorem bytes_encodeChar_append (c : Char) (s : Text) :
    bytes (encodeChar c ++ s) = String.utf8EncodeChar c ++ bytes s := by
  by_cases hc : isPlain c
  · have hne : c ≠ '%' := by
      rintro rfl
      exact absurd hc (by decide)
    rw [encodeChar, if_pos hc, List.singleton_append, bytes_cons_of_ne hne]
  · rw [encodeChar_of_not_isPlain hc, bytes_escapes_append]

/-- An encoded path stands for the bytes of the path. -/
theorem bytes_encodePath (s : Text) : bytes (encodePath s) = Utf8.encode s := by
  induction s with
  | nil => rfl
  | cons c s ih =>
      calc bytes (encodePath (c :: s))
          = bytes (encodeChar c ++ encodePath s) := rfl
        _ = String.utf8EncodeChar c ++ Utf8.encode s := by rw [bytes_encodeChar_append, ih]
        _ = Utf8.encode (c :: s) := rfl

/-- Decoding undoes encoding. -/
theorem decode_encodePath (s : Text) : decode (encodePath s) = s := by
  rw [decode, bytes_encodePath, Utf8.decode?_encode, Option.getD_some]

/-- Whether a text holds a well-formed escape: a percent sign with two hexadecimal digits behind it. -/
def HasEscape (s : Text) : Prop :=
  ∃ a b, (hexValue? a).isSome ∧ (hexValue? b).isSome ∧ ['%', a, b] <:+: s

/-- Whether the bytes that a text stands for encode a text. -/
def Decodes (s : Text) : Prop := (Utf8.decode? (bytes s).toByteArray).isSome

theorem hasEscape_cons_iff {c : Char} {s : Text} :
    HasEscape (c :: s) ↔
      (c = '%' ∧ ∃ a b t, s = a :: b :: t ∧ (hexValue? a).isSome ∧ (hexValue? b).isSome) ∨ HasEscape s := by
  constructor
  · rintro ⟨a, b, ha, hb, h⟩
    rcases List.infix_cons_iff.1 h with ⟨t, ht⟩ | h
    · cases ht
      exact Or.inl ⟨rfl, a, b, t, rfl, ha, hb⟩
    · exact Or.inr ⟨a, b, ha, hb, h⟩
  · rintro (⟨rfl, a, b, t, rfl, ha, hb⟩ | ⟨a, b, ha, hb, h⟩)
    · exact ⟨a, b, ha, hb, (List.prefix_append ['%', a, b] t).isInfix⟩
    · exact ⟨a, b, ha, hb, h.trans (List.suffix_cons c s).isInfix⟩

theorem length_bytes_le (s : Text) : (bytes s).length ≤ (Utf8.encode s).length := by
  fun_induction bytes s with
  | case1 => exact Nat.le_refl _
  | case2 a b s x y hy hx ih =>
      have ha := Char.utf8Size_pos a
      simp [Utf8.encode] at ih ⊢
      omega
  | case3 a b s h ih => simpa [Utf8.encode] using ih
  | case4 c s h ih => simpa [Utf8.encode] using ih

/-- An escape makes one byte of three. -/
theorem length_bytes_lt {s : Text} (h : HasEscape s) : (bytes s).length < (Utf8.encode s).length := by
  fun_induction bytes s with
  | case1 =>
      obtain ⟨a, b, -, -, h⟩ := h
      exact absurd (List.infix_nil.1 h) (List.cons_ne_nil _ _)
  | case2 a b s x y hy hx ih =>
      have ha := Char.utf8Size_pos a
      have hb := Char.utf8Size_pos b
      have hle := length_bytes_le s
      simp [Utf8.encode] at hle ⊢
      omega
  | case3 a b s hdigits ih =>
      have hs : HasEscape (a :: b :: s) := (hasEscape_cons_iff.1 h).resolve_left (by
        rintro ⟨-, a', b', t, ht, ha, hb⟩
        cases ht
        obtain ⟨x, hx⟩ := Option.isSome_iff_exists.1 ha
        obtain ⟨y, hy⟩ := Option.isSome_iff_exists.1 hb
        exact hdigits x y hx hy)
      simpa [Utf8.encode] using ih hs
  | case4 c s hfront ih =>
      have hs : HasEscape s := (hasEscape_cons_iff.1 h).resolve_left (by
        rintro ⟨hc, a, b, t, ht, -⟩
        exact hfront a b t hc ht)
      simpa [Utf8.encode] using ih hs

/-- A text without escapes stands for its own bytes. -/
theorem bytes_of_not_hasEscape {s : Text} (h : ¬HasEscape s) : bytes s = Utf8.encode s := by
  fun_induction bytes s with
  | case1 => rfl
  | case2 a b s x y hy hx ih =>
      refine absurd (hasEscape_cons_iff.2 (Or.inl ⟨rfl, a, b, s, rfl, ?_, ?_⟩)) h
      · rw [hx, Option.isSome_some]
      · rw [hy, Option.isSome_some]
  | case3 a b s hdigits ih => rw [ih fun hs => h (hasEscape_cons_iff.2 (Or.inr hs))]; rfl
  | case4 c s hfront ih => rw [ih fun hs => h (hasEscape_cons_iff.2 (Or.inr hs))]; rfl

/-- Decoding changes a text exactly if it holds an escape and its bytes encode a text. -/
theorem decode_eq_self_iff {s : Text} : decode s = s ↔ ¬(HasEscape s ∧ Decodes s) := by
  constructor
  · rintro h ⟨hescape, hdecodes⟩
    obtain ⟨t, ht⟩ := Option.isSome_iff_exists.1 hdecodes
    obtain rfl : t = s := by rwa [decode, ht, Option.getD_some] at h
    have hbytes := List.toByteArray_inj.1 (Utf8.decode?_eq_some_iff.1 ht)
    have hlength := length_bytes_lt hescape
    rw [hbytes] at hlength
    exact Nat.lt_irrefl _ hlength
  · intro h
    by_cases hescape : HasEscape s
    · have hnone := Option.not_isSome_iff_eq_none.1 fun hdecodes => h ⟨hescape, hdecodes⟩
      rw [decode, hnone, Option.getD_none]
    · rw [decode, bytes_of_not_hasEscape hescape, Utf8.decode?_encode, Option.getD_some]

end MarkdownLinks.Percent
