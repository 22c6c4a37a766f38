import MarkdownLinks.Text.LetterCase
import Mathlib.Data.List.Basic

/-! Lowercasing and ASCII. A text in ASCII is lowercased character by character. Any other character has an
image that ends in a character which is not ASCII either; the Kelvin sign alone becomes the letter `k`. So a
word in ASCII without that letter stands at the end of a lowercased text exactly if it stands at the end of
the text itself up to the case of ASCII letters, whatever comes before it. -/

namespace MarkdownLinks

namespace LetterCase

/-- The rows of the table lead out of ASCII and to code points of characters, but for the row of the Kelvin
sign. -/
theorem image_of_mem_lowercaseRows : ∀ row ∈ lowercaseRows,
    (row.image = 'k'.toNat ∧ row.last = row.first) ∨
      (0x80 ≤ row.image ∧ (row.image + (row.last - row.first) < 0xD800 ∨
        0xDFFF < row.image ∧ row.image + (row.last - row.first) < 0x110000)) := by
  decide +kernel

theorem ofNat_send {row : Row} (hrow : row ∈ lowercaseRows) {n : Nat} (hcovers : row.covers n) :
    Char.ofNat (row.send n) = 'k' ∨ 0x80 ≤ (Char.ofNat (row.send n)).toNat := by
  have hbounds : row.first ≤ n ∧ n ≤ row.last := by
    simp only [Row.covers, Bool.and_eq_true, decide_eq_true_eq] at hcovers
    exact hcovers.1
  rcases image_of_mem_lowercaseRows row hrow with ⟨himage, hone⟩ | ⟨himage, hrange⟩
  · have hsend : row.send n = 'k'.toNat := by
      show row.image + (n - row.first) = 'k'.toNat
      omega
    rw [hsend]
    exact Or.inl (Char.ofNat_toNat 'k')
  · have hsend : 0x80 ≤ row.send n ∧ (row.send n < 0xD800 ∨ 0xDFFF < row.send n ∧ row.send n < 0x110000) := by
      show 0x80 ≤ row.image + (n - row.first) ∧ (row.image + (n - row.first) < 0xD800 ∨
        0xDFFF < row.image + (n - row.first) ∧ row.image + (n - row.first) < 0x110000)
      omega
    rw [Char.ofNat, dif_pos hsend.2]
    exact Or.inr hsend.1

theorem lowerChar_ne_nil (c : Char) : lowerChar c ≠ [] := by
  unfold lowerChar
  split
  · exact List.cons_ne_nil _ _
  · split
    · exact List.cons_ne_nil _ _
    · split <;> exact List.cons_ne_nil _ _

/-- The image of a character that is not ASCII ends in one that is not, or is the letter `k`. -/
theorem getLast?_lowerChar {c d : Char} (hc : 0x80 ≤ c.toNat) (hd : d ∈ (lowerChar c).getLast?) :
    d = 'k' ∨ 0x80 ≤ d.toNat := by
  rw [lowerChar, if_neg (by omega)] at hd
  split at hd
  · obtain rfl : '\u0307' = d := Option.some.inj hd
    exact Or.inr (by decide)
  · split at hd
    · rename_i row hrow
      cases hd
      have hcovers := List.find?_some hrow
      exact ofNat_send (List.mem_of_find?_eq_some hrow) hcovers
    · cases hd
      exact Or.inr hc

/-- What a character becomes between the text before it, given last character first, and the text behind. -/
def imageBetween (before : Text) (c : Char) (s : Text) : Text :=
  if c = 'Σ' then [if casedFirst before && !casedFirst s then 'ς' else 'σ'] else lowerChar c

section
variable (before : Text) (c : Char) (s : Text)

theorem lowerAfter_cons : lowerAfter before (c :: s) = imageBetween before c s ++ lowerAfter (c :: before) s := rfl

theorem imageBetween_ne_nil : imageBetween before c s ≠ [] := by
  unfold imageBetween
  split
  · exact List.cons_ne_nil _ _
  · exact lowerChar_ne_nil c

theorem imageBetween_of_ascii (hc : c.toNat < 0x80) : imageBetween before c s = [c.toLower] := by
  have hsigma : c ≠ 'Σ' := by
    rintro rfl
    exact absurd hc (by decide)
  rw [imageBetween, if_neg hsigma, lowerChar, if_pos hc]

theorem getLast?_imageBetween (hc : 0x80 ≤ c.toNat) {d : Char} (hd : d ∈ (imageBetween before c s).getLast?) :
    d = 'k' ∨ 0x80 ≤ d.toNat := by
  rw [imageBetween] at hd
  split at hd
  · have hd' : (if casedFirst before && !casedFirst s then 'ς' else 'σ') = d := Option.some.inj hd
    split at hd'
    · exact Or.inr (hd' ▸ by decide)
    · exact Or.inr (hd' ▸ by decide)
  · exact getLast?_lowerChar hc hd

end

theorem length_le_lowerAfter (before s : Text) : s.length ≤ (lowerAfter before s).length := by
  induction s generalizing before with
  | nil => exact Nat.le_refl 0
  | cons c s ih =>
      have himage := List.length_pos_iff.2 (imageBetween_ne_nil before c s)
      have hrest := ih (c :: before)
      rw [lowerAfter_cons, List.length_append, List.length_cons]
      omega

/-- A text in ASCII is lowercased character by character. -/
theorem lowerAfter_of_ascii {s : Text} (h : ∀ c ∈ s, c.toNat < 0x80) (before : Text) :
    lowerAfter before s = s.map Char.toLower := by
  induction s generalizing before with
  | nil => rfl
  | cons c s ih =>
      obtain ⟨hc, hs⟩ := List.forall_mem_cons.1 h
      rw [lowerAfter_cons, imageBetween_of_ascii before c s hc, ih hs, List.map_cons, List.singleton_append]

theorem exists_lowerAfter_append (before u v : Text) :
    ∃ image, lowerAfter before (u ++ v) = image ++ lowerAfter (u.reverse ++ before) v := by
  induction u generalizing before with
  | nil => exact ⟨[], rfl⟩
  | cons c u ih =>
      obtain ⟨image, himage⟩ := ih (c :: before)
      refine ⟨imageBetween before c (u ++ v) ++ image, ?_⟩
      rw [List.cons_append, lowerAfter_cons, himage, List.reverse_cons, List.append_assoc, List.append_assoc,
        List.singleton_append]

/-- The small letter of a character is the character, or both are letters. -/
theorem toLower_cases (c : Char) :
    c.toLower = c ∨ 0x41 ≤ c.toNat ∧ c.toNat ≤ 0x5A ∧ c.toLower.toNat = c.toNat + 0x20 := by
  by_cases hupper : 'A'.val ≤ c.val ∧ c.val ≤ 'Z'.val
  · have hfirst : 0x41 ≤ c.toNat := UInt32.le_iff_toNat_le.1 hupper.1
    have hlast : c.toNat ≤ 0x5A := UInt32.le_iff_toNat_le.1 hupper.2
    refine Or.inr ⟨hfirst, hlast, ?_⟩
    have hlower : c.toLower.val = c.val + 0x20 := congrArg Char.val (dif_pos hupper)
    show c.toLower.val.toNat = c.val.toNat + 0x20
    rw [hlower, UInt32.toNat_add]
    apply Nat.mod_eq_of_lt
    show c.toNat + 0x20 < 2 ^ 32
    omega
  · exact Or.inl (dif_neg hupper)

theorem toNat_lt_of_toLower {c : Char} (h : c.toLower.toNat < 0x80) : c.toNat < 0x80 := by
  rcases toLower_cases c with heq | ⟨-, hlast, -⟩
  · rwa [heq] at h
  · omega

/-- A character that is no small letter is the small letter of itself alone. -/
theorem eq_of_toLower_eq {c d : Char} (hd : ¬(0x61 ≤ d.toNat ∧ d.toNat ≤ 0x7A)) (h : c.toLower = d) : c = d := by
  rcases toLower_cases c with heq | ⟨hfirst, hlast, heq⟩
  · exact heq.symm.trans h
  · rw [h] at heq
    omega

/-- Letter case aside, texts have the same characters that are not letters. -/
theorem mem_of_map_toLower_eq {s t : Text} {d : Char} (hd : ¬(0x61 ≤ d.toNat ∧ d.toNat ≤ 0x7A)) (hlower : d.toLower = d)
    (h : s.map Char.toLower = t.map Char.toLower) (hmem : d ∈ s) : d ∈ t := by
  have himage : d.toLower ∈ t.map Char.toLower := h ▸ List.mem_map_of_mem hmem
  obtain ⟨c, hc, heq⟩ := List.mem_map.1 himage
  rw [hlower] at heq
  rwa [eq_of_toLower_eq hd heq] at hc

/-- What ends the image of a character, in ASCII and without the letter `k`, is its small letter. -/
theorem eq_of_suffix_imageBetween {before s z : Text} {c : Char} (hz : ∀ d ∈ z, d.toNat < 0x80 ∧ d ≠ 'k')
    (hne : z ≠ []) (h : z <:+ imageBetween before c s) : z = [c.toLower] := by
  obtain ⟨t, ht⟩ := h
  have hc : c.toNat < 0x80 := by
    have hlast : z.getLast hne ∈ (imageBetween before c s).getLast? := by
      rw [← ht, List.getLast?_append_of_ne_nil t hne, List.getLast?_eq_some_getLast hne]
      rfl
    obtain ⟨hsmall, hk⟩ := hz _ (List.getLast_mem hne)
    by_contra hc
    rcases getLast?_imageBetween before c s (by omega) hlast with hd | hd
    · exact hk hd
    · omega
  rw [imageBetween_of_ascii before c s hc] at ht
  have hlength : t.length + z.length = 1 := by
    rw [← List.length_append, ht, List.length_singleton]
  have hpos := List.length_pos_iff.2 hne
  rwa [List.eq_nil_of_length_eq_zero (show t.length = 0 by omega), List.nil_append] at ht

theorem suffix_map_toLower {before s w : Text} (hw : ∀ d ∈ w, d.toNat < 0x80 ∧ d ≠ 'k')
    (h : w <:+ lowerAfter before s) : w <:+ s.map Char.toLower := by
  induction s generalizing before w with
  | nil => exact h
  | cons c s ih =>
      obtain ⟨t, ht⟩ := h
      rw [lowerAfter_cons] at ht
      rw [List.map_cons]
      rcases List.append_eq_append_iff.1 ht with ⟨z, hz, rfl⟩ | ⟨z, -, hz⟩
      · -- The word takes up all that the rest of the text becomes, which is then no longer than the rest.
        obtain ⟨hzfree, hrest⟩ := List.forall_mem_append.1 hw
        have hsuffix : lowerAfter (c :: before) s = s.map Char.toLower := by
          apply (ih hrest (List.suffix_refl _)).eq_of_length_le
          rw [List.length_map]
          exact length_le_lowerAfter (c :: before) s
        rw [hsuffix]
        by_cases hnil : z = []
        · rw [hnil, List.nil_append]
          exact List.suffix_cons _ _
        · obtain rfl := eq_of_suffix_imageBetween hzfree hnil ⟨t, hz.symm⟩
          exact List.suffix_refl _
      · exact (ih hw ⟨z, hz.symm⟩).trans (List.suffix_cons _ _)

end LetterCase

/-- A word in ASCII without the letter `k` ends a lowercased text exactly if it ends the text up to the case
of ASCII letters. -/
theorem suffix_lowercase_iff {w s : Text} (hw : ∀ c ∈ w, c.toNat < 0x80 ∧ c ≠ 'k') :
    w <:+ lowercase s ↔ w <:+ s.map Char.toLower := by
  constructor
  · exact LetterCase.suffix_map_toLower hw
  · rintro ⟨t, ht⟩
    obtain ⟨u, v, rfl, -, rfl⟩ := List.map_eq_append_iff.1 ht.symm
    have hv : ∀ c ∈ v, c.toNat < 0x80 := fun c hc =>
      LetterCase.toNat_lt_of_toLower (hw _ (List.mem_map_of_mem hc)).1
    obtain ⟨image, himage⟩ := LetterCase.exists_lowerAfter_append [] u v
    rw [lowercase, himage, LetterCase.lowerAfter_of_ascii hv]
    exact List.suffix_append _ _

end MarkdownLinks
