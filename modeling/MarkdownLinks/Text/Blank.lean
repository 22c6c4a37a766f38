import MarkdownLinks.Text.Basic

/-! Blank characters and trimming. Blank is the `White_Space` property of Unicode: twenty-five
characters, the line terminators among them. Trimming removes blanks from one end or from both and
nothing else. -/

namespace MarkdownLinks

/-- The `White_Space` property of Unicode. -/
def isBlank (c : Char) : Bool :=
  (0x09 ≤ c.toNat && c.toNat ≤ 0x0D) || c.toNat == 0x20 || c.toNat == 0x85 || c.toNat == 0xA0 ||
  c.toNat == 0x1680 || (0x2000 ≤ c.toNat && c.toNat ≤ 0x200A) || c.toNat == 0x2028 ||
  c.toNat == 0x2029 || c.toNat == 0x202F || c.toNat == 0x205F || c.toNat == 0x3000

/-- The text without its leading blanks. -/
def trimStart (s : Text) : Text := s.dropWhile isBlank

/-- The text without its trailing blanks. -/
def trimEnd (s : Text) : Text := (s.reverse.dropWhile isBlank).reverse

/-- The text without the blanks at either end. -/
def trim (s : Text) : Text := trimEnd (trimStart s)

/-- At least one blank, and what follows all of them. -/
def skipBlanks? (s : Text) : Option Text :=
  match s with
  | c :: rest => if isBlank c then some (trimStart rest) else none
  | [] => none

/-- The blanks that trimming takes from the front are only blanks. -/
theorem exists_trimStart (s : Text) : ∃ blanks, s = blanks ++ trimStart s ∧ ∀ c ∈ blanks, isBlank c :=
  ⟨s.takeWhile isBlank, (List.takeWhile_append_dropWhile).symm, fun c h => by
    have := List.all_takeWhile (p := isBlank) (l := s)
    exact List.all_eq_true.1 this c h⟩

theorem length_trimStart_le (s : Text) : (trimStart s).length ≤ s.length :=
  (List.dropWhile_sublist isBlank).length_le

theorem length_skipBlanks?_lt {s rest : Text} (h : skipBlanks? s = some rest) :
    rest.length < s.length := by
  cases s with
  | nil => simp [skipBlanks?] at h
  | cons c s =>
      simp only [skipBlanks?] at h
      split at h
      · cases h
        exact Nat.lt_succ_of_le (length_trimStart_le s)
      · cases h

end MarkdownLinks
