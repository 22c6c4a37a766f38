import MarkdownLinks.Text.Utf8

/-! Text as the system has it. Names, paths and arguments are rows of bytes to the system, any but zero, and need not
be UTF-8. They are texts here like everything else: a byte that is part of no character is written as two characters,
the one with the number zero, which no name has in it, and the one with the number of the byte. Where such a text is
shown, a replacement character stands for each of these bytes; bytes that begin a character and are not gone on with
have one for all of them. A text without the character zero is shown as it is, and its bytes are those of its
encoding. -/

namespace MarkdownLinks.Native

/-- What a text of the system is made of. -/
inductive Sign where
  | char (c : Char)
  /-- A byte that is part of no character. -/
  | byte (b : UInt8)

/-- The byte that a character stands for behind the character zero. -/
def byteOf? (c : Char) : Option UInt8 :=
  if 0x80 ≤ c.toNat ∧ c.toNat ≤ 0xFF then some (UInt8.ofNat c.toNat) else none

def signs : Text → List Sign
  | [] => []
  | [c] => [.char c]
  | c :: d :: s =>
      match if c = '\x00' then byteOf? d else none with
      | some b => .byte b :: signs s
      | none => .char c :: signs (d :: s)

def Sign.bytes : Sign → List UInt8
  | .char c => String.utf8EncodeChar c
  | .byte b => [b]

def Sign.isChar : Sign → Bool
  | .char _ => true
  | .byte _ => false

/-- The bytes of a text, as the system has them. -/
def bytes (s : Text) : List UInt8 := (signs s).flatMap Sign.bytes

/-- Whether the bytes of a text are UTF-8. -/
def isUtf8 (s : Text) : Bool := (signs s).all Sign.isChar

/-- What would go on with a character: so many bytes, the next one within bounds. -/
structure Owed where
  count : Nat
  low : UInt8 := 0x80
  high : UInt8 := 0xBF

namespace Owed

/-- What would go on with the character that a byte begins. -/
def of? (b : UInt8) : Option Owed :=
  if 0xC2 ≤ b ∧ b ≤ 0xDF then some { count := 1 }
  else if b = 0xE0 then some { count := 2, low := 0xA0 }
  else if b = 0xED then some { count := 2, high := 0x9F }
  else if 0xE1 ≤ b ∧ b ≤ 0xEF then some { count := 2 }
  else if b = 0xF0 then some { count := 3, low := 0x90 }
  else if 0xF1 ≤ b ∧ b ≤ 0xF3 then some { count := 3 }
  else if b = 0xF4 then some { count := 3, high := 0x8F }
  else none

def allows (o : Owed) (b : UInt8) : Bool := o.low ≤ b && b ≤ o.high

/-- What is owed behind a byte that was. -/
def next? (o : Owed) : Option Owed := if o.count ≤ 1 then none else some { count := o.count - 1 }

end Owed

/-- What stands for a byte that is part of no character. -/
def replacement : Char := '\ufffd'

/-- Signs as they are shown, behind bytes that would be gone on with by `owed`. The replacement character stands
where the first of such bytes does. -/
def displayFrom (owed : Option Owed) : List Sign → Text
  | [] => []
  | .char c :: signs => c :: displayFrom none signs
  | .byte b :: signs =>
      match owed.filter fun o => o.allows b with
      | some o => displayFrom o.next? signs
      | none => replacement :: displayFrom (Owed.of? b) signs

/-- A text of the system as it is shown. -/
def display (s : Text) : Text := displayFrom none (signs s)

section
variable {s : Text}

theorem signs_eq_map (h : '\x00' ∉ s ∨ ∀ c ∈ s, byteOf? c = none) : signs s = s.map .char := by
  fun_induction signs s with
  | case1 => rfl
  | case2 c => rfl
  | case3 c d s b hb ih =>
      split at hb
      · rename_i hc
        rcases h with h | h
        · exact absurd (hc ▸ List.mem_cons_self) h
        · rw [h d (List.mem_cons_of_mem c List.mem_cons_self)] at hb
          cases hb
      · cases hb
  | case4 c d s hb ih =>
      have hrest : '\x00' ∉ d :: s ∨ ∀ e ∈ d :: s, byteOf? e = none :=
        h.imp (fun h hmem => h (List.mem_cons_of_mem c hmem)) fun h e he => h e (List.mem_cons_of_mem c he)
      rw [ih hrest]
      rfl

theorem bytes_of_signs (h : signs s = s.map .char) : bytes s = Utf8.encode s := by
  rw [bytes, h, List.flatMap_map]
  rfl

theorem isUtf8_iff : isUtf8 s = true ↔ signs s = s.map .char := by
  rw [isUtf8]
  fun_induction signs s with
  | case1 => exact iff_of_true rfl rfl
  | case2 c => exact iff_of_true rfl rfl
  | case3 c d s b hb ih =>
      refine iff_of_false (fun h => by cases h) fun h => ?_
      cases (List.cons.inj h).1
  | case4 c d s hb ih =>
      rw [List.all_cons, Sign.isChar, Bool.true_and, ih]
      exact (List.cons_inj_right _).symm

theorem isUtf8_of_not_mem (h : '\x00' ∉ s) : isUtf8 s = true := isUtf8_iff.2 (signs_eq_map (Or.inl h))

theorem displayFrom_map_char (owed : Option Owed) (s : Text) : displayFrom owed (s.map .char) = s := by
  induction s generalizing owed with
  | nil => rfl
  | cons c s ih => rw [List.map_cons, displayFrom, ih]

/-- A text that is UTF-8 is shown as it is. -/
theorem display_of_isUtf8 (h : isUtf8 s = true) : display s = s := by
  rw [display, isUtf8_iff.1 h, displayFrom_map_char]

theorem mem_of_char_mem_signs {c : Char} (h : .char c ∈ signs s) : c ∈ s := by
  fun_induction signs s with
  | case1 => cases h
  | case2 d =>
      cases List.mem_singleton.1 h
      exact List.mem_singleton_self c
  | case3 d e s b hb ih =>
      rcases List.mem_cons.1 h with h | h
      · cases h
      · exact List.mem_cons_of_mem d (List.mem_cons_of_mem e (ih h))
  | case4 d e s hb ih =>
      rcases List.mem_cons.1 h with h | h
      · cases h
        exact List.mem_cons_self
      · exact List.mem_cons_of_mem d (ih h)

theorem mem_of_mem_displayFrom {c : Char} {owed : Option Owed} {signs : List Sign} (h : c ∈ displayFrom owed signs) :
    c = replacement ∨ .char c ∈ signs := by
  induction signs generalizing owed with
  | nil => cases h
  | cons sign signs ih =>
      have hlater : ∀ {owed}, c ∈ displayFrom owed signs → c = replacement ∨ .char c ∈ sign :: signs := fun h =>
        (ih h).imp_right (List.mem_cons_of_mem sign)
      cases sign with
      | char d =>
          rcases List.mem_cons.1 h with rfl | h
          · exact Or.inr List.mem_cons_self
          · exact hlater h
      | byte b =>
          rw [displayFrom] at h
          split at h
          · exact hlater h
          · rcases List.mem_cons.1 h with h | h
            · exact Or.inl h
            · exact hlater h

/-- A text that is shown has only the characters of the text, and replacement characters. -/
theorem mem_of_mem_display {c : Char} (h : c ∈ display s) : c = replacement ∨ c ∈ s :=
  (mem_of_mem_displayFrom h).imp_right mem_of_char_mem_signs

end

-- A byte that no character has, a character of three bytes that is cut short behind two of them, and an `a`.
example :
    display ['\x00', '\u00ff', '\x00', '\u00e2', '\x00', '\u0082', 'a'] = [replacement, replacement, 'a'] := by
  decide

end MarkdownLinks.Native
