import MarkdownLinks.Text.Utf8

/-! Percent coding of paths. Encoding keeps the unreserved characters and the separator `/`, and writes
every other character as the escapes of its bytes in UTF-8. Decoding reads an escape wherever a percent
sign is followed by two hexadecimal digits, in either case, and takes everything else as it stands; a
text whose bytes are not UTF-8 after decoding is left undecoded. -/

namespace MarkdownLinks.Percent

/-- The characters that need no escape in a path: the unreserved ones and the separator. -/
def isPlain (c : Char) : Bool :=
  c.isAlphanum || c == '-' || c == '_' || c == '.' || c == '~' || c == '/'

/-- A number below sixteen as a hexadecimal digit, capital where it is a letter. -/
def hexDigit (n : Nat) : Char := (Nat.digitChar n).toUpper

/-- The value of a hexadecimal digit in either case. -/
def hexValue? (c : Char) : Option Nat :=
  if '0' ≤ c ∧ c ≤ '9' then some (c.toNat - '0'.toNat)
  else if 'a' ≤ c ∧ c ≤ 'f' then some (c.toNat - 'a'.toNat + 10)
  else if 'A' ≤ c ∧ c ≤ 'F' then some (c.toNat - 'A'.toNat + 10)
  else none

/-- The escape of a byte. -/
def escape (b : UInt8) : Text := ['%', hexDigit (b.toNat / 16), hexDigit (b.toNat % 16)]

/-- A character as it stands in an encoded path. -/
def encodeChar (c : Char) : Text := if isPlain c then [c] else (String.utf8EncodeChar c).flatMap escape

/-- A path with everything escaped that is neither unreserved nor a separator. -/
def encodePath (s : Text) : Text := s.flatMap encodeChar

/-- The bytes that a text stands for: each well-formed escape is one byte. -/
def bytes : Text → List UInt8
  | [] => []
  | '%' :: a :: b :: s =>
      match hexValue? a, hexValue? b with
      | some x, some y => UInt8.ofNat (16 * x + y) :: bytes s
      | _, _ => String.utf8EncodeChar '%' ++ bytes (a :: b :: s)
  | c :: s => String.utf8EncodeChar c ++ bytes s

/-- The text that the bytes of `s` encode, or `s` itself where they encode none. -/
def decode (s : Text) : Text := (Utf8.decode? (bytes s).toByteArray).getD s

end MarkdownLinks.Percent
