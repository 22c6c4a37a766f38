import MarkdownLinks.Link.Basic

/-! Links whose target is one token, free of blanks, with an optional title in double quotes. An
exclamation mark directly before the bracket makes an image of it, which is no link; another link may
still begin inside the brackets of an image. -/

namespace MarkdownLinks.Link

/-- Characters of a target that is one token. -/
def isTokenChar (c : Char) : Bool := c != ')' && !isBlank c

/-- The longest token, if the link ends behind it. -/
def tokenTarget? (s : Text) : Option (Text × Text) :=
  if s.takeWhile isTokenChar = [] then none
  else (close? quotedTitleEnd? (s.dropWhile isTokenChar)).map fun rest => (s.takeWhile isTokenChar, rest)

theorem length_tokenTarget?_lt {s target rest : Text} (h : tokenTarget? s = some (target, rest)) :
    rest.length < s.length := by
  unfold tokenTarget? at h
  split at h
  · cases h
  · obtain ⟨rest', hc, h⟩ := Option.map_eq_some_iff.1 h
    cases h
    exact Nat.lt_of_lt_of_le (length_close?_lt hc) (List.dropWhile_sublist isTokenChar).length_le

/-- Reads a link with a single token as its target. -/
def token : Reader Link := reader tokenTarget? length_tokenTarget?_lt

/-- Reads a link, or the two characters that begin an image. -/
def tokenOrImage : Reader (Option Link) where
  read
    | '!' :: '[' :: rest => some (none, rest)
    | s => (token.read s).map fun (link, rest) => (some link, rest)
  shorter {s a rest} h := by
    split at h
    · cases h
      simp only [List.length_cons]
      omega
    · obtain ⟨⟨link, rest'⟩, ht, h⟩ := Option.map_eq_some_iff.1 h
      cases h
      exact token.shorter ht

/-- The links of a text whose targets are single tokens, images left out, with their texts trimmed. -/
def tokenLinks (s : Text) : List Link :=
  (tokenOrImage.items s).filterMap fun link? => link?.map fun link => ⟨trim link.text, link.target⟩

end MarkdownLinks.Link
