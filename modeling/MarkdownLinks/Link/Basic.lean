import MarkdownLinks.Text.Scan
import MarkdownLinks.Text.Blank

/-! Inline links, `[text](target "title")`, and the parts that the three forms of them share. The text
ends at the first closing bracket and is not empty. A title stands behind blanks, between delimiters,
and ends at the first closing one; a link ends with its closing parenthesis. -/

namespace MarkdownLinks

/-- An inline link as it is written: the text between the brackets, and the target. -/
structure Link where
  text : Text
  target : Text
  deriving DecidableEq

namespace Link

/-- The text of a link and what follows the opening parenthesis. -/
def readLabel? : Text → Option (Text × Text)
  | '[' :: s =>
      match splitFirst? ']' s with
      | some (text, '(' :: rest) => if text = [] then none else some (text, rest)
      | _ => none
  | _ => none

theorem readLabel?_eq_some_iff {s text rest : Text} :
    readLabel? s = some (text, rest) ↔
      s = '[' :: (text ++ ']' :: '(' :: rest) ∧ text ≠ [] ∧ ']' ∉ text := by
  constructor
  · intro h
    unfold readLabel? at h
    split at h
    · split at h
      · rename_i hs
        obtain ⟨rfl, hm⟩ := splitFirst?_eq_some_iff.1 hs
        split at h
        · cases h
        · cases h
          exact ⟨rfl, by assumption, hm⟩
      · cases h
    · cases h
  · rintro ⟨rfl, hne, hm⟩
    simp [readLabel?, splitFirst?_append _ hm, hne]

/-- The delimiters of a title: `"…"`, `'…'` or `(…)`, given by how the title opens. -/
def titleEnd? : Char → Option Char
  | '"' => some '"'
  | '\'' => some '\''
  | '(' => some ')'
  | _ => none

/-- The delimiters of a title in double quotes. -/
def quotedTitleEnd? : Char → Option Char
  | '"' => some '"'
  | _ => none

/-- What follows blanks and a title. -/
def skipTitle? (titleEnd : Char → Option Char) (s : Text) : Option Text :=
  match skipBlanks? s with
  | some (c :: inner) => (titleEnd c).bind fun e => (splitFirst? e inner).map Prod.snd
  | _ => none

/-- What follows the closing parenthesis of a link, past a title if one stands there. -/
def close? (titleEnd : Char → Option Char) (s : Text) : Option Text :=
  match s with
  | ')' :: rest => some rest
  | _ =>
      match skipTitle? titleEnd s with
      | some (')' :: rest) => some rest
      | _ => none

theorem length_skipTitle?_lt {titleEnd : Char → Option Char} {s rest : Text}
    (h : skipTitle? titleEnd s = some rest) : rest.length < s.length := by
  unfold skipTitle? at h
  split at h
  · rename_i c inner hs
    obtain ⟨e, _, h⟩ := Option.bind_eq_some_iff.1 h
    obtain ⟨⟨title, after⟩, hp, rfl⟩ := Option.map_eq_some_iff.1 h
    have h1 := length_skipBlanks?_lt hs
    have h2 := length_lt_of_splitFirst? hp
    simp only [List.length_cons] at h1 ⊢
    omega
  · cases h

theorem length_close?_lt {titleEnd : Char → Option Char} {s rest : Text}
    (h : close? titleEnd s = some rest) : rest.length < s.length := by
  unfold close? at h
  split at h
  · cases h
    exact Nat.lt_succ_self _
  · split at h
    · rename_i hs
      cases h
      exact Nat.lt_of_succ_lt (length_skipTitle?_lt hs)
    · cases h

/-- A link read as a text and then a target. -/
def read? (target? : Text → Option (Text × Text)) (s : Text) : Option (Link × Text) :=
  (readLabel? s).bind fun (text, s) =>
    (target? s).map fun (target, rest) => (⟨text, target⟩, rest)

theorem length_read?_lt {target? : Text → Option (Text × Text)}
    (shorter : ∀ {s target rest}, target? s = some (target, rest) → rest.length < s.length) {s rest : Text}
    {link : Link} (h : read? target? s = some (link, rest)) : rest.length < s.length := by
  obtain ⟨⟨text, s'⟩, hl, h⟩ := Option.bind_eq_some_iff.1 h
  obtain ⟨⟨target, rest'⟩, ht, h⟩ := Option.map_eq_some_iff.1 h
  cases h
  have h1 := shorter ht
  rw [(readLabel?_eq_some_iff.1 hl).1]
  simp only [List.length_cons, List.length_append]
  omega

/-- A link that is read as a text and then a target makes a reader if the second part only leaves
text out. -/
def reader (target? : Text → Option (Text × Text))
    (shorter : ∀ {s target rest}, target? s = some (target, rest) → rest.length < s.length) :
    Reader Link where
  read := read? target?
  shorter := length_read?_lt shorter

end Link

end MarkdownLinks
