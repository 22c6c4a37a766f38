import MarkdownLinks.Link.Basic

/-! Links whose target is everything between the parentheses: blanks, line breaks and a title
included. Such a link is written back from its two parts as it was read. -/

namespace MarkdownLinks.Link

/-- Everything up to the first closing parenthesis. -/
def enclosedTarget? (s : Text) : Option (Text × Text) :=
  match splitFirst? ')' s with
  | some (target, rest) => if target = [] then none else some (target, rest)
  | none => none

theorem enclosedTarget?_eq_some_iff {s target rest : Text} :
    enclosedTarget? s = some (target, rest) ↔
      s = target ++ ')' :: rest ∧ target ≠ [] ∧ ')' ∉ target := by
  constructor
  · intro h
    unfold enclosedTarget? at h
    split at h
    · rename_i hs
      obtain ⟨rfl, hm⟩ := splitFirst?_eq_some_iff.1 hs
      split at h
      · cases h
      · cases h
        exact ⟨rfl, by assumption, hm⟩
    · cases h
  · rintro ⟨rfl, hne, hm⟩
    simp [enclosedTarget?, splitFirst?_append _ hm, hne]

/-- Reads a link with everything between the parentheses as its target. -/
def enclosed : Reader Link :=
  reader enclosedTarget? fun {s target rest} h => by
    rw [(enclosedTarget?_eq_some_iff.1 h).1]
    simp
    omega

/-- A link written out. -/
def write (link : Link) : Text := '[' :: (link.text ++ ']' :: '(' :: (link.target ++ [')']))

end MarkdownLinks.Link
