import MarkdownLinks.Text.Scan

/-! Replacing every occurrence of a word. Occurrences are found from left to right and do not overlap;
what is put in their place is not searched again. The empty word occurs before each character and at
the end. -/

namespace MarkdownLinks

/-- Reads one fixed word that is not empty. -/
def wordReader (word : Text) (nonempty : word ≠ []) : Reader Unit where
  read s := (dropPrefix? word s).map fun rest => ((), rest)
  shorter {s a rest} h := by
    obtain ⟨t, ht, he⟩ := Option.map_eq_some_iff.1 h
    cases he
    rw [dropPrefix?_eq_some_iff.1 ht]
    have := List.length_pos_iff.2 nonempty
    simp
    omega

/-- Every occurrence of `old` replaced by `new`. -/
def replaceAll (old new s : Text) : Text :=
  if h : old = [] then new ++ s.flatMap fun c => c :: new
  else (wordReader old h).replace (fun _ => new) s

end MarkdownLinks
