import MarkdownLinks.Proofs.Check.RawText

/-! Lines that are put together from plain text, code spans, links and images. What the check on link texts
looks for is there in such a line as it is put together: the code spans are those that are deleted, the
links are those that are found, in order, and an image gives nothing. A code span may hold anything but
backticks, and a link or an image may stand directly behind another part. -/

namespace MarkdownLinks.Check

open Link

/-- A link with a single token as its target, as it is written. -/
structure TokenLink where
  text : Text
  target : Text
  title : Option (Title quotedTitleEnd?)
  text_ne_nil : text ≠ []
  target_ne_nil : target ≠ []
  text_free : ∀ c ∈ text, c ≠ '[' ∧ c ≠ ']' ∧ c ≠ '\x60'
  target_free : ∀ c ∈ target, isBlank c = false ∧ c ≠ ')' ∧ c ≠ '[' ∧ c ≠ '\x60'
  title_free : ∀ c ∈ titleText title, c ≠ '[' ∧ c ≠ '\x60'

namespace TokenLink

variable (l : TokenLink)

/-- What is written behind the opening bracket. -/
def body : Text := l.text ++ ']' :: '(' :: (l.target ++ (titleText l.title ++ [')']))

/-- The link as it is written. -/
def written : Text := '[' :: l.body

theorem free_of_mem_body {c : Char} (h : c ∈ l.body) : c ≠ '[' ∧ c ≠ '\x60' := by
  simp only [body, List.mem_append, List.mem_cons, List.not_mem_nil, or_false] at h
  rcases h with h | rfl | rfl | h | h | rfl
  · exact ⟨(l.text_free c h).1, (l.text_free c h).2.2⟩
  · decide
  · decide
  · exact (l.target_free c h).2.2
  · exact l.title_free c h
  · decide

theorem tick_not_mem_written : '\x60' ∉ l.written :=
  List.not_mem_cons_of_ne_of_not_mem (by decide) fun h => (l.free_of_mem_body h).2 rfl

theorem getLast?_body : l.body.getLast? = some ')' := by
  have hbody : l.body = (l.text ++ ']' :: '(' :: (l.target ++ titleText l.title)) ++ [')'] := by simp [body]
  rw [hbody, List.getLast?_concat]

theorem token_read_written_append (s : Text) :
    token.read (l.written ++ s) = some (⟨l.text, l.target⟩, s) := by
  have hwritten : l.written ++ s =
      '[' :: (l.text ++ ']' :: '(' :: (l.target ++ (titleText l.title ++ ')' :: s))) := by
    simp [written, body]
  rw [hwritten]
  refine token_read_append l.title l.text_ne_nil (fun h => (l.text_free _ h).2.1 rfl) l.target_ne_nil (fun c hc => ?_) s
  simp [isTokenChar, (l.target_free c hc).1, (l.target_free c hc).2.1]

end TokenLink

/-- A part of a line. -/
inductive TokenPart where
  | plain (s : Text) (free : ∀ c ∈ s, c ≠ '[' ∧ c ≠ '!' ∧ c ≠ '\x60')
  | code (s : Text) (free : ∀ c ∈ s, c ≠ '\x60' ∧ c ≠ '\n')
  | link (l : TokenLink)
  | image (l : TokenLink)

namespace TokenPart

/-- The part as it is written. -/
def text : TokenPart → Text
  | plain s _ => s
  | code s _ => '\x60' :: (s ++ ['\x60'])
  | link l => l.written
  | image l => '!' :: l.written

/-- The part without code. -/
def withoutCode : TokenPart → Text
  | code _ _ => []
  | p => p.text

/-- What a scan that skips images takes from a part. -/
def items : TokenPart → List (Option Link)
  | link l => [some ⟨l.text, l.target⟩]
  | image _ => [none]
  | _ => []

/-- The link of a part, with its text trimmed, if the part is a link. -/
def link? : TokenPart → Option Link
  | link l => some ⟨trim l.text, l.target⟩
  | _ => none

theorem withoutCodeSpans_text_append (p : TokenPart) (s : Text) :
    withoutCodeSpans (p.text ++ s) = p.withoutCode ++ withoutCodeSpans s := by
  cases p with
  | plain w free => exact withoutCodeSpans_append (fun h => (free _ h).2.2 rfl) s
  | code w free =>
      have hread : codeSpan.read ((code w free).text ++ s) = some ((), s) :=
        codeSpan_read_eq_some_iff.2 ⟨w, by simp [text], free⟩
      exact Reader.without_of_read hread
  | link l => exact withoutCodeSpans_append l.tick_not_mem_written s
  | image l =>
      exact withoutCodeSpans_append (List.not_mem_cons_of_ne_of_not_mem (by decide) l.tick_not_mem_written) s

theorem items_withoutCode_append (p : TokenPart) (s : Text) :
    tokenOrImage.items (p.withoutCode ++ s) = p.items ++ tokenOrImage.items s := by
  cases p with
  | plain w free =>
      refine items_tokenOrImage_append (fun h => (free _ h).1 rfl) (fun h => ?_) s
      exact (free _ (List.mem_of_getLast? h)).2.1 rfl
  | code w free => rfl
  | link l =>
      have hread : tokenOrImage.read (l.written ++ s) = some (some ⟨l.text, l.target⟩, s) :=
        Option.map_eq_some_iff.2 ⟨_, l.token_read_written_append s, rfl⟩
      exact tokenOrImage.items_of_read hread
  | image l =>
      have hread : tokenOrImage.read ('!' :: '[' :: (l.body ++ s)) = some (none, l.body ++ s) := rfl
      have hbody : tokenOrImage.items (l.body ++ s) = tokenOrImage.items s := by
        refine items_tokenOrImage_append (fun h => (l.free_of_mem_body h).1 rfl) ?_ s
        rw [l.getLast?_body]
        decide
      rw [← hbody]
      exact tokenOrImage.items_of_read hread

theorem withoutCodeSpans_flatMap (parts : List TokenPart) :
    withoutCodeSpans (parts.flatMap text) = parts.flatMap withoutCode := by
  induction parts with
  | nil => exact Reader.without_nil
  | cons p ps ih => rw [List.flatMap_cons, withoutCodeSpans_text_append, ih, List.flatMap_cons]

theorem items_flatMap (parts : List TokenPart) :
    tokenOrImage.items (parts.flatMap withoutCode) = parts.flatMap items := by
  induction parts with
  | nil => exact tokenOrImage.items_nil
  | cons p ps ih => rw [List.flatMap_cons, items_withoutCode_append, ih, List.flatMap_cons]

/-- The links that the check looks at are the links among the parts. -/
theorem tokenLinks_flatMap (parts : List TokenPart) :
    tokenLinks (parts.flatMap withoutCode) = parts.filterMap link? := by
  rw [tokenLinks, items_flatMap]
  induction parts with
  | nil => rfl
  | cons p ps ih =>
      rw [List.flatMap_cons, List.filterMap_append, ih]
      cases p <;> rfl

/-- The check reports the links among the parts of a line that lead to a document and read as a file
name, from left to right, and nothing else. -/
theorem rawLinks_flatMap (parts : List TokenPart) :
    rawLinks false (parts.flatMap text) =
      (parts.filterMap link?).filter fun link =>
        Target.isLocalDocument link.target && readsAsFileName link.text link.target := by
  rw [rawLinks, if_neg (by decide), withoutCodeSpans_flatMap, tokenLinks_flatMap]

-- a link in a code span, a link with a title directly behind it, and an image
example :
    rawLinks false "\x60[A.md](A.md)\x60[ B.md](B.md \"](\")![C.md](C.md)".toList =
      [⟨"B.md".toList, "B.md".toList⟩] := by
  decide +kernel

end TokenPart

end MarkdownLinks.Check
