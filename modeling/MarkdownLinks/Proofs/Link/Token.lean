import MarkdownLinks.Link.Enclosed
import MarkdownLinks.Link.Token
import MarkdownLinks.Proofs.Code.Runs
import MarkdownLinks.Proofs.Link.Title
import MarkdownLinks.Proofs.Text.Scan
import Mathlib.Data.List.Basic

/-! Where the links with a single token as their target stand in a text. A link that is read begins with
its opening bracket, and its target stands right behind the opening parenthesis. A scan that skips images
never takes a bracket with an exclamation mark directly before it: that mark would either have passed as
a character, which it does not do in front of a bracket, or end an item, and items end with a parenthesis
or a bracket. -/

namespace MarkdownLinks.Link

/-- Whether a text is what a link is written as up to the end of its target: the opening bracket, a label
that is the text of the link when trimmed, and the target right behind the opening parenthesis. -/
def OpensAs (link : Link) (s : Text) : Prop :=
  ∃ label, s = '[' :: (label ++ ']' :: '(' :: link.target) ∧ trim label = link.text

theorem suffix_of_skipBlanks? {s rest : Text} (h : skipBlanks? s = some rest) : rest <:+ s := by
  unfold skipBlanks? at h
  split at h
  · rename_i c s
    split at h
    · cases h
      exact (List.dropWhile_suffix isBlank).trans (List.suffix_cons c s)
    · cases h
  · cases h

theorem suffix_of_skipTitle? {titleEnd : Char → Option Char} {s rest : Text}
    (h : skipTitle? titleEnd s = some rest) : rest <:+ s := by
  unfold skipTitle? at h
  split at h
  · rename_i c inner hs
    obtain ⟨e, -, h⟩ := Option.bind_eq_some_iff.1 h
    obtain ⟨⟨title, after⟩, hcut, rfl⟩ := Option.map_eq_some_iff.1 h
    obtain ⟨rfl, -⟩ := splitFirst?_eq_some_iff.1 hcut
    refine List.IsSuffix.trans ?_ (suffix_of_skipBlanks? hs)
    exact ⟨c :: (title ++ [e]), by simp⟩
  · cases h

theorem suffix_of_close? {titleEnd : Char → Option Char} {s rest : Text}
    (h : close? titleEnd s = some rest) : ')' :: rest <:+ s := by
  unfold close? at h
  split at h
  · cases h
    exact List.suffix_refl _
  · split at h
    · rename_i hs
      cases h
      exact suffix_of_skipTitle? hs
    · cases h

theorem eq_of_token_read {s rest : Text} {link : Link} (h : token.read s = some (link, rest)) :
    ∃ title, s = '[' :: (link.text ++ ']' :: '(' :: (link.target ++ (title ++ ')' :: rest))) ∧
      link.target ≠ [] := by
  obtain ⟨⟨text, s'⟩, hl, h⟩ := Option.bind_eq_some_iff.1 h
  obtain ⟨⟨target, rest'⟩, ht, h⟩ := Option.map_eq_some_iff.1 h
  cases h
  obtain ⟨rfl, -⟩ := readLabel?_eq_some_iff.1 hl
  unfold tokenTarget? at ht
  split at ht
  · cases ht
  · rename_i hne
    obtain ⟨rest', hc, ht⟩ := Option.map_eq_some_iff.1 ht
    cases ht
    obtain ⟨title, htitle⟩ := suffix_of_close? hc
    exact ⟨title, by rw [htitle, List.takeWhile_append_dropWhile], hne⟩

/-- What is read is a link, or the beginning of an image. -/
theorem tokenOrImage_read_cases {s rest : Text} {link? : Option Link}
    (h : tokenOrImage.read s = some (link?, rest)) :
    (link? = none ∧ s = '!' :: '[' :: rest) ∨ ∃ link, link? = some link ∧ token.read s = some (link, rest) := by
  simp only [tokenOrImage] at h
  split at h
  · cases h
    exact Or.inl ⟨rfl, rfl⟩
  · obtain ⟨⟨link, rest'⟩, hread, h⟩ := Option.map_eq_some_iff.1 h
    cases h
    exact Or.inr ⟨link, rfl, hread⟩

theorem exists_last_of_tokenOrImage_read {s rest : Text} {link? : Option Link}
    (h : tokenOrImage.read s = some (link?, rest)) : ∃ w e, s = w ++ e :: rest ∧ e ≠ '!' := by
  rcases tokenOrImage_read_cases h with ⟨-, rfl⟩ | ⟨link, -, hread⟩
  · exact ⟨['!'], '[', rfl, by decide⟩
  · obtain ⟨title, rfl, -⟩ := eq_of_token_read hread
    exact ⟨'[' :: (link.text ++ ']' :: '(' :: (link.target ++ title)), ')', by simp, by decide⟩

private theorem getLast?_cons_ne {c e : Char} {s : Text} (hc : s = [] → c ≠ e) (hs : s.getLast? ≠ some e) :
    (c :: s).getLast? ≠ some e := by
  cases s with
  | nil => simpa using hc rfl
  | cons d s => rwa [List.getLast?_cons_cons]

/-- A scan that skips images passes over text without opening brackets, unless the exclamation mark at
its end makes an image of what follows. -/
theorem items_tokenOrImage_append {w : Text} (hw : '[' ∉ w) (hlast : w.getLast? ≠ some '!') (s : Text) :
    tokenOrImage.items (w ++ s) = tokenOrImage.items s := by
  refine Reader.items_append_of_passes fun c v hv => Option.eq_none_iff_forall_ne_some.2 fun ⟨link?, rest⟩ h => ?_
  have hmem : ∀ d ∈ c :: v, d ≠ '[' := fun d hd heq => hw (heq ▸ hv.subset hd)
  rcases tokenOrImage_read_cases h with ⟨-, hs⟩ | ⟨link, -, hread⟩
  · obtain ⟨rfl, hnext⟩ := List.cons.inj hs
    cases v with
    | nil =>
        obtain ⟨u, rfl⟩ := hv
        exact hlast (by simp)
    | cons d v => exact hmem d (by simp) (List.cons.inj hnext).1
  · obtain ⟨title, hs, -⟩ := eq_of_token_read hread
    exact hmem c List.mem_cons_self (List.cons.inj hs).1

/-- A link whose target is one token is read whatever follows it. -/
theorem token_read_append {text target : Text} (title : Option (Title quotedTitleEnd?)) (htext : text ≠ [])
    (hclosing : ']' ∉ text) (htarget : target ≠ []) (hfree : ∀ c ∈ target, isTokenChar c) (s : Text) :
    token.read ('[' :: (text ++ ']' :: '(' :: (target ++ (titleText title ++ ')' :: s)))) =
      some (⟨text, target⟩, s) := by
  have hnext : ∀ c ∈ (titleText title ++ ')' :: s).head?, isTokenChar c = false := by
    cases title with
    | none =>
        rintro c ⟨⟩
        rfl
    | some t =>
        obtain ⟨b, blanks, hblanks⟩ := List.exists_cons_of_ne_nil t.blanks_ne_nil
        intro c hc
        rw [titleText, t.text_append, hblanks, List.cons_append, List.head?_cons] at hc
        cases hc
        simp [isTokenChar, t.isBlank_of_mem b (hblanks ▸ List.mem_cons_self)]
  have htake : (target ++ (titleText title ++ ')' :: s)).takeWhile isTokenChar = target :=
    Code.takeWhile_run_append hfree hnext
  have hdrop : (target ++ (titleText title ++ ')' :: s)).dropWhile isTokenChar = titleText title ++ ')' :: s :=
    Code.dropWhile_run_append hfree hnext
  have hclose : close? quotedTitleEnd? (titleText title ++ ')' :: s) = some s :=
    (close?_eq_some_iff quotedTitleEnd?_eq_none_of_isBlank).2 ⟨title, rfl⟩
  have hread : tokenTarget? (target ++ (titleText title ++ ')' :: s)) = some (target, s) := by
    rw [tokenTarget?, htake, hdrop, if_neg htarget, hclose, Option.map_some]
  refine Option.bind_eq_some_iff.2 ⟨(text, _), readLabel?_eq_some_iff.2 ⟨rfl, htext, hclosing⟩, ?_⟩
  exact Option.map_eq_some_iff.2 ⟨(target, s), hread, rfl⟩

/-- Written on its own, it is the one link there is. -/
theorem tokenLinks_write {text target : Text} (title : Option (Title quotedTitleEnd?)) (htext : text ≠ [])
    (hclosing : ']' ∉ text) (htarget : target ≠ []) (hfree : ∀ c ∈ target, isTokenChar c) :
    tokenLinks (write ⟨text, target ++ titleText title⟩) = [⟨trim text, target⟩] := by
  have hread : tokenOrImage.read (write ⟨text, target ++ titleText title⟩) = some (some ⟨text, target⟩, []) := by
    rw [write, List.append_assoc]
    exact Option.map_eq_some_iff.2 ⟨_, token_read_append title htext hclosing htarget hfree [], rfl⟩
  rw [tokenLinks, tokenOrImage.items_of_read hread, tokenOrImage.items_nil]
  rfl

/-- A link that the scan finds stands in the text, and it is not written as an image. -/
theorem exists_of_mem_items_tokenOrImage {s : Text} {link : Link} (h : some link ∈ tokenOrImage.items s) :
    ∃ before after, s = before ++ '[' :: (link.text ++ ']' :: '(' :: (link.target ++ after)) ∧
      before.getLast? ≠ some '!' ∧ link.target ≠ [] := by
  induction s using tokenOrImage.induction with
  | nil => simp at h
  | char c s hread ih =>
      rw [tokenOrImage.items_of_read_eq_none hread] at h
      obtain ⟨before, after, rfl, hbefore, hne⟩ := ih h
      refine ⟨c :: before, after, rfl, getLast?_cons_ne ?_ hbefore, hne⟩
      rintro rfl rfl
      cases hread
  | item s link? rest hread ih =>
      rw [tokenOrImage.items_of_read hread, List.mem_cons] at h
      rcases h with rfl | h
      · rcases tokenOrImage_read_cases hread with ⟨h, -⟩ | ⟨_, h, hread⟩
        · cases h
        · cases h
          obtain ⟨title, hs, hne⟩ := eq_of_token_read hread
          exact ⟨[], title ++ ')' :: rest, hs, by simp, hne⟩
      · obtain ⟨before, after, rfl, hbefore, hne⟩ := ih h
        obtain ⟨w, e, rfl, he⟩ := exists_last_of_tokenOrImage_read hread
        refine ⟨w ++ e :: before, after, by simp, ?_, hne⟩
        rw [List.getLast?_append_cons]
        exact getLast?_cons_ne (fun _ => he) hbefore

/-- Each link of a text is written in it, contiguously and not as an image. -/
theorem exists_of_mem_tokenLinks {s : Text} {link : Link} (h : link ∈ tokenLinks s) :
    ∃ before written after, s = before ++ (written ++ after) ∧ before.getLast? ≠ some '!' ∧
      link.OpensAs written ∧ link.target ≠ [] := by
  obtain ⟨link?, hmem, hlink⟩ := List.mem_filterMap.1 h
  obtain ⟨found, rfl, rfl⟩ := Option.map_eq_some_iff.1 hlink
  obtain ⟨before, after, rfl, hbefore, hne⟩ := exists_of_mem_items_tokenOrImage hmem
  exact ⟨before, _, after, by simp, hbefore, ⟨found.text, rfl, rfl⟩, hne⟩

end MarkdownLinks.Link
