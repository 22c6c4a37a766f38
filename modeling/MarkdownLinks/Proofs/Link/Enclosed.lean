import MarkdownLinks.Link.Enclosed
import MarkdownLinks.Proofs.Text.Scan

/-! Reading links whose target is everything between the parentheses. A text begins with such a link
exactly if it is the link written out and something behind it; so text without opening brackets has no
links, and a scan passes over it. Replacing links by others with the same texts makes no link and loses
none: where no link begins none begins afterwards, so the pieces of the text are the same but for the
links. -/

namespace MarkdownLinks.Link

theorem enclosed_read_eq_some_iff {s rest : Text} {link : Link} :
    enclosed.read s = some (link, rest) ↔
      s = link.write ++ rest ∧ (link.text ≠ [] ∧ ']' ∉ link.text) ∧ link.target ≠ [] ∧ ')' ∉ link.target := by
  obtain ⟨text, target⟩ := link
  have hwrite : ∀ rest, Link.write ⟨text, target⟩ ++ rest =
      '[' :: (text ++ ']' :: '(' :: (target ++ ')' :: rest)) := by
    intro rest
    simp [write]
  rw [hwrite]
  constructor
  · intro h
    obtain ⟨⟨text', s'⟩, hl, h⟩ := Option.bind_eq_some_iff.1 h
    obtain ⟨⟨target', rest'⟩, ht, h⟩ := Option.map_eq_some_iff.1 h
    cases h
    obtain ⟨hs, hne, htext⟩ := readLabel?_eq_some_iff.1 hl
    obtain ⟨hs', hne', htarget⟩ := enclosedTarget?_eq_some_iff.1 ht
    exact ⟨by rw [hs, hs'], ⟨hne, htext⟩, hne', htarget⟩
  · rintro ⟨rfl, ⟨hne, htext⟩, hne', htarget⟩
    refine Option.bind_eq_some_iff.2 ⟨(text, target ++ ')' :: rest), readLabel?_eq_some_iff.2 ⟨rfl, hne, htext⟩, ?_⟩
    exact Option.map_eq_some_iff.2 ⟨(target, rest), enclosedTarget?_eq_some_iff.2 ⟨rfl, hne', htarget⟩, rfl⟩

theorem enclosed_read_eq_none_of_ne {c : Char} (hc : c ≠ '[') (s : Text) : enclosed.read (c :: s) = none := by
  refine Option.eq_none_iff_forall_ne_some.2 fun ⟨link, rest⟩ h => hc ?_
  have hs := (enclosed_read_eq_some_iff.1 h).1
  rw [write, List.cons_append, List.cons.injEq] at hs
  exact hs.1

section
variable {w : Text} (hw : '[' ∉ w)
include hw

/-- Text without opening brackets has no links and stays as it is. -/
theorem replace_enclosed_append (f : Link → Text) (s : Text) :
    enclosed.replace f (w ++ s) = w ++ enclosed.replace f s := by
  induction w with
  | nil => rfl
  | cons c w ih =>
      rw [List.mem_cons, not_or] at hw
      rw [List.cons_append, Reader.replace_of_read_eq_none _ (enclosed_read_eq_none_of_ne (Ne.symm hw.1) _), ih hw.2,
        List.cons_append]

theorem items_enclosed_append (s : Text) : enclosed.items (w ++ s) = enclosed.items s := by
  induction w with
  | nil => rfl
  | cons c w ih =>
      rw [List.mem_cons, not_or] at hw
      rw [List.cons_append, Reader.items_of_read_eq_none _ (enclosed_read_eq_none_of_ne (Ne.symm hw.1) _), ih hw.2]

end

theorem enclosed_read_eq_none_of_not_mem {s : Text} (h : ']' ∉ s ∨ ')' ∉ s) : enclosed.read s = none := by
  refine Option.eq_none_iff_forall_ne_some.2 fun ⟨link, rest⟩ hread => ?_
  obtain ⟨rfl, -⟩ := enclosed_read_eq_some_iff.1 hread
  rcases h with h | h <;> exact h (by simp [write])

/-- A text without one of the closing characters has no links. -/
theorem replace_enclosed_of_not_mem (f : Link → Text) {s : Text} (h : ']' ∉ s ∨ ')' ∉ s) :
    enclosed.replace f s = s := by
  induction s with
  | nil => exact Reader.replace_nil _
  | cons c s ih =>
      rw [Reader.replace_of_read_eq_none _ (enclosed_read_eq_none_of_not_mem h),
        ih (h.imp (mt (List.mem_cons_of_mem c)) (mt (List.mem_cons_of_mem c)))]

/-- Whether a text goes on as a link does behind its closing bracket. -/
def HasTarget (s : Text) : Prop :=
  ∃ target rest, s = '(' :: (target ++ ')' :: rest) ∧ target ≠ [] ∧ ')' ∉ target

theorem enclosed_read_eq_none_iff {a b : Text} (ha : ']' ∉ a) :
    enclosed.read ('[' :: (a ++ ']' :: b)) = none ↔ a = [] ∨ ¬HasTarget b := by
  rw [Option.eq_none_iff_forall_ne_some]
  constructor
  · intro h
    refine Decidable.or_iff_not_imp_left.2 fun hne ⟨target, rest, hb, hne', htarget⟩ => ?_
    refine h (⟨a, target⟩, rest) (enclosed_read_eq_some_iff.2 ⟨?_, ⟨hne, ha⟩, hne', htarget⟩)
    simp [write, hb]
  · rintro h ⟨⟨text, target⟩, rest⟩ hread
    obtain ⟨hs, ⟨hne, htext⟩, hne', htarget⟩ := enclosed_read_eq_some_iff.1 hread
    have hs' : a ++ ']' :: b = text ++ ']' :: ('(' :: (target ++ ')' :: rest)) := by
      simpa [write] using hs
    obtain ⟨rfl, rfl⟩ := append_delimiter_inj ha htext hs'
    rcases h with h | h
    · exact hne h
    · exact h ⟨target, rest, rfl, hne', htarget⟩

/-- No link begins in front of a closing bracket behind which no target stands. -/
theorem replace_enclosed_bracket (f : Link → Text) {a b : Text} (ha : ']' ∉ a) (h : a = [] ∨ ¬HasTarget b) :
    enclosed.replace f (a ++ ']' :: b) = a ++ ']' :: enclosed.replace f b := by
  induction a with
  | nil => exact Reader.replace_of_read_eq_none _ (enclosed_read_eq_none_of_ne (by decide) b)
  | cons c a ih =>
      rw [List.mem_cons, not_or] at ha
      have hb : ¬HasTarget b := h.resolve_left (List.cons_ne_nil c a)
      have hread : enclosed.read (c :: (a ++ ']' :: b)) = none := by
        by_cases hc : c = '['
        · rw [hc]
          exact (enclosed_read_eq_none_iff ha.2).2 (Or.inr hb)
        · exact enclosed_read_eq_none_of_ne hc _
      rw [List.cons_append, Reader.replace_of_read_eq_none _ hread, ih ha.2 (Or.inr hb), List.cons_append]

section
variable {g : Link → Link}

theorem head?_replace_enclosed (s : Text) :
    (enclosed.replace (fun link => (g link).write) s).head? = s.head? := by
  cases s with
  | nil => exact congrArg List.head? (Reader.replace_nil _)
  | cons c s =>
      rcases hread : enclosed.read (c :: s) with _ | ⟨link, rest⟩
      · rw [Reader.replace_of_read_eq_none _ hread]
        rfl
      · rw [Reader.replace_of_read _ hread, (enclosed_read_eq_some_iff.1 hread).1]
        rfl

/-- Where no target stands, none stands when the links behind it are replaced. -/
theorem not_hasTarget_replace {s : Text} (h : ¬HasTarget s) :
    ¬HasTarget (enclosed.replace (fun link => (g link).write) s) := by
  rintro ⟨target, rest, heq, hne, htarget⟩
  have hhead := head?_replace_enclosed (g := g) s
  rw [heq, List.head?_cons] at hhead
  obtain ⟨s, rfl⟩ := List.head?_eq_some_iff.1 hhead.symm
  rw [Reader.replace_of_read_eq_none _ (enclosed_read_eq_none_of_ne (by decide) s), List.cons.injEq] at heq
  cases hcut : splitFirst? ')' s with
  | none =>
      have hnot := splitFirst?_eq_none_iff.1 hcut
      rw [replace_enclosed_of_not_mem _ (Or.inr hnot)] at heq
      apply hnot
      rw [heq.2]
      exact List.mem_append_right _ List.mem_cons_self
  | some p =>
      obtain ⟨target', rest'⟩ := p
      obtain ⟨rfl, htarget'⟩ := splitFirst?_eq_some_iff.1 hcut
      cases target' with
      | nil =>
          rw [List.nil_append, Reader.replace_of_read_eq_none _ (enclosed_read_eq_none_of_ne (by decide) rest')] at heq
          cases target with
          | nil => exact hne rfl
          | cons d target =>
              obtain ⟨rfl, -⟩ := List.cons.inj heq.2
              exact htarget List.mem_cons_self
      | cons d target' => exact h ⟨d :: target', rest', rfl, List.cons_ne_nil d target', htarget'⟩

/-- Where no link begins, none begins when the links behind it are replaced. -/
theorem enclosed_read_replace_eq_none {c : Char} {s : Text} (h : enclosed.read (c :: s) = none) :
    enclosed.read (c :: enclosed.replace (fun link => (g link).write) s) = none := by
  by_cases hc : c = '['
  · subst hc
    cases hcut : splitFirst? ']' s with
    | none =>
        have hnot := splitFirst?_eq_none_iff.1 hcut
        rw [replace_enclosed_of_not_mem _ (Or.inl hnot)]
        exact h
    | some p =>
        obtain ⟨a, b⟩ := p
        obtain ⟨rfl, ha⟩ := splitFirst?_eq_some_iff.1 hcut
        have hlabel := (enclosed_read_eq_none_iff ha).1 h
        rw [replace_enclosed_bracket _ ha hlabel]
        exact (enclosed_read_eq_none_iff ha).2 (hlabel.imp_right not_hasTarget_replace)
  · exact enclosed_read_eq_none_of_ne hc _

section
variable (htext : ∀ link, (g link).text = link.text)
  (htarget : ∀ link, link.target ≠ [] → ')' ∉ link.target → (g link).target ≠ [] ∧ ')' ∉ (g link).target)
include htext htarget

/-- The pieces of a text whose links are replaced are those of the text, with other links among them. -/
theorem pieces_replace_enclosed (s : Text) :
    enclosed.pieces (enclosed.replace (fun link => (g link).write) s) = (enclosed.pieces s).map (Piece.map g) := by
  induction s using Reader.induction enclosed with
  | nil =>
      rw [Reader.replace_nil, Reader.pieces_nil]
      rfl
  | char c s hread ih =>
      rw [Reader.replace_of_read_eq_none _ hread,
        Reader.pieces_of_read_eq_none (enclosed_read_replace_eq_none hread), Reader.pieces_of_read_eq_none hread,
        ih]
      rfl
  | item s link rest hread ih =>
      obtain ⟨-, hlabel, hne, hclosed⟩ := enclosed_read_eq_some_iff.1 hread
      have hagain : enclosed.read ((g link).write ++ enclosed.replace (fun link => (g link).write) rest) =
          some (g link, enclosed.replace (fun link => (g link).write) rest) :=
        enclosed_read_eq_some_iff.2 ⟨rfl, by rw [htext]; exact hlabel, htarget link hne hclosed⟩
      rw [Reader.replace_of_read _ hread, Reader.pieces_of_read hagain, Reader.pieces_of_read hread, ih]
      rfl

/-- Replacing links by links whose replacement they are is done once and for all. -/
theorem replace_replace_enclosed (hg : ∀ link, g (g link) = g link) (s : Text) :
    enclosed.replace (fun link => (g link).write) (enclosed.replace (fun link => (g link).write) s) =
      enclosed.replace (fun link => (g link).write) s := by
  rw [Reader.replace_eq, pieces_replace_enclosed htext htarget, List.flatMap_map, Reader.replace_eq]
  simp only [Piece.render_map, hg]

end

end

/-- A text is made up of its pieces, each link written out. -/
theorem flatMap_pieces_enclosed (s : Text) : (enclosed.pieces s).flatMap (Piece.render write) = s := by
  induction s using Reader.induction enclosed with
  | nil =>
      rw [Reader.pieces_nil]
      rfl
  | char c s hread ih =>
      rw [Reader.pieces_of_read_eq_none hread, List.flatMap_cons, ih]
      rfl
  | item s link rest hread ih =>
      rw [Reader.pieces_of_read hread, List.flatMap_cons, ih, (enclosed_read_eq_some_iff.1 hread).1]
      rfl

end MarkdownLinks.Link
