import MarkdownLinks.Link.Spaced
import MarkdownLinks.Proofs.Link.Title
import MarkdownLinks.Proofs.Text.Scan

/-! Reading links whose target may hold blanks. The target is the shortest front part behind which the link
ends, unless a destination in angle brackets stands there and the link ends behind that. Where the target
has no title in it, the shortest front part is all that stands before the title, less the blanks at its
end, which are the title's; and without a title it is all that stands before the closing parenthesis. -/

namespace MarkdownLinks.Link

variable {titleEnd : Char → Option Char}

/-- The link ends behind the shortest target. -/
theorem exists_of_shortest? {s target rest : Text} (h : shortest? titleEnd s = some (target, rest)) :
    ∃ s', s = target ++ s' ∧ target ≠ [] ∧ close? titleEnd s' = some rest := by
  induction s generalizing target with
  | nil => cases h
  | cons c s ih =>
      rw [shortest?] at h
      split at h
      · cases h
      · split at h
        · rename_i hclose
          cases h
          exact ⟨s, rfl, List.cons_ne_nil c [], hclose⟩
        · obtain ⟨⟨target', rest'⟩, hs, h⟩ := Option.map_eq_some_iff.1 h
          cases h
          obtain ⟨s', rfl, -, hclose⟩ := ih hs
          exact ⟨s', rfl, List.cons_ne_nil c target', hclose⟩

/-- A front part is the shortest target if the link ends behind it and does not end within it. -/
theorem shortest?_append {u s rest : Text} (hne : u ≠ []) (hparen : ')' ∉ u)
    (h : ∀ v, v <:+ u → v ≠ u → v ≠ [] → close? titleEnd (v ++ s) = none) (hs : close? titleEnd s = some rest) :
    shortest? titleEnd (u ++ s) = some (u, rest) := by
  induction u with
  | nil => exact absurd rfl hne
  | cons c u ih =>
      rw [List.mem_cons, not_or] at hparen
      rw [List.cons_append, shortest?, if_neg (Ne.symm hparen.1)]
      cases u with
      | nil => rw [List.nil_append, hs]
      | cons d u =>
          have hwithin : ∀ v, v <:+ d :: u → v ≠ [] → close? titleEnd (v ++ s) = none := fun v hv hnil => by
            refine h v (hv.trans (List.suffix_cons c _)) (fun heq => ?_) hnil
            have hlength := hv.length_le
            rw [heq, List.length_cons] at hlength
            omega
          have hnone : close? titleEnd (d :: u ++ s) = none :=
            hwithin (d :: u) (List.suffix_refl _) (List.cons_ne_nil d u)
          have hshortest := ih (List.cons_ne_nil d u) hparen.2 fun v hv _ hnil => hwithin v hv hnil
          rw [hnone, hshortest, Option.map_some]

section
variable (hdelim : ∀ {c}, isBlank c → titleEnd c = none)
include hdelim

/-- No link ends where something else than a title or a closing parenthesis begins. -/
theorem close?_append_eq_none {w : Text} (hw : ∀ c ∈ w, titleEnd c = none) (hblank : ∃ d ∈ w, isBlank d = false)
    (hhead : ')' ∉ w.head?) (s : Text) : close? titleEnd (w ++ s) = none := by
  obtain ⟨d, hd, hblank⟩ := hblank
  refine Option.eq_none_iff_forall_ne_some.2 fun rest h => ?_
  obtain ⟨_ | t, ht⟩ := (close?_eq_some_iff hdelim).1 h
  · cases w with
    | nil => cases hd
    | cons c w =>
        refine hhead ?_
        rw [List.head?_cons, (List.cons.inj ht).1]
        rfl
  · have hnot : d ∉ t.blanks := fun hmem => by
      rw [t.isBlank_of_mem d hmem] at hblank
      cases hblank
    rw [titleText, t.text_append] at ht
    rcases List.append_eq_append_iff.1 ht with ⟨z, hz, -⟩ | ⟨z, hz, hs⟩
    · exact hnot (hz ▸ List.mem_append_left z hd)
    · cases z with
      | nil =>
          rw [List.append_nil] at hz
          exact hnot (hz ▸ hd)
      | cons e z =>
          have hopening := hw t.opening (by rw [hz, (List.cons.inj hs).1]; simp)
          rw [t.delimiters] at hopening
          cases hopening

/-- The shortest target is all that stands before the end of the link, less blanks in front of a title,
when nothing in it can begin a title. -/
theorem exists_shortest?_eq {u : Text} (hne : u ≠ []) (hu : ∀ c ∈ u, c ≠ ')' ∧ titleEnd c = none)
    (hparen : titleEnd ')' = none) (title : Option (Title titleEnd)) (rest : Text) :
    ∃ target blanks, u = target ++ blanks ∧ (∀ c ∈ blanks, isBlank c) ∧
      shortest? titleEnd (u ++ (titleText title ++ ')' :: rest)) = some (target, rest) := by
  cases title with
  | none =>
      refine ⟨u, [], (List.append_nil u).symm, List.forall_mem_nil _, shortest?_append hne ?_ ?_ rfl⟩
      · exact fun h => (hu _ h).1 rfl
      · intro v hv _ hnil
        change close? titleEnd (v ++ ')' :: rest) = none
        rw [List.append_cons]
        refine close?_append_eq_none hdelim (fun c hc => ?_) ⟨')', by simp, by decide⟩ (fun h => ?_) rest
        · rcases List.mem_append.1 hc with hc | hc
          · exact (hu c (hv.subset hc)).2
          · rw [List.mem_singleton.1 hc, hparen]
        · obtain ⟨c, v, rfl⟩ := List.exists_cons_of_ne_nil hnil
          cases h
          exact (hu _ (hv.subset List.mem_cons_self)).1 rfl
  | some t =>
      have hclose : ∀ blanks, (∀ c ∈ blanks, isBlank c) →
          close? titleEnd (blanks ++ (t.text ++ ')' :: rest)) = some rest := fun blanks hblanks =>
        (close?_eq_some_iff hdelim).2 ⟨some (t.indent blanks hblanks), by
          rw [titleText, t.text_indent, List.append_assoc]⟩
      obtain ⟨blanks, heq, hblanks⟩ := exists_trimEnd u
      by_cases hnil : trimEnd u = []
      · -- a blank is the target when there is nothing else
        rw [hnil, List.nil_append] at heq
        obtain ⟨c, b, rfl⟩ := List.exists_cons_of_ne_nil hne
        have hb : ∀ d ∈ b, isBlank d := fun d hd => hblanks d (heq ▸ List.mem_cons_of_mem c hd)
        refine ⟨[c], b, rfl, hb, shortest?_append (List.cons_ne_nil c []) ?_ ?_ (hclose b hb)⟩
        · exact fun h => (hu _ (List.mem_cons.2 (Or.inl (List.mem_singleton.1 h)))).1 rfl
        · intro v hv hvne hvnil
          rcases List.suffix_cons_iff.1 hv with rfl | hv
          · exact absurd rfl hvne
          · exact absurd (List.suffix_nil.1 hv) hvnil
      · have hmem : ∀ c ∈ trimEnd u, c ∈ u := fun c hc => by
          rw [heq]
          exact List.mem_append_left blanks hc
        have hsplit : u ++ (titleText (some t) ++ ')' :: rest) = trimEnd u ++ (blanks ++ (t.text ++ ')' :: rest)) := by
          rw [titleText, ← List.append_assoc (trimEnd u), ← heq]
        refine ⟨trimEnd u, blanks, heq, hblanks, hsplit ▸ shortest?_append hnil ?_ ?_ (hclose blanks hblanks)⟩
        · exact fun h => (hu _ (hmem _ h)).1 rfl
        · intro v hv _ hvnil
          have hlast : v.getLast hvnil ∈ (trimEnd u).getLast? := by
            obtain ⟨x, hx⟩ := hv
            rw [← hx, List.getLast?_append_of_ne_nil x hvnil, List.getLast?_eq_some_getLast hvnil]
            rfl
          refine close?_append_eq_none hdelim (fun c hc => (hu c (hmem c (hv.subset hc))).2)
            ⟨v.getLast hvnil, List.getLast_mem hvnil, getLast?_trimEnd hlast⟩ (fun h => ?_) _
          exact (hu _ (hmem _ (hv.subset (List.mem_of_mem_head? h)))).1 rfl

end

theorem angled?_append {v : Text} (hv : '>' ∉ v) (s : Text) :
    angled? ('<' :: (v ++ '>' :: s)) = some ('<' :: (v ++ ['>']), s) := by
  rw [angled?, splitFirst?_append s hv, Option.map_some]

theorem exists_of_angled? {s target rest : Text} (h : angled? s = some (target, rest)) :
    ∃ inner, target = '<' :: (inner ++ ['>']) ∧ s = target ++ rest ∧ '>' ∉ inner := by
  unfold angled? at h
  split at h
  · obtain ⟨⟨inner, after⟩, hcut, h⟩ := Option.map_eq_some_iff.1 h
    cases h
    obtain ⟨rfl, hinner⟩ := splitFirst?_eq_some_iff.1 hcut
    exact ⟨inner, rfl, by simp, hinner⟩
  · cases h

theorem angled?_eq_none {s : Text} (h : '<' ∉ s.head?) : angled? s = none := by
  unfold angled?
  split
  · exact absurd rfl h
  · rfl

/-- A destination in angle brackets is the target if the link ends behind it. -/
theorem spacedTarget?_angled {v s rest : Text} (hv : '>' ∉ v) (h : close? titleEnd? s = some rest) :
    spacedTarget? ('<' :: (v ++ '>' :: s)) = some ('<' :: (v ++ ['>']), rest) := by
  rw [spacedTarget?_eq, angled?_append hv, Option.bind_some]
  simp only [h, Option.map_some, Option.some_or]

/-- Otherwise the target is the shortest one. -/
theorem spacedTarget?_eq_shortest? {s : Text}
    (h : ∀ target s', angled? s = some (target, s') → close? titleEnd? s' = none) :
    spacedTarget? s = shortest? titleEnd? s := by
  rw [spacedTarget?_eq]
  cases hs : angled? s with
  | none => rw [Option.bind_none, Option.none_or]
  | some p =>
      obtain ⟨target, s'⟩ := p
      simp only [Option.bind_some, h target s' hs, Option.map_none, Option.none_or]

/-- The link ends behind its target. -/
theorem exists_of_spacedTarget? {s target rest : Text} (h : spacedTarget? s = some (target, rest)) :
    ∃ s', s = target ++ s' ∧ target ≠ [] ∧ close? titleEnd? s' = some rest := by
  rw [spacedTarget?_eq] at h
  rcases Option.or_eq_some_iff.1 h with h | ⟨-, h⟩
  · obtain ⟨⟨written, s'⟩, hangled, h⟩ := Option.bind_eq_some_iff.1 h
    obtain ⟨rest', hclose, h⟩ := Option.map_eq_some_iff.1 h
    cases h
    obtain ⟨inner, rfl, rfl, -⟩ := exists_of_angled? hangled
    exact ⟨s', rfl, List.cons_ne_nil _ _, hclose⟩
  · exact exists_of_shortest? h

/-- What is read is a link as it is written. -/
theorem eq_of_spaced_read {s rest : Text} {link : Link} (h : spaced.read s = some (link, rest)) :
    ∃ title : Option (Title titleEnd?),
      s = '[' :: (link.text ++ ']' :: '(' :: (link.target ++ (titleText title ++ ')' :: rest))) ∧
        link.text ≠ [] ∧ ']' ∉ link.text := by
  obtain ⟨⟨text, s'⟩, hlabel, h⟩ := Option.bind_eq_some_iff.1 h
  obtain ⟨⟨target, rest'⟩, htarget, h⟩ := Option.map_eq_some_iff.1 h
  cases h
  obtain ⟨rfl, hne, hclosing⟩ := readLabel?_eq_some_iff.1 hlabel
  obtain ⟨s, rfl, -, hclose⟩ := exists_of_spacedTarget? htarget
  obtain ⟨title, rfl⟩ := (close?_eq_some_iff titleEnd?_eq_none_of_isBlank).1 hclose
  exact ⟨title, rfl, hne, hclosing⟩

theorem suffix_of_spaced_read {s rest : Text} {link : Link} (h : spaced.read s = some (link, rest)) :
    rest <:+ s := by
  obtain ⟨title, rfl, -⟩ := eq_of_spaced_read h
  exact ⟨'[' :: (link.text ++ ']' :: '(' :: (link.target ++ (titleText title ++ [')']))), by simp⟩

/-- A link is read as its text and then its target. -/
theorem spaced_read_eq {text : Text} (hne : text ≠ []) (hclosing : ']' ∉ text) (s : Text) :
    spaced.read ('[' :: (text ++ ']' :: '(' :: s)) =
      (spacedTarget? s).map fun (target, rest) => (⟨text, target⟩, rest) := by
  have hlabel : readLabel? ('[' :: (text ++ ']' :: '(' :: s)) = some (text, s) :=
    readLabel?_eq_some_iff.2 ⟨rfl, hne, hclosing⟩
  simp only [spaced, reader, read?, hlabel, Option.bind_some]

theorem items_spaced_append {w : Text} (hw : '[' ∉ w) (s : Text) : spaced.items (w ++ s) = spaced.items s := by
  refine Reader.items_append_of_passes fun c v hv => Option.eq_none_iff_forall_ne_some.2 fun ⟨link, rest⟩ h => ?_
  obtain ⟨⟨text, s'⟩, hlabel, -⟩ := Option.bind_eq_some_iff.1 h
  exact hw ((List.cons.inj (readLabel?_eq_some_iff.1 hlabel).1).1 ▸ hv.subset List.mem_cons_self)

/-- Behind an only opening bracket there is at most one link. -/
theorem items_spaced_eq {text s : Text} (hne : text ≠ []) (hclosing : ']' ∉ text) (hopening : '[' ∉ text) (hs : '[' ∉ s) :
    spaced.items ('[' :: (text ++ ']' :: '(' :: s)) =
      (spacedTarget? s).toList.map fun (target, _) => ⟨text, target⟩ := by
  have hread := spaced_read_eq hne hclosing s
  have hnil : ∀ w, '[' ∉ w → spaced.items w = [] := fun w hw => by
    rw [← List.append_nil w, items_spaced_append hw, spaced.items_nil]
  cases htarget : spacedTarget? s with
  | none =>
      rw [htarget, Option.map_none] at hread
      rw [spaced.items_of_read_eq_none hread, hnil, Option.toList_none, List.map_nil]
      simp [hopening, hs]
  | some p =>
      obtain ⟨target, rest⟩ := p
      rw [htarget, Option.map_some] at hread
      obtain ⟨s', rfl, -, hclose⟩ := exists_of_spacedTarget? htarget
      obtain ⟨title, rfl⟩ := (close?_eq_some_iff titleEnd?_eq_none_of_isBlank).1 hclose
      have hrest : '[' ∉ rest := fun h => hs (by simp [h])
      rw [spaced.items_of_read hread, hnil rest hrest, Option.toList_some, List.map_singleton]

end MarkdownLinks.Link
