import MarkdownLinks.Proofs.Link.Spaced

/-! Reference definitions as they are written. In front of the label there are only blanks. The label does not
begin with a circumflex, which would make it a footnote, and behind its colon all blanks are skipped. The
target stands there, and behind the target the line ends: with a title or without one, and with blanks. -/

namespace MarkdownLinks.Link

/-- A line ends with blanks that a title may precede. -/
theorem endsLine_iff {s : Text} :
    endsLine s ↔ ∃ (title : Option (Title titleEnd?)) (padding : Text),
      s = titleText title ++ padding ∧ ∀ c ∈ padding, isBlank c := by
  rw [endsLine, Bool.or_eq_true]
  constructor
  · rintro (h | h)
    · exact ⟨none, s, rfl, List.all_eq_true.1 h⟩
    · obtain ⟨rest, hskip, hrest⟩ := (Option.any_eq_true _ _).1 h
      obtain ⟨t, rfl⟩ := (skipTitle?_eq_some_iff titleEnd?_eq_none_of_isBlank).1 hskip
      exact ⟨some t, rest, rfl, List.all_eq_true.1 hrest⟩
  · rintro ⟨_ | t, padding, rfl, hpadding⟩
    · exact Or.inl (List.all_eq_true.2 hpadding)
    · have hskip : skipTitle? titleEnd? (t.text ++ padding) = some padding :=
        (skipTitle?_eq_some_iff titleEnd?_eq_none_of_isBlank).2 ⟨t, rfl⟩
      rw [titleText, hskip, Option.any_some]
      exact Or.inr (List.all_eq_true.2 hpadding)

/-- Whether a text in brackets can be the label of a reference definition. -/
structure IsDefinitionLabel (label : Text) : Prop where
  ne_nil : label ≠ []
  closing_not_mem : ']' ∉ label
  not_footnote : '^' ∉ label.head?

/-- Behind the label of a definition and its colon all blanks are skipped, as they are in front of it. -/
theorem skipDefinitionLabel?_eq_some_iff {line s : Text} :
    skipDefinitionLabel? line = some s ↔
      ∃ indent label gap, line = indent ++ '[' :: (label ++ ']' :: ':' :: (gap ++ s)) ∧
        (∀ c ∈ indent, isBlank c) ∧ IsDefinitionLabel label ∧ (∀ c ∈ gap, isBlank c) ∧
        ∀ c ∈ s.head?, isBlank c = false := by
  constructor
  · intro h
    unfold skipDefinitionLabel? at h
    obtain ⟨indent, hline, hindent⟩ := exists_trimStart line
    split at h
    · rename_i c u hstart
      split at h
      · cases h
      · rename_i hc
        split at h
        · rename_i label rest hcut
          cases h
          obtain ⟨rfl, hlabel⟩ := splitFirst?_eq_some_iff.1 hcut
          obtain ⟨gap, hrest, hgap⟩ := exists_trimStart rest
          obtain ⟨hclosing, hfootnote⟩ := not_or.1 hc
          have hisLabel : IsDefinitionLabel (c :: label) := {
            ne_nil := List.cons_ne_nil c label
            closing_not_mem := fun h => (List.mem_cons.1 h).elim (fun h => hclosing h.symm) hlabel
            not_footnote := fun h => hfootnote (Option.some.inj h) }
          refine ⟨indent, c :: label, gap, ?_, hindent, hisLabel, hgap, fun d hd => head?_trimStart hd⟩
          rw [hline, hstart, ← hrest]
          rfl
        · cases h
    · cases h
  · rintro ⟨indent, label, gap, rfl, hindent, hlabel, hgap, hs⟩
    obtain ⟨c, u, rfl⟩ := List.exists_cons_of_ne_nil hlabel.ne_nil
    obtain ⟨hclosing, hu⟩ := not_or.1 (mt List.mem_cons.2 hlabel.closing_not_mem)
    have hc : ¬ (c = ']' ∨ c = '^') := by
      rintro (rfl | rfl)
      · exact hclosing rfl
      · exact hlabel.not_footnote rfl
    have hrest : trimStart (gap ++ s) = s := by
      rw [trimStart_append_of_isBlank hgap]
      cases s with
      | nil => rfl
      | cons d s => exact trimStart_cons_of_not (hs d rfl) s
    rw [skipDefinitionLabel?, trimStart_append_of_isBlank hindent, trimStart_cons_of_not rfl, List.cons_append]
    simp only [if_neg hc, splitFirst?_append _ hu, hrest]

/-- The line ends behind the target of a definition. -/
theorem exists_of_definitionTarget? {line target : Text} (h : definitionTarget? line = some target) :
    ∃ s, skipDefinitionLabel? line = some (target ++ s) ∧ endsLine s := by
  obtain ⟨s, hlabel, h⟩ := Option.bind_eq_some_iff.1 h
  rw [hlabel]
  rcases Option.or_eq_some_iff.1 h with h | ⟨-, h⟩
  · obtain ⟨⟨written, rest⟩, hangled, h⟩ := Option.bind_eq_some_iff.1 h
    obtain ⟨hends, h⟩ := Option.ite_none_right_eq_some.1 h
    cases h
    obtain ⟨-, -, rfl, -⟩ := exists_of_angled? hangled
    exact ⟨rest, rfl, hends⟩
  · obtain ⟨⟨-, hends⟩, h⟩ := Option.ite_none_right_eq_some.1 h
    cases h
    exact ⟨s.dropWhile fun c => !isBlank c, by rw [List.takeWhile_append_dropWhile], hends⟩

end MarkdownLinks.Link
