import MarkdownLinks.Proofs.Code.Rendering

/-! Fewer ticks. When some ticks of a row are ticks no longer, its spans stay what they are, as long as
this befalls no tick in a span and, outside the spans, whole runs only: a run that no equal one follows
is followed by none when there are fewer runs. -/

namespace MarkdownLinks.Code

variable {α : Type} {tick few : α → Bool}

/-- The spans of a row that begins with a run. -/
theorem spanParts_run_append {a : α} {run s : List α} (hrun : ∀ b ∈ a :: run, tick b) (hs : Unticked tick s) :
    spanParts tick (a :: run ++ s) =
      match throughRun? tick (run.length + 1) s with
      | some (through, rest) => .code (a :: run ++ through) :: spanParts tick rest
      | none => (a :: run).map .plain ++ spanParts tick s := by
  have hrun' : ∀ b ∈ run, tick b := fun b hb => hrun b (List.mem_cons_of_mem a hb)
  rw [List.cons_append, spanParts, if_pos (hrun a List.mem_cons_self)]
  split
  · rename_i through rest hthrough
    rw [takeWhile_run_append hrun' hs, dropWhile_run_append hrun' hs] at hthrough
    rw [takeWhile_run_append hrun' hs, hthrough]
  · rename_i hthrough
    rw [takeWhile_run_append hrun' hs, dropWhile_run_append hrun' hs] at hthrough
    rw [takeWhile_run_append hrun' hs, dropWhile_run_append hrun' hs, hthrough]

/-- Whether the ticks of a row that remain are those of its spans and whole runs of others. -/
def KeepsRuns (tick few : α → Bool) : List (Segment α) → Prop
  | [] => True
  | .code s :: parts => (∀ a ∈ s, few a = tick a) ∧ KeepsRuns tick few parts
  | .plain a :: parts =>
      (few a → tick a) ∧ (∀ b ∈ parts.head?, ∀ c, b = .plain c → tick a → tick c → few a = few c) ∧
        KeepsRuns tick few parts

theorem KeepsRuns.tick_of_few {parts : List (Segment α)} (h : KeepsRuns tick few parts) :
    ∀ a ∈ segmentsText parts, few a → tick a := by
  induction parts with
  | nil => exact fun a ha => absurd ha List.not_mem_nil
  | cons p parts ih =>
      intro a ha hfew
      cases p with
      | plain b =>
          rcases List.mem_cons.1 ha with rfl | ha
          · exact h.1 hfew
          · exact ih h.2.2 a ha hfew
      | code s =>
          rcases List.mem_append.1 ha with ha | ha
          · rw [← h.1 a ha]
            exact hfew
          · exact ih h.2 a ha hfew

theorem KeepsRuns.unticked {s : List α} (h : KeepsRuns tick few (spanParts tick s)) (hs : Unticked tick s) :
    Unticked few s := by
  intro a ha
  apply Bool.eq_false_iff.2
  intro hfew
  have htick := h.tick_of_few a (by rw [segmentsText_spanParts]; exact List.mem_of_mem_head? ha) hfew
  rw [hs a ha] at htick
  cases htick

/-- A run outside the spans remains or vanishes as a whole. -/
theorem KeepsRuns.run {a : α} {run : List α} {parts : List (Segment α)} (hrun : ∀ b ∈ a :: run, tick b)
    (h : KeepsRuns tick few ((a :: run).map .plain ++ parts)) :
    (∀ b ∈ a :: run, few b = few a) ∧ KeepsRuns tick few parts := by
  induction run generalizing a with
  | nil => exact ⟨by simp, h.2.2⟩
  | cons b run ih =>
      have hb := hrun b (List.mem_cons_of_mem a List.mem_cons_self)
      have hab := h.2.1 (.plain b) rfl b rfl (hrun a List.mem_cons_self) hb
      obtain ⟨hall, hparts⟩ := ih (fun c hc => hrun c (List.mem_cons_of_mem a hc)) h.2.2
      refine ⟨fun c hc => ?_, hparts⟩
      rcases List.mem_cons.1 hc with rfl | hc
      · rfl
      · rw [hall c hc, hab]

theorem throughRun?_run_append {n : Nat} {a : α} {run s : List α} (hrun : ∀ b ∈ a :: run, tick b)
    (hs : Unticked tick s) :
    throughRun? tick n (a :: run ++ s) =
      if run.length + 1 = n then some (a :: run, s)
      else (throughRun? tick n s).map fun (through, rest) => (a :: run ++ through, rest) := by
  have hrun' : ∀ b ∈ run, tick b := fun b hb => hrun b (List.mem_cons_of_mem a hb)
  rw [List.cons_append, throughRun?, if_pos (hrun a List.mem_cons_self), takeWhile_run_append hrun' hs,
    dropWhile_run_append hrun' hs]

theorem unticked_of_agree {n : Nat} {s through rest : List α} (h : throughRun? tick n s = some (through, rest))
    (hagree : ∀ a ∈ through, few a = tick a) (hs : Unticked tick s) : Unticked few s := by
  intro a ha
  obtain ⟨b, hb, -⟩ := ticked_getLast?_throughRun? h
  have hmem : a ∈ through := by
    rw [throughRun?_eq h] at ha
    cases through with
    | nil => cases hb
    | cons c through =>
        cases ha
        exact List.mem_cons_self
  rw [hagree a hmem]
  exact hs a ha

/-- A cut behind a run depends only on the ticks up to there. -/
theorem throughRun?_of_agree {n : Nat} {s through rest : List α}
    (h : throughRun? tick n s = some (through, rest)) (hagree : ∀ a ∈ through, few a = tick a)
    (hrest : Unticked few rest) (hruns : (runLengths few rest).Sublist (runLengths tick rest)) :
    throughRun? few n s = some (through, rest) ∧ (runLengths few s).Sublist (runLengths tick s) := by
  fun_induction throughRun? tick n s generalizing through with
  | case1 => cases h
  | case2 a s ha hn =>
      cases h
      have hrun : ∀ b ∈ a :: s.takeWhile tick, few b := fun b hb => by
        rw [hagree b hb]
        exact tick_of_mem_run ha b hb
      have hs : a :: s = a :: s.takeWhile tick ++ s.dropWhile tick := (run_append_dropWhile a s).symm
      constructor
      · rw [hs, throughRun?_run_append hrun hrest, if_pos hn]
      · rw [hs, runLengths_run_append hrun hrest,
          runLengths_run_append (tick_of_mem_run ha) (Unticked.dropWhile s)]
        exact hruns.cons_cons _
  | case3 a s ha hn ih =>
      obtain ⟨⟨through', rest'⟩, hp, h⟩ := Option.map_eq_some_iff.1 h
      cases h
      have hrun : ∀ b ∈ a :: s.takeWhile tick, few b := fun b hb => by
        rw [hagree b (List.mem_append_left _ hb)]
        exact tick_of_mem_run ha b hb
      have hs : a :: s = a :: s.takeWhile tick ++ s.dropWhile tick := (run_append_dropWhile a s).symm
      have hbehind : Unticked few (s.dropWhile tick) :=
        unticked_of_agree hp (fun b hb => hagree b (List.mem_append_right _ hb)) (Unticked.dropWhile s)
      obtain ⟨hthrough, hsub⟩ := ih hp fun b hb => hagree b (List.mem_append_right _ hb)
      constructor
      · rw [hs, throughRun?_run_append hrun hbehind, if_neg hn, hthrough]
        rfl
      · rw [hs, runLengths_run_append hrun hbehind,
          runLengths_run_append (tick_of_mem_run ha) (Unticked.dropWhile s)]
        exact hsub.cons_cons _
  | case4 a s ha ih =>
      obtain ⟨⟨through', rest'⟩, hp, h⟩ := Option.map_eq_some_iff.1 h
      cases h
      have hfew : ¬few a := by rw [hagree a List.mem_cons_self]; exact ha
      obtain ⟨hthrough, hsub⟩ := ih hp fun b hb => hagree b (List.mem_cons_of_mem a hb)
      constructor
      · rw [throughRun?, if_neg hfew, hthrough]
        rfl
      · rw [runLengths_cons_of_not hfew, runLengths_cons_of_not ha]
        exact hsub

/-- With fewer ticks, but those of the spans and whole runs of the others, the spans are the same. -/
theorem spanParts_of_keepsRuns {s : List α} (h : KeepsRuns tick few (spanParts tick s)) :
    spanParts few s = spanParts tick s ∧ (runLengths few s).Sublist (runLengths tick s) := by
  fun_induction spanParts tick s with
  | case1 => exact ⟨by rw [spanParts], by simp⟩
  | case2 a s ha through rest hs ih =>
      obtain ⟨hagree, hrest⟩ := h
      obtain ⟨hparts, hruns⟩ := ih hrest
      have hrestfew := hrest.unticked (unticked_of_throughRun? hs)
      have hthroughfew : ∀ b ∈ through, few b = tick b := fun b hb => hagree b (List.mem_append_right _ hb)
      obtain ⟨hthrough, hsub⟩ := throughRun?_of_agree hs hthroughfew hrestfew hruns
      have hbehind := unticked_of_agree hs hthroughfew (Unticked.dropWhile s)
      have hrun : ∀ b ∈ a :: s.takeWhile tick, few b := fun b hb => by
        rw [hagree b (List.mem_append_left _ hb)]
        exact tick_of_mem_run ha b hb
      have heq : a :: s = a :: s.takeWhile tick ++ s.dropWhile tick := (run_append_dropWhile a s).symm
      constructor
      · rw [heq, spanParts_run_append hrun hbehind, hthrough]
        exact congrArg _ hparts
      · rw [heq, runLengths_run_append hrun hbehind,
          runLengths_run_append (tick_of_mem_run ha) (Unticked.dropWhile s)]
        exact hsub.cons_cons _
  | case3 a s ha hs ih =>
      obtain ⟨hall, hrest⟩ := KeepsRuns.run (tick_of_mem_run ha) h
      obtain ⟨hparts, hsub⟩ := ih hrest
      have hbehind := hrest.unticked (Unticked.dropWhile s)
      have heq : a :: s = a :: s.takeWhile tick ++ s.dropWhile tick := (run_append_dropWhile a s).symm
      rw [heq, runLengths_run_append (tick_of_mem_run ha) (Unticked.dropWhile s)]
      cases hfew : few a with
      | true =>
          have hrun : ∀ b ∈ a :: s.takeWhile tick, few b := fun b hb => by rw [hall b hb, hfew]
          have hnone : throughRun? few ((s.takeWhile tick).length + 1) (s.dropWhile tick) = none :=
            throughRun?_eq_none_iff.2 fun hmem => throughRun?_eq_none_iff.1 hs (hsub.subset hmem)
          rw [spanParts_run_append hrun hbehind, hnone, runLengths_run_append hrun hbehind]
          exact ⟨by rw [hparts], hsub.cons_cons _⟩
      | false =>
          have hrun : ∀ b ∈ a :: s.takeWhile tick, few b = false := fun b hb => by rw [hall b hb, hfew]
          rw [spanParts_append_of_not hrun, runLengths_append_of_not hrun, hparts]
          exact ⟨rfl, hsub.cons _⟩
  | case4 a s ha ih =>
      obtain ⟨hparts, hsub⟩ := ih h.2.2
      have hfew : ¬few a := fun hfew => ha (h.1 hfew)
      constructor
      · rw [spanParts, if_neg hfew, hparts]
      · rw [runLengths_cons_of_not hfew, runLengths_cons_of_not ha]
        exact hsub

end MarkdownLinks.Code
