import MarkdownLinks.Code.Span

/-! Runs of ticks and the spans that they delimit. The spans of a row depend on nothing but the lengths
of its runs, in order: a run pairs with the next run of its length. From this follows that what is left
of a row when its spans are replaced by anything without ticks holds no two runs of the same length,
and so no span. -/

namespace MarkdownLinks.Code

variable {α : Type} {tick : α → Bool} {n : Nat}

/-- Whether a row is empty or begins with a symbol that is no tick. -/
def Unticked (tick : α → Bool) (s : List α) : Prop := ∀ a ∈ s.head?, tick a = false

theorem Unticked.nil : Unticked tick [] := by
  intro a ha
  cases ha

theorem Unticked.cons {a : α} (ha : ¬tick a) (s : List α) : Unticked tick (a :: s) := by
  intro b hb
  cases hb
  exact Bool.eq_false_iff.2 ha

theorem Unticked.dropWhile (s : List α) : Unticked tick (s.dropWhile tick) := by
  intro a ha
  have h := List.head?_dropWhile_not tick s
  rw [ha] at h
  exact h

theorem Unticked.append {w : List α} (hw : ∀ a ∈ w, tick a = false) (hne : w ≠ []) (s : List α) :
    Unticked tick (w ++ s) := by
  cases w with
  | nil => exact absurd rfl hne
  | cons a w =>
      intro b hb
      cases hb
      exact hw a List.mem_cons_self

theorem Unticked.takeWhile_eq_nil {s : List α} (h : Unticked tick s) : s.takeWhile tick = [] := by
  cases s with
  | nil => rfl
  | cons a s => rw [List.takeWhile_cons_of_neg (by simp [h a rfl])]

theorem Unticked.dropWhile_eq_self {s : List α} (h : Unticked tick s) : s.dropWhile tick = s := by
  cases s with
  | nil => rfl
  | cons a s => rw [List.dropWhile_cons_of_neg (by simp [h a rfl])]

theorem tick_of_mem_run {a : α} {s : List α} (ha : tick a) : ∀ b ∈ a :: s.takeWhile tick, tick b := by
  intro b hb
  rcases List.mem_cons.1 hb with rfl | hb
  · exact ha
  · exact List.all_eq_true.1 List.all_takeWhile b hb

theorem takeWhile_run_append {run s : List α} (hrun : ∀ a ∈ run, tick a) (hs : Unticked tick s) :
    (run ++ s).takeWhile tick = run := by
  rw [List.takeWhile_append_of_pos hrun, hs.takeWhile_eq_nil, List.append_nil]

theorem dropWhile_run_append {run s : List α} (hrun : ∀ a ∈ run, tick a) (hs : Unticked tick s) :
    (run ++ s).dropWhile tick = s := by
  rw [List.dropWhile_append_of_pos hrun, hs.dropWhile_eq_self]

theorem run_append_dropWhile (a : α) (s : List α) : a :: s.takeWhile tick ++ s.dropWhile tick = a :: s := by
  rw [List.cons_append, List.takeWhile_append_dropWhile]

/-- The lengths of the runs of a row, in order. -/
def runLengths (tick : α → Bool) : List α → List Nat
  | [] => []
  | a :: s =>
      if tick a then ((s.takeWhile tick).length + 1) :: runLengths tick (s.dropWhile tick)
      else runLengths tick s
termination_by s => s.length
decreasing_by
  · exact Nat.lt_succ_of_le (List.dropWhile_sublist tick).length_le
  · exact Nat.lt_succ_self _

@[simp] theorem runLengths_nil : runLengths tick [] = [] := by rw [runLengths]

theorem runLengths_cons_of_not {a : α} (ha : ¬tick a) (s : List α) :
    runLengths tick (a :: s) = runLengths tick s := by
  rw [runLengths, if_neg ha]

theorem runLengths_append_of_not {w : List α} (hw : ∀ a ∈ w, tick a = false) (s : List α) :
    runLengths tick (w ++ s) = runLengths tick s := by
  induction w with
  | nil => rfl
  | cons a w ih =>
      rw [List.cons_append, runLengths_cons_of_not (by simp [hw a List.mem_cons_self]),
        ih fun b hb => hw b (List.mem_cons_of_mem a hb)]

theorem runLengths_run_append {a : α} {run s : List α} (hrun : ∀ b ∈ a :: run, tick b)
    (hs : Unticked tick s) :
    runLengths tick (a :: run ++ s) = (run.length + 1) :: runLengths tick s := by
  have hrun' : ∀ b ∈ run, tick b := fun b hb => hrun b (List.mem_cons_of_mem a hb)
  rw [List.cons_append, runLengths, if_pos (hrun a List.mem_cons_self), takeWhile_run_append hrun' hs,
    dropWhile_run_append hrun' hs]

/-- A run that is looked for is found exactly when there is one of its length. -/
theorem throughRun?_eq_none_iff {s : List α} : throughRun? tick n s = none ↔ n ∉ runLengths tick s := by
  fun_induction throughRun? tick n s with
  | case1 => simp
  | case2 a s ha hn => simp [runLengths, ha, hn]
  | case3 a s ha hn ih => simp [runLengths, ha, ih, Ne.symm hn]
  | case4 a s ha ih => simp [runLengths_cons_of_not ha, ih]

theorem runLengths_throughRun? {s through rest : List α}
    (h : throughRun? tick n s = some (through, rest)) :
    (runLengths tick rest).Sublist (runLengths tick s) := by
  fun_induction throughRun? tick n s generalizing through with
  | case1 => cases h
  | case2 a s ha hn =>
      cases h
      rw [runLengths, if_pos ha]
      exact List.sublist_cons_self _ _
  | case3 a s ha hn ih =>
      obtain ⟨⟨through', rest'⟩, hp, h⟩ := Option.map_eq_some_iff.1 h
      cases h
      rw [runLengths, if_pos ha]
      exact (ih hp).cons _
  | case4 a s ha ih =>
      obtain ⟨⟨through', rest'⟩, hp, h⟩ := Option.map_eq_some_iff.1 h
      cases h
      rw [runLengths_cons_of_not ha]
      exact ih hp

theorem ticked_getLast?_throughRun? {s through rest : List α}
    (h : throughRun? tick n s = some (through, rest)) : ∃ a ∈ through.getLast?, tick a := by
  fun_induction throughRun? tick n s generalizing through with
  | case1 => cases h
  | case2 a s ha hn =>
      cases h
      have hlast := List.getLast_mem_getLast? (List.cons_ne_nil a (s.takeWhile tick))
      exact ⟨_, hlast, tick_of_mem_run ha _ (List.mem_of_mem_getLast? hlast)⟩
  | case3 a s ha hn ih =>
      obtain ⟨⟨through', rest'⟩, hp, h⟩ := Option.map_eq_some_iff.1 h
      cases h
      obtain ⟨b, hb, htick⟩ := ih hp
      exact ⟨b, by rw [List.getLast?_append, Option.mem_def.1 hb]; rfl, htick⟩
  | case4 a s ha ih =>
      obtain ⟨⟨through', rest'⟩, hp, h⟩ := Option.map_eq_some_iff.1 h
      cases h
      obtain ⟨b, hb, htick⟩ := ih hp
      exact ⟨b, by rw [List.getLast?_cons, Option.mem_def.1 hb]; rfl, htick⟩

theorem unticked_of_throughRun? {n : Nat} {s through rest : List α}
    (h : throughRun? tick n s = some (through, rest)) : Unticked tick rest := by
  fun_induction throughRun? tick n s generalizing through with
  | case1 => cases h
  | case2 a s ha hn =>
      cases h
      exact Unticked.dropWhile s
  | case3 a s ha hn ih =>
      obtain ⟨⟨through', rest'⟩, hp, h⟩ := Option.map_eq_some_iff.1 h
      cases h
      exact ih hp
  | case4 a s ha ih =>
      obtain ⟨⟨through', rest'⟩, hp, h⟩ := Option.map_eq_some_iff.1 h
      cases h
      exact ih hp

theorem code_suffix_of_append {code s : List α} {parts more : List (Segment α)}
    (h : .code code :: parts <:+ s.map .plain ++ more) : .code code :: parts <:+ more := by
  induction s with
  | nil => exact h
  | cons a s ih =>
      rcases List.suffix_cons_iff.1 h with heq | h
      · cases heq
      · exact ih h

/-- No tick stands behind a span. -/
theorem unticked_behind_code {s code : List α} {parts : List (Segment α)}
    (h : .code code :: parts <:+ spanParts tick s) : Unticked tick (segmentsText parts) := by
  fun_induction spanParts tick s with
  | case1 => cases List.suffix_nil.1 h
  | case2 a s ha through rest hs ih =>
      rcases List.suffix_cons_iff.1 h with heq | h
      · cases heq
        rw [segmentsText_spanParts]
        exact unticked_of_throughRun? hs
      · exact ih h
  | case3 a s ha hs ih => exact ih (code_suffix_of_append h)
  | case4 a s ha ih => exact ih (code_suffix_of_append (s := [a]) h)

/-- A span begins and ends with a tick. -/
theorem ticked_of_mem_codes {s code : List α} (h : code ∈ codes (spanParts tick s)) :
    (∃ a ∈ code.head?, tick a) ∧ ∃ a ∈ code.getLast?, tick a := by
  fun_induction spanParts tick s with
  | case1 => cases h
  | case2 a s ha through rest hs ih =>
      rcases List.mem_cons.1 h with rfl | h
      · obtain ⟨b, hb, htick⟩ := ticked_getLast?_throughRun? hs
        exact ⟨⟨a, rfl, ha⟩, b, by rw [List.getLast?_append, Option.mem_def.1 hb]; rfl, htick⟩
      · exact ih h
  | case3 a s ha hs ih =>
      rw [codes_append, codes_map_plain, List.nil_append] at h
      exact ih h
  | case4 a s ha ih => exact ih h

/-- A row whose runs differ in length has no spans. -/
theorem spanParts_of_nodup {s : List α} (h : (runLengths tick s).Nodup) :
    spanParts tick s = s.map .plain := by
  fun_induction spanParts tick s with
  | case1 => rfl
  | case2 a s ha through rest hs ih =>
      rw [runLengths, if_pos ha, List.nodup_cons] at h
      rw [throughRun?_eq_none_iff.2 h.1] at hs
      cases hs
  | case3 a s ha hs ih =>
      rw [runLengths, if_pos ha, List.nodup_cons] at h
      rw [ih h.2, ← List.map_append, List.cons_append, List.takeWhile_append_dropWhile]
  | case4 a s ha ih =>
      rw [runLengths_cons_of_not ha] at h
      rw [ih h, List.map_cons]

theorem unticked_placeholdersFrom {placeholder : Nat → List α} {s : List α} (hs : Unticked tick s) :
    Unticked tick (placeholdersFrom placeholder n (spanParts tick s)) := by
  cases s with
  | nil =>
      rw [spanParts]
      exact Unticked.nil
  | cons a s =>
      have ha : ¬tick a := by simp [hs a rfl]
      rw [spanParts, if_neg ha, placeholdersFrom_plain]
      exact Unticked.cons ha _

section
variable {placeholder : Nat → List α} (hfree : ∀ k, ∀ a ∈ placeholder k, tick a = false)
include hfree

/-- What is left of a row without its spans keeps the order of its runs, and no two of them are of the
same length: one of two equal runs would have opened a span. -/
theorem runLengths_placeholdersFrom (s : List α) :
    (runLengths tick (placeholdersFrom placeholder n (spanParts tick s))).Sublist (runLengths tick s) ∧
      (runLengths tick (placeholdersFrom placeholder n (spanParts tick s))).Nodup := by
  fun_induction spanParts tick s generalizing n with
  | case1 => simp
  | case2 a s ha through rest hs ih =>
      rw [placeholdersFrom_code, runLengths_append_of_not (hfree n), runLengths, if_pos ha]
      exact ⟨((ih.1).trans (runLengths_throughRun? hs)).cons _, ih.2⟩
  | case3 a s ha hs ih =>
      rw [placeholdersFrom_map_plain_append,
        runLengths_run_append (tick_of_mem_run ha)
          (unticked_placeholdersFrom (Unticked.dropWhile s)), runLengths, if_pos ha]
      have hloose := throughRun?_eq_none_iff.1 hs
      exact ⟨ih.1.cons_cons _, List.nodup_cons.2 ⟨fun hm => hloose (ih.1.subset hm), ih.2⟩⟩
  | case4 a s ha ih =>
      rw [placeholdersFrom_plain, runLengths_cons_of_not ha, runLengths_cons_of_not ha]
      exact ih

end

end MarkdownLinks.Code
