import MarkdownLinks.Proofs.Code.Exhaustive
import Mathlib.Data.List.TakeWhile

/-! Spans by the places of the runs that delimit them. From left to right, a run that a later one of its
length follows makes a span with the first such run, and what stands between the two belongs to the
span, other runs and line feeds included; reading goes on behind the second one. A run that no such run
follows is text. Reading a row symbol by symbol comes to the same spans, because a run that is looked for
is found only where a run starts, never within one. -/

namespace MarkdownLinks.Code

/-- A longest stretch of ticks: where it starts, and how long it is. -/
structure Run where
  start : Nat
  length : Nat
  deriving DecidableEq

/-- Where a run has ended. -/
def Run.stop (r : Run) : Nat := r.start + r.length

/-- The pairs of runs that delimit spans: a run, and the first later one of its length. -/
def pairRuns : List Run → List (Run × Run)
  | [] => []
  | opening :: later =>
      match _ : later.dropWhile fun r => r.length != opening.length with
      | [] => pairRuns later
      | closing :: rest => (opening, closing) :: pairRuns rest
termination_by runs => runs.length
decreasing_by
  · exact Nat.lt_succ_self _
  · rename_i hlater
    have hlength : (later.dropWhile fun r => r.length != opening.length).length ≤ later.length :=
      (List.dropWhile_sublist _).length_le
    rw [hlater, List.length_cons] at hlength
    exact Nat.lt_succ_of_le (Nat.le_of_succ_le hlength)

section
variable {opening : Run} {later : List Run}

theorem pairRuns_of_dropWhile_eq_nil (h : (later.dropWhile fun r => r.length != opening.length) = []) :
    pairRuns (opening :: later) = pairRuns later := by
  rw [pairRuns]
  split <;> simp_all

theorem pairRuns_of_dropWhile_eq_cons {closing : Run} {rest : List Run}
    (h : (later.dropWhile fun r => r.length != opening.length) = closing :: rest) :
    pairRuns (opening :: later) = (opening, closing) :: pairRuns rest := by
  rw [pairRuns]
  split <;> simp_all

end

theorem mem_of_mem_pairRuns {p : Run × Run} {runs : List Run} (h : p ∈ pairRuns runs) : p.1 ∈ runs := by
  fun_induction pairRuns runs with
  | case1 => cases h
  | case2 opening later hlater ih => exact List.mem_cons_of_mem opening (ih h)
  | case3 opening later closing rest hlater ih =>
      rcases List.mem_cons.1 h with rfl | h
      · exact List.mem_cons_self
      · have hrest : rest.Sublist later :=
          (List.sublist_cons_self closing rest).trans (hlater ▸ List.dropWhile_sublist _)
        exact List.mem_cons_of_mem opening (hrest.subset (ih h))

variable {α : Type} {tick : α → Bool} {pos n : Nat} {s : List α}

/-- The runs of a row in front of which `pos` symbols stand, in order. -/
def runsFrom (tick : α → Bool) (pos : Nat) : List α → List Run
  | [] => []
  | a :: s =>
      if tick a then
        ⟨pos, (s.takeWhile tick).length + 1⟩ ::
          runsFrom tick (pos + ((s.takeWhile tick).length + 1)) (s.dropWhile tick)
      else runsFrom tick (pos + 1) s
termination_by s => s.length
decreasing_by
  · exact Nat.lt_succ_of_le (List.dropWhile_sublist tick).length_le
  · exact Nat.lt_succ_self _

@[simp] theorem runsFrom_nil : runsFrom tick pos [] = [] := by rw [runsFrom]

theorem runsFrom_cons_of_not {a : α} (ha : ¬tick a) (s : List α) :
    runsFrom tick pos (a :: s) = runsFrom tick (pos + 1) s := by
  rw [runsFrom, if_neg ha]

theorem runsFrom_run_append {run : List α} (hrun : ∀ a ∈ run, tick a) (hne : run ≠ []) (hs : Unticked tick s) :
    runsFrom tick pos (run ++ s) = ⟨pos, run.length⟩ :: runsFrom tick (pos + run.length) s := by
  cases run with
  | nil => exact absurd rfl hne
  | cons a run =>
      obtain ⟨ha, hrun⟩ := List.forall_mem_cons.1 hrun
      rw [List.cons_append, runsFrom, if_pos ha, takeWhile_run_append hrun hs, dropWhile_run_append hrun hs,
        List.length_cons]

theorem map_length_runsFrom (pos : Nat) (s : List α) : (runsFrom tick pos s).map Run.length = runLengths tick s := by
  fun_induction runsFrom tick pos s with
  | case1 => rw [runLengths_nil]; rfl
  | case2 pos a s ha ih => rw [runLengths, if_pos ha, List.map_cons, ih]
  | case3 pos a s ha ih => rw [runLengths_cons_of_not ha, ih]

/-- Whether a run is one of a row: ticks all over, and no tick at either end of it. -/
def IsRun (tick : α → Bool) (s : List α) (r : Run) : Prop :=
  ∃ front run behind, s = front ++ (run ++ behind) ∧ (run ≠ [] ∧ ∀ a ∈ run, tick a) ∧
    (∀ a ∈ front.getLast?, tick a = false) ∧ Unticked tick behind ∧ r = ⟨front.length, run.length⟩

theorem mem_getLast?_of_suffix {a : α} {w t : List α} (h : t <:+ w) (ha : a ∈ t.getLast?) : a ∈ w.getLast? := by
  obtain ⟨front, rfl⟩ := h
  rw [List.getLast?_append, Option.mem_def.1 ha]
  rfl

/-- No tick stands behind the first run of a row if none stands there when the row goes on. -/
theorem Unticked.dropWhile_append {a : α} {front : List α} (ha : tick a)
    (h : (∀ b ∈ (a :: front).getLast?, tick b = false) ∨ Unticked tick s) :
    Unticked tick (front.dropWhile tick ++ s) := by
  rcases hrest : front.dropWhile tick with _ | ⟨b, rest⟩
  · -- The row is all ticks, so it does not end with anything else.
    refine h.resolve_left fun hlast => ?_
    have hsplit : a :: front.takeWhile tick ++ front.dropWhile tick = a :: front := run_append_dropWhile a front
    rw [hrest, List.append_nil] at hsplit
    have hticks := tick_of_mem_run ha (s := front)
    rw [hsplit] at hticks
    have hmem := List.getLast_mem_getLast? (List.cons_ne_nil a front)
    have htick := hticks _ (List.mem_of_mem_getLast? hmem)
    rw [hlast _ hmem] at htick
    cases htick
  · intro c hc
    exact Unticked.dropWhile front c (by rw [hrest]; exact hc)

/-- The runs of two rows are those of both if no run reaches from the one into the other. -/
theorem runsFrom_append {front : List α} (h : (∀ a ∈ front.getLast?, tick a = false) ∨ Unticked tick s) :
    runsFrom tick pos (front ++ s) = runsFrom tick pos front ++ runsFrom tick (pos + front.length) s := by
  fun_induction runsFrom tick pos front with
  | case1 => rfl
  | case2 pos a front ha ih =>
      have hsplit : a :: front.takeWhile tick ++ front.dropWhile tick = a :: front := run_append_dropWhile a front
      have hlength : pos + (a :: front).length =
          pos + ((front.takeWhile tick).length + 1) + (front.dropWhile tick).length := by
        rw [← hsplit, List.length_append, List.length_cons]
        omega
      rw [hlength, ← hsplit, List.append_assoc, runsFrom_run_append (tick_of_mem_run ha) (List.cons_ne_nil _ _)
        (Unticked.dropWhile_append ha h), List.length_cons, ih (h.imp_left fun hlast b hb => ?_)]
      · rfl
      · have hsuffix : front.dropWhile tick <:+ a :: front := ⟨_, hsplit⟩
        exact hlast b (mem_getLast?_of_suffix hsuffix hb)
  | case3 pos a front ha ih =>
      have hfront : (∀ b ∈ front.getLast?, tick b = false) ∨ Unticked tick s :=
        h.imp_left fun hlast b hb => hlast b (mem_getLast?_of_suffix (List.suffix_cons a front) hb)
      rw [List.cons_append, runsFrom_cons_of_not ha, ih hfront, List.length_cons, Nat.add_assoc, Nat.add_comm 1]

/-- The runs that are found are those of the row. -/
theorem mem_runsFrom_iff {r : Run} :
    r ∈ runsFrom tick pos s ↔ ∃ r', IsRun tick s r' ∧ r = ⟨pos + r'.start, r'.length⟩ := by
  constructor
  · intro h
    fun_induction runsFrom tick pos s with
    | case1 => cases h
    | case2 pos a s ha ih =>
        have hrun := tick_of_mem_run ha (s := s)
        have hsplit : a :: s.takeWhile tick ++ s.dropWhile tick = a :: s := run_append_dropWhile a s
        rcases List.mem_cons.1 h with rfl | h
        · refine ⟨⟨0, (s.takeWhile tick).length + 1⟩, ?_, rfl⟩
          exact ⟨[], a :: s.takeWhile tick, s.dropWhile tick, hsplit.symm, ⟨List.cons_ne_nil _ _, hrun⟩,
            fun b hb => (by cases hb), Unticked.dropWhile s, rfl⟩
        · obtain ⟨r', ⟨front, run, behind, hs, ⟨hne, hticks⟩, hfront, hbehind, rfl⟩, rfl⟩ := ih h
          refine ⟨_, ⟨a :: s.takeWhile tick ++ front, run, behind, ?_, ⟨hne, hticks⟩, ?_, hbehind, rfl⟩, ?_⟩
          · rw [← hsplit, hs, List.append_assoc]
          · -- A run in what follows a run does not begin where that run ends.
            have hfront_ne : front ≠ [] := by
              rintro rfl
              have hunticked : Unticked tick (s.dropWhile tick) := Unticked.dropWhile s
              rw [hs, List.nil_append] at hunticked
              obtain ⟨b, run, rfl⟩ := List.exists_cons_of_ne_nil hne
              have hb := hunticked b rfl
              rw [hticks b List.mem_cons_self] at hb
              cases hb
            intro b hb
            rw [List.getLast?_append, List.getLast?_eq_some_getLast hfront_ne, Option.some_or,
              ← List.getLast?_eq_some_getLast hfront_ne] at hb
            exact hfront b hb
          · rw [List.length_append, List.length_cons, Nat.add_assoc]
    | case3 pos a s ha ih =>
        obtain ⟨r', ⟨front, run, behind, rfl, hrun, hfront, hbehind, rfl⟩, rfl⟩ := ih h
        refine ⟨_, ⟨a :: front, run, behind, rfl, hrun, ?_, hbehind, rfl⟩, ?_⟩
        · intro b hb
          cases front with
          | nil =>
              cases hb
              exact Bool.eq_false_iff.2 ha
          | cons c front => exact hfront b hb
        · rw [List.length_cons, Nat.add_assoc, Nat.add_comm 1]
  · rintro ⟨r', ⟨front, run, behind, rfl, ⟨hne, hticks⟩, hfront, hbehind, rfl⟩, rfl⟩
    rw [runsFrom_append (Or.inl hfront), runsFrom_run_append hticks hne hbehind]
    exact List.mem_append_right _ List.mem_cons_self

theorem le_start_of_mem_runsFrom {r : Run} (h : r ∈ runsFrom tick pos s) : pos ≤ r.start := by
  obtain ⟨r', -, rfl⟩ := mem_runsFrom_iff.1 h
  exact Nat.le_add_right pos _

theorem lt_start_of_mem_runsFrom {r : Run} (hs : Unticked tick s) (h : r ∈ runsFrom tick pos s) : pos < r.start := by
  cases s with
  | nil =>
      rw [runsFrom_nil] at h
      cases h
  | cons a s =>
      rw [runsFrom_cons_of_not (by simp [hs a rfl])] at h
      exact le_start_of_mem_runsFrom h

/-- The runs stand in order, and something stands between each two of them. -/
theorem pairwise_runsFrom : (runsFrom tick pos s).Pairwise fun r later => r.stop < later.start := by
  fun_induction runsFrom tick pos s with
  | case1 => exact List.Pairwise.nil
  | case2 pos a s ha ih => exact ih.cons fun later => lt_start_of_mem_runsFrom (Unticked.dropWhile s)
  | case3 pos a s ha ih => exact ih

/-- A run of some length that is looked for is the first one of that length. -/
theorem dropWhile_runsFrom (pos : Nat) {through rest : List α} (h : throughRun? tick n s = some (through, rest)) :
    ∃ front, through.length = front + n ∧
      (runsFrom tick pos s).dropWhile (fun r => r.length != n) =
        ⟨pos + front, n⟩ :: runsFrom tick (pos + through.length) rest := by
  fun_induction throughRun? tick n s generalizing pos through with
  | case1 => cases h
  | case2 a s ha hn =>
      cases h
      refine ⟨0, by rw [List.length_cons, hn, Nat.zero_add], ?_⟩
      rw [runsFrom, if_pos ha, hn, List.dropWhile_cons_of_neg (by simp), List.length_cons, hn]
      rfl
  | case3 a s ha hn ih =>
      obtain ⟨⟨through', rest'⟩, hp, h⟩ := Option.map_eq_some_iff.1 h
      cases h
      obtain ⟨front, hlength, hfound⟩ := ih (pos + ((s.takeWhile tick).length + 1)) hp
      refine ⟨(s.takeWhile tick).length + 1 + front, ?_, ?_⟩
      · rw [List.length_append, List.length_cons, hlength, Nat.add_assoc _ front]
      · rw [runsFrom, if_pos ha, List.dropWhile_cons_of_pos (by simp [hn]), hfound, List.length_append,
          List.length_cons, Nat.add_assoc pos, Nat.add_assoc pos]
  | case4 a s ha ih =>
      obtain ⟨⟨through', rest'⟩, hp, h⟩ := Option.map_eq_some_iff.1 h
      cases h
      obtain ⟨front, hlength, hfound⟩ := ih (pos + 1) hp
      refine ⟨1 + front, by rw [List.length_cons, hlength, Nat.add_comm, Nat.add_assoc], ?_⟩
      rw [runsFrom_cons_of_not ha, hfound, List.length_cons, Nat.add_assoc pos, Nat.add_assoc pos,
        Nat.add_comm through'.length]

theorem dropWhile_runsFrom_eq_nil (h : throughRun? tick n s = none) :
    (runsFrom tick pos s).dropWhile (fun r => r.length != n) = [] := by
  rw [throughRun?_eq_none_iff, ← map_length_runsFrom pos] at h
  refine List.dropWhile_eq_nil_iff.2 fun r hr => bne_iff_ne.2 fun hn => h ?_
  exact List.mem_map.2 ⟨r, hr, hn⟩

/-- A row from a place on cut into the spans that pairs of runs delimit, and the symbols between them. -/
def cutSpans (s : List α) (pos : Nat) : List (Run × Run) → List (Segment α)
  | [] => (s.drop pos).map .plain
  | (opening, closing) :: pairs =>
      (s.extract pos opening.start).map .plain ++
        .code (s.extract opening.start closing.stop) :: cutSpans s closing.stop pairs

theorem codes_cutSpans (pairs : List (Run × Run)) :
    codes (cutSpans s pos pairs) = pairs.map fun p => s.extract p.1.start p.2.stop := by
  induction pairs generalizing pos with
  | nil => exact codes_map_plain _
  | cons p pairs ih =>
      rw [cutSpans, codes_append, codes_map_plain, List.nil_append, codes_code, ih, List.map_cons]

section
variable (front w : List α)

theorem extract_append (s : List α) : (front ++ (w ++ s)).extract front.length (front ++ w).length = w := by
  rw [List.extract_eq_take_drop, List.drop_left, List.length_append, Nat.add_sub_cancel_left, List.take_left]

/-- Where no pair begins yet, symbols are symbols. -/
theorem cutSpans_append {pairs : List (Run × Run)} (h : ∀ p ∈ pairs, (front ++ w).length ≤ p.1.start) :
    cutSpans (front ++ (w ++ s)) front.length pairs =
      w.map .plain ++ cutSpans (front ++ w ++ s) (front ++ w).length pairs := by
  cases pairs with
  | nil =>
      rw [cutSpans, cutSpans, List.drop_left, List.drop_left, List.map_append]
  | cons p pairs =>
      obtain ⟨k, hk⟩ := Nat.exists_eq_add_of_le (h p List.mem_cons_self)
      have hextract : (front ++ (w ++ s)).extract front.length p.1.start =
          w ++ (front ++ w ++ s).extract (front ++ w).length p.1.start := by
        rw [hk, List.extract_eq_take_drop, List.extract_eq_take_drop, List.drop_left, List.drop_left,
          Nat.add_sub_cancel_left, List.length_append, Nat.add_assoc, Nat.add_sub_cancel_left, List.take_append,
          List.take_of_length_le (Nat.le_add_right ..), Nat.add_sub_cancel_left]
      rw [cutSpans, cutSpans, hextract, List.map_append, List.append_assoc, List.append_assoc front w]

theorem cutSpans_runsFrom_append (t : List α) :
    cutSpans (front ++ (w ++ s)) front.length (pairRuns (runsFrom tick (front ++ w).length t)) =
      w.map .plain ++ cutSpans (front ++ w ++ s) (front ++ w).length (pairRuns (runsFrom tick (front ++ w).length t)) :=
  cutSpans_append front w fun _ hp => le_start_of_mem_runsFrom (mem_of_mem_pairRuns hp)

end

/-- The spans that are read are those that the pairs of runs delimit. -/
theorem spanParts_eq_cutSpans (front s : List α) :
    spanParts tick s = cutSpans (front ++ s) front.length (pairRuns (runsFrom tick front.length s)) := by
  fun_induction spanParts tick s generalizing front with
  | case1 => rw [runsFrom_nil, pairRuns, cutSpans, List.drop_left, List.map_nil]
  | case2 a s ha through rest hs ih =>
      -- The second run of the pair ends where the span does.
      obtain ⟨before, hlength, hfound⟩ := dropWhile_runsFrom (front.length + ((s.takeWhile tick).length + 1)) hs
      have hrow : a :: s = a :: s.takeWhile tick ++ through ++ rest := by
        rw [List.append_assoc, ← throughRun?_eq hs, run_append_dropWhile]
      have hstop : front.length + ((s.takeWhile tick).length + 1) + through.length =
          (front ++ (a :: s.takeWhile tick ++ through)).length := by
        rw [List.length_append, List.length_append, List.length_cons, Nat.add_assoc]
      have hempty : (front ++ (a :: s.takeWhile tick ++ through ++ rest)).extract front.length front.length = [] := by
        rw [List.extract_eq_take_drop, Nat.sub_self, List.take_zero]
      rw [runsFrom, if_pos ha, pairRuns_of_dropWhile_eq_cons hfound, cutSpans, Run.stop, Nat.add_assoc, ← hlength,
        hstop, hrow, extract_append, hempty, ih (front ++ (a :: s.takeWhile tick ++ through)), List.append_assoc]
      rfl
  | case3 a s ha hs ih =>
      have hlength : (front ++ (a :: s.takeWhile tick)).length = front.length + ((s.takeWhile tick).length + 1) :=
        List.length_append
      rw [ih (front ++ (a :: s.takeWhile tick)), ← cutSpans_runsFrom_append, run_append_dropWhile, runsFrom,
        if_pos ha, pairRuns_of_dropWhile_eq_nil (dropWhile_runsFrom_eq_nil hs), hlength]
  | case4 a s ha ih =>
      have hlength : (front ++ [a]).length = front.length + 1 := List.length_append
      rw [ih (front ++ [a]), runsFrom_cons_of_not ha, ← hlength]
      exact (cutSpans_runsFrom_append front [a] s).symm

/-- The runs of backticks of a text, in order. -/
def tickRuns (text : Text) : List Run := runsFrom isTick 0 text

/-- In a text without blocks, what is hidden are the spans from the start of a run to the end of the run
that it is paired with; all else stays, character by character. -/
theorem hide_eq_cutSpans (text : Text) (h : (hide text).2.fenced = []) :
    ((∀ r, r ∈ tickRuns text ↔ IsRun isTick text r) ∧
      (tickRuns text).Pairwise fun r later => r.stop < later.start) ∧
    (hide text).2.inline = (pairRuns (tickRuns text)).map (fun p => text.extract p.1.start p.2.stop) ∧
    (hide text).1 = placeholdersFrom inlinePlaceholder 0 (cutSpans text 0 (pairRuns (tickRuns text))) ∧
    segmentsText (cutSpans text 0 (pairRuns (tickRuns text))) = text := by
  have hparts : spanParts isTick text = cutSpans text 0 (pairRuns (tickRuns text)) := spanParts_eq_cutSpans [] text
  have hhide : hide text = ((hideInline text).1, ⟨[], (hideInline text).2⟩) := by
    rw [hide, hideFenced_of_codes_eq_nil h]
  refine ⟨⟨fun r => ?_, pairwise_runsFrom⟩, ?_, ?_, ?_⟩
  · rw [tickRuns, mem_runsFrom_iff]
    simp
  · rw [hhide, hideInline, hparts]
    exact codes_cutSpans _
  · rw [hhide, hideInline, hparts]
  · rw [← hparts, segmentsText_spanParts]

/-- A run within a span is not paired, and one with no later run of its length is text. -/
theorem hide_of_nested_runs :
    let text := "\x60\x60\x60 \x60\x60a\x60\nb\x60\x60\x60\x60 \x60\x60 \x60".toList
    (hide text).2.inline = ["\x60\x60a\x60\nb\x60\x60\x60\x60 \x60\x60".toList] ∧
      (hide text).1 = "\x60\x60\x60 __INLINE_CODE_0__ \x60".toList := by
  intro text
  obtain ⟨-, hinline, hmasked, -⟩ := hide_eq_cutSpans text (by decide +kernel)
  rw [hinline, hmasked]
  decide +kernel

end MarkdownLinks.Code
