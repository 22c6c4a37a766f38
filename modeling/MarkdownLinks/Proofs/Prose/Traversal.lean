import MarkdownLinks.Proofs.Prose.Region

/-! Reading past fenced regions line by line. A reader who goes from line to line and remembers only the
backticks that close the block it is in sees exactly the lines outside all regions, and what it remembers
between two lines is the marker of the region that is open there. One lemma says what a step does at each
kind of line; the others follow the regions from there. -/

namespace MarkdownLinks

open Region

/-- The place behind some lines. -/
def Fence.behind (place : Fence) (ls : List Text) : Fence := ls.foldl (fun place l => (place.step l).1) place

theorem Fence.behind_cons (place : Fence) (l : Text) (ls : List Text) :
    place.behind (l :: ls) = Fence.behind (place.step l).1 ls := rfl

theorem Fence.behind_append (place : Fence) (ls more : List Text) :
    place.behind (ls ++ more) = (place.behind ls).behind more := List.foldl_append

/-- Lines with their numbers, from `n` on. -/
def numberFrom (n : Nat) (ls : List Text) : List Line := (ls.zipIdx n).map fun (text, number) => ⟨number, text⟩

/-- A line with its number as a row of a numbered list. -/
def Line.row (l : Line) : Text × Nat := (l.text, l.number)

theorem map_row_numberFrom (n : Nat) (ls : List Text) : (numberFrom n ls).map Line.row = ls.zipIdx n := by
  rw [numberFrom, List.map_map]
  exact List.map_id _

/-- Lines that are left out by their numbers are so as rows. -/
theorem map_row_filter (p : Nat → Bool) (n : Nat) (ls : List Text) :
    ((numberFrom n ls).filter fun l => p l.number).map Line.row = (ls.zipIdx n).filter fun row => p row.2 := by
  rw [← map_row_numberFrom, List.filter_map]
  rfl

/-- Without fences to respect, every line of the document is read. -/
theorem proseLines_ignore_eq (content : Text) : proseLines .ignore content = numberFrom 1 (lines content) := rfl

theorem proseLines_respect_eq (content : Text) :
    proseLines .respect content = proseFrom .outside (numberFrom 1 (lines content)) := rfl

theorem numberFrom_cons (n : Nat) (l : Text) (ls : List Text) :
    numberFrom n (l :: ls) = ⟨n, l⟩ :: numberFrom (n + 1) ls := rfl

theorem numberFrom_append (n : Nat) (ls more : List Text) :
    numberFrom n (ls ++ more) = numberFrom n ls ++ numberFrom (n + ls.length) more := by
  rw [numberFrom, List.zipIdx_append, List.map_append]
  rfl

theorem number_of_mem_numberFrom {n : Nat} {ls : List Text} {l : Line} (h : l ∈ numberFrom n ls) :
    n ≤ l.number ∧ l.number < n + ls.length := by
  obtain ⟨⟨text, number⟩, hmem, rfl⟩ := List.mem_map.1 h
  exact ⟨List.le_snd_of_mem_zipIdx hmem, List.snd_lt_add_of_mem_zipIdx hmem⟩

theorem getElem?_of_mem_numberFrom {n : Nat} {ls : List Text} {l : Line} (h : l ∈ numberFrom n ls) :
    ls[l.number - n]? = some l.text := by
  obtain ⟨⟨text, number⟩, hmem, rfl⟩ := List.mem_map.1 h
  exact (List.mem_zipIdx_iff_le_and_getElem?_sub.1 hmem).2

theorem pairwise_numberFrom (n : Nat) (ls : List Text) :
    (numberFrom n ls).Pairwise fun l m => l.number < m.number := by
  induction ls generalizing n with
  | nil => exact List.Pairwise.nil
  | cons l ls ih =>
      rw [numberFrom_cons]
      exact List.pairwise_cons.2 ⟨fun m hm => (number_of_mem_numberFrom hm).1, ih (n + 1)⟩

/-- A reader sees lines of the document, in the order in which they stand there. -/
theorem proseFrom_sublist (place : Fence) (ls : List Line) : (proseFrom place ls).Sublist ls := by
  induction ls generalizing place with
  | nil => exact List.Sublist.refl []
  | cons l ls ih =>
      rw [proseFrom]
      split
      · exact (ih _).cons_cons l
      · exact (ih _).cons l

theorem proseLines_sublist (policy : FencePolicy) (content : Text) :
    (proseLines policy content).Sublist (numberFrom 1 (lines content)) := by
  cases policy with
  | respect => exact proseFrom_sublist .outside (numberFrom 1 (lines content))
  | ignore => exact List.Sublist.refl _

section
variable {l : Text} {k : Nat} {ls interior : List Text}

theorem Fence.step_of_plain (hl : opening? l = none) : Fence.step l .outside = (.outside, false) := by
  have hrun : ¬Fence.minRun ≤ (Fence.run l).length := by
    intro hlen
    rw [opening?] at hl
    exact absurd ((if_pos hlen).symm.trans hl) (Option.some_ne_none _)
  rw [Fence.step, if_neg hrun]

theorem Fence.step_of_opening (hl : opening? l = some k) :
    Fence.step l .outside = (.inside (some (marker k)), true) := by
  obtain ⟨hk, hrun⟩ := run_of_opening? hl
  have hlength : Fence.minRun ≤ (Fence.run l).length := by rwa [hrun, length_marker]
  rw [Fence.step, if_pos hlength, hrun]

theorem Fence.step_of_closing (hl : closes k l) :
    Fence.step l (.inside (some (marker k))) = (.outside, true) := by
  rw [Fence.step, if_pos (congrArg some (beq_iff_eq.1 hl).symm)]

theorem Fence.step_of_interior (hl : closes k l = false) :
    Fence.step l (.inside (some (marker k))) = (.inside (some (marker k)), false) := by
  rw [Fence.step, if_neg fun h => ?_]
  rw [closes, ← Option.some.inj h, beq_self_eq_true] at hl
  cases hl

/-- No line between the two fences of a region leads out of it. -/
theorem Fence.behind_interior (hinterior : ∀ d ∈ interior, closes k d = false) :
    Fence.behind (.inside (some (marker k))) interior = .inside (some (marker k)) := by
  induction interior with
  | nil => rfl
  | cons d interior ih =>
      rw [Fence.behind_cons, Fence.step_of_interior (hinterior d List.mem_cons_self)]
      exact ih fun e he => hinterior e (List.mem_cons_of_mem d he)

/-- A reader passes a line that opens a block, closes one or stands inside one. -/
theorem proseFrom_of_fence {place next : Fence} {fence : Bool} (hstep : Fence.step l place = (next, fence))
    (hnot : next ≠ .outside ∨ fence) (n : Nat) (ls : List Text) :
    proseFrom place (numberFrom n (l :: ls)) = proseFrom next (numberFrom (n + 1) ls) := by
  have hprose : Fence.isProse l place = false := by
    rw [Fence.isProse, hstep]
    split <;> simp_all
  rw [numberFrom_cons, proseFrom]
  dsimp only
  rw [hprose, if_neg (by decide), hstep]

theorem proseFrom_interior (hinterior : ∀ d ∈ interior, closes k d = false) (n : Nat) (ls : List Text) :
    proseFrom (.inside (some (marker k))) (numberFrom n (interior ++ ls)) =
      proseFrom (.inside (some (marker k))) (numberFrom (n + interior.length) ls) := by
  induction interior generalizing n with
  | nil => rfl
  | cons d interior ih =>
      have hstep := Fence.step_of_interior (hinterior d List.mem_cons_self)
      rw [List.cons_append, proseFrom_of_fence hstep (Or.inl Fence.noConfusion),
        ih (fun e he => hinterior e (List.mem_cons_of_mem d he)), List.length_cons]
      congr 2
      omega

end

theorem proseFrom_of_plain {l : Text} (hl : opening? l = none) (n : Nat) (ls : List Text) :
    proseFrom .outside (numberFrom n (l :: ls)) = ⟨n, l⟩ :: proseFrom .outside (numberFrom (n + 1) ls) := by
  have hstep := Fence.step_of_plain hl
  have hprose : Fence.isProse l .outside = true := by rw [Fence.isProse, hstep]
  rw [numberFrom_cons, proseFrom]
  dsimp only
  rw [hprose, if_pos rfl, hstep]

/-- A reader passes a whole region. -/
theorem proseFrom_of_closed {l c : Text} {k : Nat} {interior : List Text} (hl : opening? l = some k)
    (hinterior : ∀ d ∈ interior, closes k d = false) (hc : closes k c) (n : Nat) (rest : List Text) :
    proseFrom .outside (numberFrom n (l :: (interior ++ c :: rest))) =
      proseFrom .outside (numberFrom (n + interior.length + 2) rest) := by
  rw [proseFrom_of_fence (Fence.step_of_opening hl) (Or.inr rfl), proseFrom_interior hinterior,
    proseFrom_of_fence (Fence.step_of_closing hc) (Or.inr rfl)]
  congr 2
  omega

theorem proseFrom_of_unclosed {l : Text} {k : Nat} {ls : List Text} (hl : opening? l = some k)
    (hls : ∀ d ∈ ls, closes k d = false) (n : Nat) : proseFrom .outside (numberFrom n (l :: ls)) = [] := by
  have hinterior := proseFrom_interior hls (n + 1) []
  rw [List.append_nil] at hinterior
  rw [proseFrom_of_fence (Fence.step_of_opening hl) (Or.inr rfl), hinterior]
  rfl

theorem le_first_of_mem_regionsFrom {n : Nat} {ls : List Text} {r : Region} (h : r ∈ regionsFrom n ls) :
    n ≤ r.first := by
  induction ls using regions_induction generalizing n with
  | nil => simp [regionsFrom] at h
  | plain l ls hl ih =>
      rw [regionsFrom_of_plain hl] at h
      exact Nat.le_of_succ_le (ih h)
  | unclosed l ls k hl hls =>
      rw [regionsFrom_of_unclosed hl hls, List.mem_singleton] at h
      rw [h]
  | closed l interior c rest k hl hinterior hc ih =>
      rw [regionsFrom_of_closed hl hinterior hc, List.mem_cons] at h
      rcases h with rfl | h
      · exact Nat.le_refl _
      · have hle := ih h
        omega

theorem liesOutside_of_lt {rs : List Region} {n : Nat} (h : ∀ r ∈ rs, n < r.first) : liesOutside rs n := by
  refine List.all_eq_true.2 fun r hr => ?_
  simp [Region.covers, Nat.not_le.2 (h r hr)]

theorem placeBefore_of_le {rs : List Region} {n : Nat} (h : ∀ r ∈ rs, n ≤ r.first) :
    placeBefore rs n = .outside := by
  have hnone : rs.find? (·.isOpenBefore n) = none := by
    refine List.find?_eq_none.2 fun r hr => ?_
    simp [Region.isOpenBefore, Nat.not_lt.2 (h r hr)]
  rw [placeBefore, hnone]

/-- A reader that starts outside all regions sees the lines that lie outside them. -/
theorem proseFrom_eq_filter (n : Nat) (ls : List Text) :
    proseFrom .outside (numberFrom n ls) =
      (numberFrom n ls).filter fun l => liesOutside (regionsFrom n ls) l.number := by
  induction ls using regions_induction generalizing n with
  | nil => rfl
  | plain l ls hl ih =>
      have hout : liesOutside (regionsFrom (n + 1) ls) n :=
        liesOutside_of_lt fun r hr => le_first_of_mem_regionsFrom hr
      rw [proseFrom_of_plain hl, ih, regionsFrom_of_plain hl, numberFrom_cons, List.filter_cons, if_pos hout]
  | unclosed l ls k hl hls =>
      rw [proseFrom_of_unclosed hl hls, regionsFrom_of_unclosed hl hls]
      refine (List.filter_eq_nil_iff.2 fun d hd => ?_).symm
      simp [liesOutside, Region.covers, (number_of_mem_numberFrom hd).1]
  | closed l interior c rest k hl hinterior hc ih =>
      rw [proseFrom_of_closed hl hinterior hc, ih, regionsFrom_of_closed hl hinterior hc]
      have hlines : l :: (interior ++ c :: rest) = (l :: interior ++ [c]) ++ rest := by simp
      have hlength : (l :: interior ++ [c]).length = interior.length + 2 := by simp
      rw [hlines, numberFrom_append, List.filter_append, hlength, ← Nat.add_assoc]
      -- The lines of the region are covered by it, and it covers no line behind them.
      have hregion : (numberFrom n (l :: interior ++ [c])).filter (fun d => liesOutside
          (⟨n, k, some (n + interior.length + 1)⟩ :: regionsFrom (n + interior.length + 2) rest) d.number) = [] := by
        refine List.filter_eq_nil_iff.2 fun d hd => ?_
        have hnumber := number_of_mem_numberFrom hd
        rw [hlength] at hnumber
        have hle : d.number ≤ n + interior.length + 1 := by omega
        simp [liesOutside, Region.covers, hnumber.1, hle]
      rw [hregion, List.nil_append]
      refine List.filter_congr fun d hd => ?_
      have hlt : n + interior.length + 1 < d.number := (number_of_mem_numberFrom hd).1
      simp [liesOutside, Region.covers, Nat.not_le.2 hlt]

theorem placeBefore_cons_of_open {r : Region} {rs : List Region} {n : Nat} (h : r.isOpenBefore n) :
    placeBefore (r :: rs) n = .inside (some (marker r.length)) := by
  simp [placeBefore, h]

theorem placeBefore_cons_of_not_open {r : Region} {rs : List Region} {n : Nat} (h : ¬r.isOpenBefore n) :
    placeBefore (r :: rs) n = placeBefore rs n := by
  simp [placeBefore, h]

/-- Behind some lines a reader is in the region that is open there. -/
theorem behind_take_eq (n i : Nat) (ls : List Text) :
    Fence.outside.behind (ls.take i) = placeBefore (regionsFrom n ls) (n + i) := by
  induction ls using regions_induction generalizing n i with
  | nil =>
      rw [List.take_nil, regionsFrom]
      rfl
  | plain l ls hl ih =>
      rw [regionsFrom_of_plain hl]
      cases i with
      | zero => exact (placeBefore_of_le fun r hr => Nat.le_of_succ_le (le_first_of_mem_regionsFrom hr)).symm
      | succ i =>
          rw [List.take_succ_cons, Fence.behind_cons, Fence.step_of_plain hl, ih (n + 1) i, Nat.add_right_comm,
            Nat.add_assoc]
  | unclosed l ls k hl hls =>
      rw [regionsFrom_of_unclosed hl hls]
      cases i with
      | zero => exact (placeBefore_of_le fun r hr => by simp_all).symm
      | succ i =>
          have hopen : (⟨n, k, none⟩ : Region).isOpenBefore (n + (i + 1)) := by
            simp [Region.isOpenBefore]
          rw [placeBefore_cons_of_open hopen, List.take_succ_cons, Fence.behind_cons, Fence.step_of_opening hl]
          exact Fence.behind_interior fun d hd => hls d (List.mem_of_mem_take hd)
  | closed l interior c rest k hl hinterior hc ih =>
      rw [regionsFrom_of_closed hl hinterior hc]
      have hfirst : ∀ r ∈ regionsFrom (n + interior.length + 2) rest, n ≤ r.first := fun r hr =>
        Nat.le_trans (by omega) (le_first_of_mem_regionsFrom hr)
      cases i with
      | zero => exact (placeBefore_of_le (List.forall_mem_cons.2 ⟨Nat.le_refl n, hfirst⟩)).symm
      | succ i =>
          rw [List.take_succ_cons, Fence.behind_cons, Fence.step_of_opening hl]
          by_cases hi : i ≤ interior.length
          · have hopen : (⟨n, k, some (n + interior.length + 1)⟩ : Region).isOpenBefore (n + (i + 1)) := by
              simp [Region.isOpenBefore]
              omega
            rw [placeBefore_cons_of_open hopen, List.take_append_of_le_length hi]
            exact Fence.behind_interior fun d hd => hinterior d (List.mem_of_mem_take hd)
          · obtain ⟨j, rfl⟩ : ∃ j, i = interior.length + (j + 1) := ⟨i - interior.length - 1, by omega⟩
            have hclosed : ¬(⟨n, k, some (n + interior.length + 1)⟩ : Region).isOpenBefore
                (n + (interior.length + (j + 1) + 1)) := by
              simp [Region.isOpenBefore]
              omega
            rw [placeBefore_cons_of_not_open hclosed, List.take_length_add_append, List.take_succ_cons,
              Fence.behind_append, Fence.behind_interior hinterior, Fence.behind_cons, Fence.step_of_closing hc,
              ih (n + interior.length + 2) j]
            congr 1
            omega

/-- What is made of the elements that pass a test is what passes a test of what is made of all, if that
test agrees with the first. -/
theorem flatMap_filter_eq {α β : Type} {f : α → List β} {p : α → Bool} {q : β → Bool}
    (h : ∀ a, ∀ b ∈ f a, q b = p a) (s : List α) : (s.filter p).flatMap f = (s.flatMap f).filter q := by
  induction s with
  | nil => rfl
  | cons a s ih =>
      rw [List.flatMap_cons, List.filter_append, ← ih]
      cases hp : p a with
      | true =>
          rw [List.filter_cons_of_pos hp, List.flatMap_cons,
            List.filter_eq_self.2 fun b hb => (h a b hb).trans hp]
      | false =>
          have hnil : (f a).filter q = [] := List.filter_eq_nil_iff.2 fun b hb => by
            rw [h a b hb, hp]
            decide
          rw [List.filter_cons_of_neg (by rw [hp]; decide), hnil, List.nil_append]

theorem line_of_mem_unescapedIssuesOfLine {file : Text} {line : Line} {issue : Issue}
    (h : issue ∈ Check.unescapedIssuesOfLine file line) : issue.line = line.number := by
  rcases Check.mem_unescapedIssuesOfLine_iff.1 h with ⟨link, -, rfl⟩ | ⟨target, -, rfl⟩
  · rfl
  · rfl

/-- The lines that a check looks at are the lines of the document with their numbers, counted from one: all of
them, or, past fences, those outside the fenced regions. -/
theorem map_row_proseLines (content : Text) :
    (proseLines .ignore content).map Line.row = (lines content).zipIdx 1 ∧
      (proseLines .respect content).map Line.row =
        ((lines content).zipIdx 1).filter fun row => liesOutside (regions content) row.2 := by
  refine ⟨map_row_numberFrom 1 (lines content), ?_⟩
  rw [proseLines_respect_eq, proseFrom_eq_filter, map_row_filter]
  rfl

/-- What the check on targets reports, row by row. -/
theorem unescapedIssues_eq_flatMap {policy : FencePolicy} {content : Text} {rows : List (Text × Nat)}
    (h : (proseLines policy content).map Line.row = rows) (file : Text) :
    Check.unescapedIssues policy file content =
      rows.flatMap fun (text, number) => Check.unescapedIssuesOfLine file ⟨number, text⟩ := by
  rw [← h, List.flatMap_map]
  rfl

/-- Reading past fences is reading the lines outside the fenced regions, by their numbers from one on: those are
the lines that a check looks at, the place between two lines is in the region that is open there, and the check on
targets, which otherwise looks at every line, finds what it finds on all lines, less what it finds inside
regions. -/
theorem proseLines_respect_eq_filter (content : Text) :
    let rows := (lines content).zipIdx 1
    (proseLines .respect content).map (fun l => (l.text, l.number)) =
        rows.filter (fun row => liesOutside (regions content) row.2) ∧
      (∀ n, Fence.outside.behind ((lines content).take n) = placeBefore (regions content) (n + 1)) ∧
      ∀ file,
        Check.unescapedIssues .ignore file content =
            rows.flatMap (fun (text, number) => Check.unescapedIssuesOfLine file ⟨number, text⟩) ∧
          Check.unescapedIssues .respect file content =
            (Check.unescapedIssues .ignore file content).filter
              fun issue => liesOutside (regions content) issue.line := by
  intro rows
  obtain ⟨hall, hprose⟩ := map_row_proseLines content
  refine ⟨hprose, fun n => ?_, fun file => ⟨unescapedIssues_eq_flatMap hall file, ?_⟩⟩
  · rw [behind_take_eq 1 n, Nat.add_comm 1 n, regions]
  · rw [unescapedIssues_eq_flatMap hall, unescapedIssues_eq_flatMap hprose]
    refine flatMap_filter_eq (fun row issue hissue => ?_) rows
    rw [line_of_mem_unescapedIssuesOfLine hissue]

-- A longer fence shows a shorter one, and no line closes the last one.
example :
    regions "\x60\x60\x60\x60\n\x60\x60\x60\n\x60\x60\x60\x60\na\n\x60\x60\x60\nb".toList =
      [⟨1, 4, some 3⟩, ⟨5, 3, none⟩] := by
  decide +kernel

end MarkdownLinks
