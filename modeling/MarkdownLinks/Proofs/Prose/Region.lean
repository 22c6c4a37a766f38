import Mathlib.Data.List.TakeWhile
import MarkdownLinks.Check.Unescaped
import MarkdownLinks.Proofs.Code.Runs

/-! The fenced regions of a document. A line that begins with three or more backticks, blanks aside, opens
a region. The region reaches through the first later line that holds just as many backticks and nothing
else, blanks aside, or to the end if there is no such line; the next region begins behind it. Lines are
therefore of three kinds: lines outside regions, opening lines that no later line closes, and opening
lines with what stands up to the first line that closes them. -/

namespace MarkdownLinks

/-- A fenced region: the number of the line that opens it, the length of its marker, and the number of
the line that closes it, if one does. -/
structure Region where
  first : Nat
  length : Nat
  last : Option Nat
  deriving DecidableEq

namespace Region

/-- The marker of a region: the backticks that open it and close it. -/
def marker (length : Nat) : Text := List.replicate length '\x60'

/-- How many backticks open a region, if a line opens one. -/
def opening? (line : Text) : Option Nat :=
  let run := (trimStart line).takeWhile (· == '\x60')
  if 3 ≤ run.length then some run.length else none

/-- Whether a line closes a region that so many backticks opened. -/
def closes (length : Nat) (line : Text) : Bool := trim line == marker length

/-- Whether the line with a number belongs to the region. -/
def covers (r : Region) (n : Nat) : Bool := r.first ≤ n && r.last.all (n ≤ ·)

/-- Whether the region is open in front of the line with a number: it has begun and has not ended. -/
def isOpenBefore (r : Region) (n : Nat) : Bool := r.first < n && r.last.all (n ≤ ·)

end Region

open Region

/-- The regions of some lines, the first of which has the number `n`. -/
def regionsFrom (n : Nat) : List Text → List Region
  | [] => []
  | l :: ls =>
      match opening? l with
      | none => regionsFrom (n + 1) ls
      | some k =>
          let interior := ls.takeWhile fun l => !closes k l
          match _ : ls.dropWhile fun l => !closes k l with
          | [] => [⟨n, k, none⟩]
          | _ :: rest =>
              ⟨n, k, some (n + interior.length + 1)⟩ :: regionsFrom (n + interior.length + 2) rest
termination_by ls => ls.length
decreasing_by
  · exact Nat.lt_succ_self _
  · have hle := (List.dropWhile_sublist (l := ls) fun l => !closes k l).length_le
    simp_all
    omega

/-- The regions of a document. -/
def regions (content : Text) : List Region := regionsFrom 1 (lines content)

/-- Whether the line with a number lies outside all regions. -/
def liesOutside (rs : List Region) (n : Nat) : Bool := rs.all fun r => !r.covers n

/-- The place in front of the line with a number: in the region that is open there, or outside. -/
def placeBefore (rs : List Region) (n : Nat) : Fence :=
  match rs.find? (·.isOpenBefore n) with
  | some r => .inside (some (marker r.length))
  | none => .outside

theorem length_marker (k : Nat) : (marker k).length = k := List.length_replicate

theorem tick_of_mem_marker {k : Nat} : ∀ c ∈ marker k, c == '\x60' :=
  fun _ hc => beq_iff_eq.2 (List.eq_of_mem_replicate hc)

theorem unticked_of_not_mem_head? {s : Text} (h : '\x60' ∉ s.head?) : Code.Unticked (· == '\x60') s := by
  refine fun c hc => beq_eq_false_iff_ne.2 ?_
  rintro rfl
  exact h hc

theorem run_eq_marker_iff {line : Text} {k : Nat} :
    Fence.run line = marker k ↔ ∃ info, trimStart line = marker k ++ info ∧ '\x60' ∉ info.head? := by
  constructor
  · intro h
    refine ⟨(trimStart line).dropWhile (· == '\x60'), ?_, fun hmem => ?_⟩
    · rw [← h, Fence.run, List.takeWhile_append_dropWhile]
    · exact absurd (Code.Unticked.dropWhile (trimStart line) _ hmem) (by decide)
  · rintro ⟨info, hline, hinfo⟩
    rw [Fence.run, hline, Code.takeWhile_run_append tick_of_mem_marker (unticked_of_not_mem_head? hinfo)]

theorem run_of_opening? {line : Text} {k : Nat} (h : opening? line = some k) :
    3 ≤ k ∧ Fence.run line = marker k := by
  rw [opening?] at h
  split at h
  · cases h
    refine ⟨by assumption, List.eq_replicate_iff.2 ⟨rfl, fun c hc => ?_⟩⟩
    exact beq_iff_eq.1 (List.all_eq_true.1 List.all_takeWhile c hc)
  · cases h

/-- A line opens a region with so many backticks if a longest run of that many, at least three, stands
behind its blanks. -/
theorem opening?_eq_some_iff {line : Text} {k : Nat} :
    opening? line = some k ↔ 3 ≤ k ∧ ∃ info, trimStart line = marker k ++ info ∧ '\x60' ∉ info.head? := by
  rw [← run_eq_marker_iff]
  refine ⟨run_of_opening?, fun ⟨hk, hrun⟩ => ?_⟩
  rw [Fence.run] at hrun
  rw [opening?, hrun, length_marker, if_pos hk]

section
variable {l c : Text} {k : Nat} {ls interior : List Text}

theorem takeWhile_interior (hinterior : ∀ d ∈ interior, closes k d = false) (hc : closes k c)
    (rest : List Text) :
    (interior ++ c :: rest).takeWhile (fun l => !closes k l) = interior ∧
      (interior ++ c :: rest).dropWhile (fun l => !closes k l) = c :: rest := by
  have hpos : ∀ d ∈ interior, (!closes k d) = true := fun d hd => by rw [hinterior d hd]; rfl
  rw [List.takeWhile_append_of_pos hpos, List.dropWhile_append_of_pos hpos]
  simp [hc]

theorem regionsFrom_of_plain (hl : opening? l = none) (n : Nat) :
    regionsFrom n (l :: ls) = regionsFrom (n + 1) ls := by
  rw [regionsFrom]
  split <;> simp_all

theorem regionsFrom_of_unclosed (hl : opening? l = some k) (hls : ∀ d ∈ ls, closes k d = false) (n : Nat) :
    regionsFrom n (l :: ls) = [⟨n, k, none⟩] := by
  have hdrop : ls.dropWhile (fun l => !closes k l) = [] :=
    List.dropWhile_eq_nil_iff.2 fun d hd => by rw [hls d hd]; rfl
  rw [regionsFrom]
  split
  · simp_all
  · rename_i k' hk
    obtain rfl : k = k' := Option.some.inj (hl.symm.trans hk)
    split
    · rfl
    · simp_all

theorem regionsFrom_of_closed (hl : opening? l = some k) (hinterior : ∀ d ∈ interior, closes k d = false)
    (hc : closes k c) (rest : List Text) (n : Nat) :
    regionsFrom n (l :: (interior ++ c :: rest)) =
      ⟨n, k, some (n + interior.length + 1)⟩ :: regionsFrom (n + interior.length + 2) rest := by
  obtain ⟨htake, hdrop⟩ := takeWhile_interior hinterior hc rest
  rw [regionsFrom]
  split
  · simp_all
  · rename_i k' hk
    obtain rfl : k = k' := Option.some.inj (hl.symm.trans hk)
    split
    · simp_all
    · rename_i hrest
      obtain ⟨-, rfl⟩ := List.cons.inj (hdrop.symm.trans hrest)
      rw [htake]

end

/-- Induction along the regions of some lines: a line that opens none, an opening line that no line
closes, and an opening line with the first line that closes it. -/
@[elab_as_elim] theorem regions_induction {motive : List Text → Prop} (nil : motive [])
    (plain : ∀ l ls, opening? l = none → motive ls → motive (l :: ls))
    (unclosed : ∀ l ls k, opening? l = some k → (∀ d ∈ ls, closes k d = false) → motive (l :: ls))
    (closed : ∀ l interior c rest k, opening? l = some k → (∀ d ∈ interior, closes k d = false) →
      closes k c → motive rest → motive (l :: (interior ++ c :: rest)))
    (ls : List Text) : motive ls := by
  induction hn : ls.length using Nat.strongRecOn generalizing ls with
  | ind n ih =>
      cases ls with
      | nil => exact nil
      | cons l ls =>
          have hlt : ls.length < n := by
            rw [← hn]
            exact Nat.lt_succ_self _
          cases hl : opening? l with
          | none => exact plain l ls hl (ih ls.length hlt ls rfl)
          | some k =>
              have hinterior : ∀ d ∈ ls.takeWhile (fun l => !closes k l), closes k d = false := fun d hd =>
                (Bool.not_eq_true' _).mp (List.all_eq_true.1 List.all_takeWhile d hd)
              have hls : ls.takeWhile (fun l => !closes k l) ++ ls.dropWhile (fun l => !closes k l) = ls :=
                List.takeWhile_append_dropWhile
              cases hdrop : ls.dropWhile (fun l => !closes k l) with
              | nil =>
                  rw [hdrop, List.append_nil] at hls
                  exact unclosed l ls k hl (hls ▸ hinterior)
              | cons c rest =>
                  have hc : closes k c := by
                    have hnot := List.head?_dropWhile_not (fun l => !closes k l) ls
                    rw [hdrop] at hnot
                    simpa using hnot
                  rw [hdrop] at hls
                  have hrest : rest.length < n := by
                    have hlength := congrArg List.length hls
                    rw [List.length_append, List.length_cons] at hlength
                    omega
                  rw [← hls]
                  exact closed l _ c rest k hl hinterior hc (ih rest.length hrest rest rfl)

end MarkdownLinks
