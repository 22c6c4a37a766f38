import MarkdownLinks.Proofs.Check.RawText
import MarkdownLinks.Proofs.Code.FewerTicks
import Mathlib.Data.Nat.Bits

/-! Lines with one code span, between two runs of backticks of any length. Hiding code takes the whole span
out of such a line. The check on link texts deletes what stands between two backticks that follow each other
instead, so it sees the content in part: backtick by backtick the content is alternately deleted and left,
and it begins deleted exactly if the runs are of odd length. Nothing is reported where no opening bracket is
left. That covers every content without backticks between runs of odd length; between runs of even length
such a content is checked as if the backticks were not there. -/

namespace MarkdownLinks

namespace Code

variable {α : Type} {tick : α → Bool}

/-- A run is not found in a row that has none of its length and does not end with a tick. -/
theorem throughRun?_append_of_not_mem {n : Nat} {s : List α} (h : n ∉ runLengths tick s)
    (hlast : ∀ a ∈ s.getLast?, tick a = false) (t : List α) :
    throughRun? tick n (s ++ t) = (throughRun? tick n t).map fun (through, rest) => (s ++ through, rest) := by
  fun_induction throughRun? tick n s with
  | case1 => exact Option.map_id'.symm
  | case2 a s ha hn => exact absurd (by rw [runLengths, if_pos ha, hn]; exact List.mem_cons_self) h
  | case3 a s ha hn ih =>
      rw [runLengths, if_pos ha, List.mem_cons, not_or] at h
      have heq : a :: s = a :: s.takeWhile tick ++ s.dropWhile tick := (run_append_dropWhile a s).symm
      have hne : s.dropWhile tick ≠ [] := fun hnil => by
        have hmem := List.getLast_mem_getLast? (List.cons_ne_nil a s)
        have hrun : (a :: s).getLast (List.cons_ne_nil a s) ∈ a :: s.takeWhile tick := by
          rw [← List.append_nil (a :: s.takeWhile tick), ← hnil, ← heq]
          exact List.getLast_mem _
        have htick := tick_of_mem_run ha _ hrun
        rw [hlast _ hmem] at htick
        cases htick
      have hbehind : Unticked tick (s.dropWhile tick ++ t) := fun b hb => by
        rw [List.head?_append_of_ne_nil _ hne] at hb
        exact Unticked.dropWhile s b hb
      have hlast' : ∀ b ∈ (s.dropWhile tick).getLast?, tick b = false := fun b hb => by
        rw [heq, List.getLast?_append_of_ne_nil _ hne] at hlast
        exact hlast b hb
      rw [heq, List.append_assoc, throughRun?_run_append (tick_of_mem_run ha) hbehind, if_neg hn, ih h.2 hlast',
        Option.map_map]
      congr 1
      funext p
      obtain ⟨through, rest⟩ := p
      simp only [Function.comp, List.append_assoc]
  | case4 a s ha ih =>
      rw [runLengths_cons_of_not ha] at h
      have hlast' : ∀ b ∈ s.getLast?, tick b = false := fun b hb => hlast b (List.mem_getLast?_cons hb)
      rw [List.cons_append, throughRun?, if_neg ha, ih h hlast', Option.map_map]
      rfl

/-- The only span of a row that has a run of ticks in front of some content and another behind it, and no
other ticks around them. -/
theorem spanParts_delimited {before content behind run : List α} {a : α} (hrun : ∀ b ∈ a :: run, tick b)
    (hbefore : ∀ b ∈ before, tick b = false) (hbehind : ∀ b ∈ behind, tick b = false) (hne : content ≠ [])
    (hhead : Unticked tick content) (hlast : ∀ b ∈ content.getLast?, tick b = false)
    (hruns : run.length + 1 ∉ runLengths tick content) :
    spanParts tick (before ++ (a :: run ++ (content ++ (a :: run ++ behind)))) =
      before.map .plain ++ .code (a :: run ++ (content ++ (a :: run))) :: behind.map .plain := by
  have hhead' : Unticked tick (content ++ (a :: run ++ behind)) := fun b hb => by
    rw [List.head?_append_of_ne_nil _ hne] at hb
    exact hhead b hb
  have hunticked : Unticked tick behind := fun b hb => hbehind b (List.mem_of_mem_head? hb)
  have hthrough : throughRun? tick (run.length + 1) (content ++ (a :: run ++ behind)) =
      some (content ++ (a :: run), behind) := by
    rw [throughRun?_append_of_not_mem hruns hlast, throughRun?_run_append hrun hunticked, if_pos rfl, Option.map_some]
  have hplain : spanParts tick behind = behind.map .plain := by
    rw [← List.append_nil behind, spanParts_append_of_not hbehind, spanParts, List.append_nil, List.append_nil]
  rw [spanParts_append_of_not hbefore, spanParts_run_append hrun hhead', hthrough]
  exact congrArg _ (congrArg _ hplain)

end Code

namespace Check

open Code

/-- What is left of a text when what stands between two backticks that follow each other is deleted, and the
backticks with it; `inside` says whether the text begins behind such a first backtick. -/
def outsidePairs (inside : Bool) : Text → Text
  | [] => []
  | c :: s =>
      if c = '\x60' then outsidePairs (!inside) s
      else if inside then outsidePairs inside s else c :: outsidePairs inside s

theorem outsidePairs_append (inside : Bool) (s t : Text) :
    outsidePairs inside (s ++ t) = outsidePairs inside s ++ outsidePairs (inside ^^ (s.count '\x60').bodd) t := by
  induction s generalizing inside with
  | nil => simp [outsidePairs]
  | cons c s ih =>
      rw [List.cons_append, outsidePairs, outsidePairs]
      by_cases hc : c = '\x60'
      · rw [if_pos hc, if_pos hc, ih, hc, List.count_cons_self, Nat.bodd_succ]
        cases inside <;> simp
      · rw [if_neg hc, if_neg hc, List.count_cons_of_ne hc, ih]
        cases inside <;> rfl

theorem outsidePairs_of_not_mem {s : Text} (h : '\x60' ∉ s) (inside : Bool) :
    outsidePairs inside s = if inside then [] else s := by
  induction s with
  | nil => cases inside <;> rfl
  | cons c s ih =>
      rw [List.mem_cons, not_or] at h
      rw [outsidePairs, if_neg (Ne.symm h.1), ih h.2]
      cases inside <;> rfl

theorem outsidePairs_replicate (n : Nat) (inside : Bool) : outsidePairs inside (List.replicate n '\x60') = [] := by
  induction n generalizing inside with
  | zero => rfl
  | succ n ih => rw [List.replicate_succ, outsidePairs, if_pos rfl, ih]

/-- A text with an even number of backticks leaves what stands outside its pairs, and so does the rest of such
a text behind the first backtick of a pair. -/
theorem withoutCodeSpans_append_of_bodd {s : Text} (hs : '\n' ∉ s) (t : Text) :
    ((s.count '\x60').bodd = false → withoutCodeSpans (s ++ t) = outsidePairs false s ++ withoutCodeSpans t) ∧
      ((s.count '\x60').bodd = true → ∀ inner, (∀ c ∈ inner, c ≠ '\x60' ∧ c ≠ '\n') →
        withoutCodeSpans ('\x60' :: (inner ++ (s ++ t))) = outsidePairs true s ++ withoutCodeSpans t) := by
  induction s with
  | nil => exact ⟨fun _ => rfl, fun h => by cases h⟩
  | cons c s ih =>
      rw [List.mem_cons, not_or] at hs
      obtain ⟨ihout, ihin⟩ := ih hs.2
      by_cases hc : c = '\x60'
      · subst hc
        rw [List.count_cons_self, Nat.bodd_succ, outsidePairs, outsidePairs, if_pos rfl, if_pos rfl]
        refine ⟨fun h => ?_, fun h inner hinner => ?_⟩
        · exact ihin (by simpa using h) [] (List.forall_mem_nil _)
        · have hread : codeSpan.read ('\x60' :: (inner ++ ('\x60' :: s ++ t))) = some ((), s ++ t) :=
            codeSpan_read_eq_some_iff.2 ⟨inner, rfl, hinner⟩
          rw [withoutCodeSpans_eq, Reader.without_of_read hread, ← withoutCodeSpans_eq]
          exact ihout (by simpa using h)
      · rw [List.count_cons_of_ne hc, outsidePairs, outsidePairs, if_neg hc, if_neg hc]
        refine ⟨fun h => ?_, fun h inner hinner => ?_⟩
        · have hnot : '\x60' ∉ [c] := fun hmem => hc (List.mem_singleton.1 hmem).symm
          rw [← List.singleton_append, List.append_assoc, withoutCodeSpans_append hnot, ihout h]
          rfl
        · rw [List.cons_append, List.append_cons, ihin h]
          · rfl
          · intro d hd
            rcases List.mem_append.1 hd with hd | hd
            · exact hinner d hd
            · rw [List.mem_singleton.1 hd]
              exact ⟨hc, Ne.symm hs.1⟩

/-- What a line with one code span is put together from. The content may hold anything but the run of backticks
that ends it. -/
structure CodeLine where
  before : Text
  ticks : Nat
  content : Text
  behind : Text
  ticks_pos : 0 < ticks
  content_head : '\x60' ∉ content.head?
  content_last : '\x60' ∉ content.getLast?
  content_runs : ticks ∉ runLengths isTick content
  content_line : '\n' ∉ content
  before_free : ∀ c ∈ before, c ≠ '\x60' ∧ c ≠ '['
  behind_free : ∀ c ∈ behind, c ≠ '\x60' ∧ c ≠ '['

namespace CodeLine

variable (l : CodeLine)

/-- The backticks on each side of the content. -/
def run : Text := List.replicate l.ticks '\x60'

/-- The line as it is written. -/
def text : Text := l.before ++ (l.run ++ (l.content ++ (l.run ++ l.behind)))

/-- The last backtick, if there is an odd number of them. -/
def looseTick : Text := if (l.content.count '\x60').bodd then ['\x60'] else []

theorem count_run : l.run.count '\x60' = l.ticks := by
  rw [run, List.count_replicate_self]

/-- The content is one span, with its backticks, and all there is. -/
theorem spanParts_text (hne : l.content ≠ []) :
    spanParts isTick l.text =
      l.before.map .plain ++ .code (l.run ++ (l.content ++ l.run)) :: l.behind.map .plain := by
  obtain ⟨n, hn⟩ : ∃ n, l.ticks = n + 1 := Nat.exists_eq_succ_of_ne_zero l.ticks_pos.ne'
  have hrun : l.run = '\x60' :: List.replicate n '\x60' := by rw [run, hn, List.replicate_succ]
  have hnot : ∀ {c : Char}, c ≠ '\x60' → isTick c = false := fun hc => by simpa [isTick] using hc
  have hruns : (List.replicate n '\x60').length + 1 ∉ runLengths isTick l.content := by
    rw [List.length_replicate, ← hn]
    exact l.content_runs
  rw [text, hrun]
  refine spanParts_delimited (fun c hc => ?_) (fun c hc => hnot (l.before_free c hc).1)
    (fun c hc => hnot (l.behind_free c hc).1) hne (fun c hc => hnot ?_) (fun c hc => hnot ?_) hruns
  · rw [← List.replicate_succ] at hc
    rw [List.eq_of_mem_replicate hc]
    rfl
  · rintro rfl
    exact l.content_head hc
  · rintro rfl
    exact l.content_last hc

/-- What is left of the line: all but the content is, and of the backticks at most one. -/
theorem withoutCodeSpans_text :
    withoutCodeSpans l.text =
      l.before ++ (outsidePairs l.ticks.bodd l.content ++ (l.looseTick ++ l.behind)) := by
  have hbefore : '\x60' ∉ l.before := fun h => (l.before_free _ h).1 rfl
  have hbehind : l.behind.count '\x60' = 0 := List.count_eq_zero.2 fun h => (l.behind_free _ h).1 rfl
  -- the pairs end with the line, or in front of its last backtick
  obtain ⟨m, hm, heven⟩ : ∃ m, l.run = List.replicate m '\x60' ++ l.looseTick ∧
      (l.ticks.bodd ^^ ((l.content.count '\x60').bodd ^^ m.bodd)) = false := by
    unfold looseTick
    cases (l.content.count '\x60').bodd with
    | false => exact ⟨l.ticks, (List.append_nil _).symm, by simp⟩
    | true =>
        obtain ⟨n, hn⟩ : ∃ n, l.ticks = n + 1 := Nat.exists_eq_succ_of_ne_zero l.ticks_pos.ne'
        refine ⟨n, by rw [run, hn, List.replicate_succ']; rfl, ?_⟩
        rw [hn, Nat.bodd_succ]
        cases n.bodd <;> rfl
  have hpairs : outsidePairs false (l.run ++ (l.content ++ List.replicate m '\x60')) =
      outsidePairs l.ticks.bodd l.content := by
    rw [outsidePairs_append, run, outsidePairs_replicate, ← run, count_run, outsidePairs_append, outsidePairs_replicate,
      List.nil_append, List.append_nil, Bool.false_xor]
  have hcount : ((l.run ++ (l.content ++ List.replicate m '\x60')).count '\x60').bodd = false := by
    rw [List.count_append, List.count_append, count_run, List.count_replicate_self, Nat.bodd_add, Nat.bodd_add]
    exact heven
  have hnewline : '\n' ∉ l.run ++ (l.content ++ List.replicate m '\x60') := by
    simp [run, l.content_line]
  have hrest : withoutCodeSpans (l.looseTick ++ l.behind) = l.looseTick ++ l.behind := by
    refine withoutCodeSpans_eq_self ?_
    rw [List.count_append, hbehind, looseTick]
    split <;> decide
  have htext : l.text =
      l.before ++ ((l.run ++ (l.content ++ List.replicate m '\x60')) ++ (l.looseTick ++ l.behind)) := by
    have hclosing : l.run ++ l.behind = List.replicate m '\x60' ++ (l.looseTick ++ l.behind) := by
      rw [← List.append_assoc, ← hm]
    rw [text, hclosing]
    simp
  rw [htext, withoutCodeSpans_append hbefore, (withoutCodeSpans_append_of_bodd hnewline _).1 hcount, hpairs, hrest]

/-- Nothing is reported where the deleted stretches cover every opening bracket of the content. -/
theorem rawLinks_text_eq_nil (h : '[' ∉ outsidePairs l.ticks.bodd l.content) : rawLinks false l.text = [] := by
  refine rawLinks_eq_nil fun hmem => ?_
  rw [withoutCodeSpans_text, List.mem_append, List.mem_append, List.mem_append, looseTick] at hmem
  rcases hmem with hmem | hmem | hmem | hmem
  · exact (l.before_free _ hmem).2 rfl
  · exact h hmem
  · split at hmem
    · exact absurd hmem (by decide)
    · cases hmem
  · exact (l.behind_free _ hmem).2 rfl

/-- A content without backticks is not looked at between runs of odd length, and looked at as if it were not
code between runs of even length. -/
theorem rawLinks_text_of_not_mem (h : '\x60' ∉ l.content) :
    rawLinks false l.text = if l.ticks.bodd then [] else rawLinks false (l.before ++ (l.content ++ l.behind)) := by
  have hpairs := outsidePairs_of_not_mem h l.ticks.bodd
  split
  · rename_i hodd
    rw [if_pos hodd] at hpairs
    exact l.rawLinks_text_eq_nil (by rw [hpairs]; exact List.not_mem_nil)
  · rename_i heven
    rw [if_neg heven] at hpairs
    have hloose : l.looseTick = [] := by
      rw [looseTick, List.count_eq_zero.2 h]
      rfl
    have hcount : (l.before ++ (l.content ++ l.behind)).count '\x60' = 0 := by
      refine List.count_eq_zero.2 fun hmem => ?_
      rcases List.mem_append.1 hmem with hmem | hmem
      · exact (l.before_free _ hmem).1 rfl
      · exact (List.mem_append.1 hmem).elim h fun hmem => (l.behind_free _ hmem).1 rfl
    have hleft : withoutCodeSpans l.text = withoutCodeSpans (l.before ++ (l.content ++ l.behind)) := by
      rw [withoutCodeSpans_text, hpairs, hloose, withoutCodeSpans_eq_self (Nat.le_succ_of_le hcount.le), List.nil_append]
    simp only [rawLinks, hleft]

/-- The content of the only code span of a line is code for hiding as a whole. The check on link texts sees what
every other stretch between its backticks leaves of it: nothing is reported if that has no opening bracket; and
without backticks in the content, nothing is reported between runs of odd length and everything between runs of
even length. -/
theorem rawLinks_text (l : CodeLine) :
    (l.content ≠ [] → spanParts isTick l.text =
        l.before.map .plain ++ .code (l.run ++ (l.content ++ l.run)) :: l.behind.map .plain) ∧
      withoutCodeSpans l.text =
        l.before ++ (outsidePairs l.ticks.bodd l.content ++ (l.looseTick ++ l.behind)) ∧
      ('[' ∉ outsidePairs l.ticks.bodd l.content → rawLinks false l.text = []) ∧
      ('\x60' ∉ l.content → rawLinks false l.text =
        if l.ticks.bodd then [] else rawLinks false (l.before ++ (l.content ++ l.behind))) :=
  ⟨l.spanParts_text, l.withoutCodeSpans_text, l.rawLinks_text_eq_nil, l.rawLinks_text_of_not_mem⟩

/-- A content with a backtick of its own between runs of odd length; a link in it is not looked at, and an odd
backtick is left. -/
theorem rawLinks_text_three_ticks :
    ∃ l : CodeLine, l.text = "a \x60\x60\x60[A.md](A.md) \x60 b\x60\x60\x60!".toList ∧ l.ticks = 3 ∧
      spanParts isTick l.text =
        l.before.map .plain ++ .code (l.run ++ (l.content ++ l.run)) :: l.behind.map .plain ∧
      withoutCodeSpans l.text = "a  b\x60!".toList ∧ rawLinks false l.text = [] := by
  let l : CodeLine := ⟨"a ".toList, 3, "[A.md](A.md) \x60 b".toList, "!".toList, by decide, by decide, by decide,
    by decide +kernel, by decide, by simp, by simp⟩
  obtain ⟨hspan, hleft, hnil, -⟩ := rawLinks_text l
  exact ⟨l, by decide, rfl, hspan (by decide), hleft.trans (by decide), hnil (by decide)⟩

/-- Between two backticks on each side a link is code for hiding and reported all the same. -/
theorem rawLinks_text_two_ticks :
    ∃ l : CodeLine, l.text = "\x60\x60[A.md](A.md)\x60\x60".toList ∧ l.ticks = 2 ∧
      spanParts isTick l.text = [.code l.text] ∧ rawLinks false l.text = [⟨"A.md".toList, "A.md".toList⟩] := by
  refine ⟨⟨[], 2, "[A.md](A.md)".toList, [], by decide, by decide, by decide, by decide +kernel, by decide,
    by simp, by simp⟩, by decide, rfl, by decide +kernel, by decide +kernel⟩

end CodeLine

end Check

end MarkdownLinks
