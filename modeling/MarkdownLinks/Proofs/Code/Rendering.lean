import MarkdownLinks.Code.Outline
import MarkdownLinks.Proofs.Code.Runs

/-! Rows of symbols written out. When every tick is written as one tick and every other symbol as one or
more symbols without ticks, the spans of the row written out are the spans of the row, written out. So
the outline of a text says what hiding does: the masked text is the outline with its placeholders, and
the text itself is the outline with the code of its slots. -/

namespace MarkdownLinks.Code

variable {α β : Type}

/-- The parts that a part becomes when its symbols are written as rows. -/
def Segment.expand (h : β → List α) : Segment β → List (Segment α)
  | .plain b => (h b).map .plain
  | .code s => [.code (s.flatMap h)]

/-- Whether the symbols of a row are written as rows so that the runs of ticks stay as they are. -/
structure KeepsTicks (sign : β → Bool) (tick : α → Bool) (h : β → List α) (s : List β) : Prop where
  of_sign : ∀ {b}, b ∈ s → sign b → ∃ a, h b = [a] ∧ tick a
  of_not : ∀ {b}, b ∈ s → sign b = false → h b ≠ [] ∧ ∀ a ∈ h b, tick a = false

section
variable {tick : α → Bool}

theorem throughRun?_append_of_not {w : List α} (hw : ∀ a ∈ w, tick a = false) (n : Nat) (s : List α) :
    throughRun? tick n (w ++ s) = (throughRun? tick n s).map fun (through, rest) => (w ++ through, rest) := by
  induction w with
  | nil => exact Option.map_id'.symm
  | cons a w ih =>
      rw [List.cons_append, throughRun?, if_neg (by simp [hw a List.mem_cons_self]),
        ih fun b hb => hw b (List.mem_cons_of_mem a hb), Option.map_map]
      rfl

theorem spanParts_append_of_not {w : List α} (hw : ∀ a ∈ w, tick a = false) (s : List α) :
    spanParts tick (w ++ s) = w.map .plain ++ spanParts tick s := by
  induction w with
  | nil => rfl
  | cons a w ih =>
      rw [List.cons_append, spanParts, if_neg (by simp [hw a List.mem_cons_self]),
        ih fun b hb => hw b (List.mem_cons_of_mem a hb)]
      rfl

end

namespace KeepsTicks

variable {sign : β → Bool} {tick : α → Bool} {h : β → List α}

theorem mono {s t : List β} (hs : KeepsTicks sign tick h s) (hst : t ⊆ s) : KeepsTicks sign tick h t :=
  ⟨fun hb => hs.of_sign (hst hb), fun hb => hs.of_not (hst hb)⟩

theorem unticked_flatMap {s : List β} (hh : KeepsTicks sign tick h s) (hs : Unticked sign s) :
    Unticked tick (s.flatMap h) := by
  cases s with
  | nil => exact Unticked.nil
  | cons b s =>
      obtain ⟨hne, hfree⟩ := hh.of_not List.mem_cons_self (hs b rfl)
      rw [List.flatMap_cons]
      exact Unticked.append hfree hne _

theorem run {s : List β} (hh : KeepsTicks sign tick h s) (hs : ∀ b ∈ s, sign b) :
    (∀ a ∈ s.flatMap h, tick a) ∧ (s.flatMap h).length = s.length := by
  induction s with
  | nil => simp
  | cons b s ih =>
      obtain ⟨a, ha, hta⟩ := hh.of_sign List.mem_cons_self (hs b List.mem_cons_self)
      obtain ⟨hall, hlen⟩ := ih (hh.mono (List.subset_cons_self b s)) fun c hc => hs c (List.mem_cons_of_mem b hc)
      rw [List.flatMap_cons, ha]
      refine ⟨fun c hc => ?_, by simp [hlen]⟩
      rcases List.mem_cons.1 hc with rfl | hc
      · exact hta
      · exact hall c hc

/-- The first run of a row written out is the first run, written out. -/
theorem takeWhile_dropWhile {s : List β} (hh : KeepsTicks sign tick h s) :
    (s.flatMap h).takeWhile tick = (s.takeWhile sign).flatMap h ∧
      (s.flatMap h).dropWhile tick = (s.dropWhile sign).flatMap h ∧
      ((s.takeWhile sign).flatMap h).length = (s.takeWhile sign).length := by
  obtain ⟨hrun, hlen⟩ := (hh.mono (List.takeWhile_sublist sign).subset).run
    fun b hb => List.all_eq_true.1 List.all_takeWhile b hb
  have hrest := (hh.mono (List.dropWhile_sublist sign).subset).unticked_flatMap (Unticked.dropWhile s)
  have hs : s.flatMap h = (s.takeWhile sign).flatMap h ++ (s.dropWhile sign).flatMap h := by
    rw [← List.flatMap_append, List.takeWhile_append_dropWhile]
  rw [hs, takeWhile_run_append hrun hrest, dropWhile_run_append hrun hrest]
  exact ⟨rfl, rfl, hlen⟩

theorem throughRun?_flatMap (n : Nat) {s : List β} (hh : KeepsTicks sign tick h s) :
    throughRun? tick n (s.flatMap h) =
      (throughRun? sign n s).map fun (through, rest) => (through.flatMap h, rest.flatMap h) := by
  fun_induction throughRun? sign n s with
  | case1 => rw [List.flatMap_nil, throughRun?, Option.map_none]
  | case2 b s hb hn =>
      obtain ⟨a, ha, hta⟩ := hh.of_sign List.mem_cons_self hb
      obtain ⟨htake, hdrop, hlen⟩ := (hh.mono (List.subset_cons_self b s)).takeWhile_dropWhile
      rw [List.flatMap_cons, ha, List.cons_append, List.nil_append, throughRun?, if_pos hta, htake, hlen,
        if_pos hn, hdrop, Option.map_some]
      simp [ha]
  | case3 b s hb hn ih =>
      obtain ⟨a, ha, hta⟩ := hh.of_sign List.mem_cons_self hb
      have hs := hh.mono (List.subset_cons_self b s)
      obtain ⟨htake, hdrop, hlen⟩ := hs.takeWhile_dropWhile
      rw [List.flatMap_cons, ha, List.cons_append, List.nil_append, throughRun?, if_pos hta, htake, hlen,
        if_neg hn, hdrop, ih (hs.mono (List.dropWhile_sublist sign).subset), Option.map_map, Option.map_map]
      refine congrArg (Option.map · _) (funext fun ⟨through, rest⟩ => ?_)
      simp [ha]
  | case4 b s hb ih =>
      obtain ⟨_, hfree⟩ := hh.of_not List.mem_cons_self (Bool.eq_false_iff.2 hb)
      rw [List.flatMap_cons, throughRun?_append_of_not hfree, ih (hh.mono (List.subset_cons_self b s)),
        Option.map_map, Option.map_map]
      refine congrArg (Option.map · _) (funext fun ⟨through, rest⟩ => ?_)
      simp

/-- The spans of a row written out are those of the row. -/
theorem spanParts_flatMap {s : List β} (hh : KeepsTicks sign tick h s) :
    spanParts tick (s.flatMap h) = (spanParts sign s).flatMap (Segment.expand h) := by
  fun_induction spanParts sign s with
  | case1 => rw [List.flatMap_nil, spanParts, List.flatMap_nil]
  | case2 b s hb through rest hs ih =>
      obtain ⟨a, ha, hta⟩ := hh.of_sign List.mem_cons_self hb
      have htail := hh.mono (List.subset_cons_self b s)
      obtain ⟨htake, hdrop, hlen⟩ := htail.takeWhile_dropWhile
      have hbehind := htail.mono (List.dropWhile_sublist sign).subset
      have hthrough := hbehind.throughRun?_flatMap ((s.takeWhile sign).length + 1)
      rw [hs, Option.map_some] at hthrough
      have hrest := hbehind.mono (by rw [throughRun?_eq hs]; exact List.subset_append_right through rest)
      rw [List.flatMap_cons, ha, List.cons_append, List.nil_append, spanParts, if_pos hta]
      split
      · rename_i heq
        rw [htake, hlen, hdrop, hthrough] at heq
        cases heq
        rw [ih hrest, htake, List.flatMap_cons, Segment.expand]
        simp [ha]
      · rename_i heq
        rw [htake, hlen, hdrop, hthrough] at heq
        cases heq
  | case3 b s hb hs ih =>
      obtain ⟨a, ha, hta⟩ := hh.of_sign List.mem_cons_self hb
      have htail := hh.mono (List.subset_cons_self b s)
      obtain ⟨htake, hdrop, hlen⟩ := htail.takeWhile_dropWhile
      have hbehind := htail.mono (List.dropWhile_sublist sign).subset
      have hthrough := hbehind.throughRun?_flatMap ((s.takeWhile sign).length + 1)
      rw [hs, Option.map_none] at hthrough
      rw [List.flatMap_cons, ha, List.cons_append, List.nil_append, spanParts, if_pos hta]
      split
      · rename_i heq
        rw [htake, hlen, hdrop, hthrough] at heq
        cases heq
      · rw [hdrop, ih hbehind, htake, List.flatMap_append, List.flatMap_map]
        simp [Segment.expand, ha, List.map_flatMap]
  | case4 b s hb ih =>
      obtain ⟨_, hfree⟩ := hh.of_not List.mem_cons_self (Bool.eq_false_iff.2 hb)
      rw [List.flatMap_cons, spanParts_append_of_not hfree, ih (hh.mono (List.subset_cons_self b s))]
      rfl

end KeepsTicks

/-- The spans of a row with other symbols in the places of its own. -/
theorem spanParts_map {tick : α → Bool} (f : β → α) (s : List β) :
    spanParts tick (s.map f) = (spanParts (fun b => tick (f b)) s).map (Segment.map f) := by
  have hkeeps : KeepsTicks (fun b => tick (f b)) tick (fun b => [f b]) s :=
    ⟨fun {b} _ hb => ⟨f b, rfl, hb⟩, fun {b} _ hb => ⟨List.cons_ne_nil _ _, by simpa using hb⟩⟩
  have hexpand : ∀ p, Segment.expand (fun b => [f b]) p = [p.map f] := by
    intro p
    cases p with
    | plain b => rfl
    | code t => exact congrArg (fun t => [Segment.code t]) List.map_eq_flatMap.symm
  rw [List.map_eq_flatMap, hkeeps.spanParts_flatMap, funext hexpand, ← List.map_eq_flatMap]

/-- Parts of the same row that are alike are the same. -/
theorem eq_of_map_eq {f : β → α} {parts more : List (Segment β)} (htext : segmentsText parts = segmentsText more)
    (hmap : parts.map (Segment.map f) = more.map (Segment.map f)) : parts = more := by
  induction parts generalizing more with
  | nil => exact (List.map_eq_nil_iff.1 hmap.symm).symm
  | cons p parts ih =>
      cases more with
      | nil => cases hmap
      | cons q more =>
          obtain ⟨hpq, hrest⟩ := List.cons.inj hmap
          cases p with
          | plain b =>
              cases q with
              | plain c =>
                  obtain ⟨rfl, hrest'⟩ := List.cons.inj htext
                  rw [ih hrest' hrest]
              | code t => cases hpq
          | code s =>
              cases q with
              | plain c => cases hpq
              | code t =>
                  have hst : s.map f = t.map f := Segment.code.inj hpq
                  have hlen : s.length = t.length := by rw [← List.length_map f, hst, List.length_map]
                  have hst' : s ++ segmentsText parts = t ++ segmentsText more := htext
                  obtain ⟨hsame, hrest'⟩ := List.append_inj hst' hlen
                  rw [hsame, ih hrest' hrest]

theorem codes_flatMap_expand (h : β → List α) (parts : List (Segment β)) :
    codes (parts.flatMap (Segment.expand h)) = (codes parts).map (List.flatMap h) := by
  induction parts with
  | nil => rfl
  | cons p parts ih =>
      rw [List.flatMap_cons, codes_append, ih]
      cases p with
      | plain b => rw [Segment.expand, codes_map_plain, codes_plain, List.nil_append]
      | code s => rfl

theorem placeholdersFrom_flatMap_expand {h : β → List α} {placeholder : Nat → List α}
    {sign : Nat → List β} (hsign : ∀ n, (sign n).flatMap h = placeholder n) (n : Nat)
    (parts : List (Segment β)) :
    placeholdersFrom placeholder n (parts.flatMap (Segment.expand h)) =
      (placeholdersFrom sign n parts).flatMap h := by
  induction parts generalizing n with
  | nil => rfl
  | cons p parts ih =>
      rw [List.flatMap_cons]
      cases p with
      | plain b => rw [Segment.expand, placeholdersFrom_map_plain_append, ih]; rfl
      | code s =>
          rw [Segment.expand, List.singleton_append, placeholdersFrom_code, placeholdersFrom_code,
            List.flatMap_append, hsign, ih]

/-- Placeholders that are read as the code they stand for, and all else as it is. -/
theorem map_placeholdersFrom {γ : Type} {g : β → γ} {k : Segment β → γ} {sign : Nat → β} {n : Nat}
    {parts : List (Segment β)} (hplain : ∀ b, .plain b ∈ parts → g b = k (.plain b))
    (hcode : ∀ i s, (codes parts)[i]? = some s → g (sign (n + i)) = k (.code s)) :
    (placeholdersFrom (fun i => [sign i]) n parts).map g = parts.map k := by
  induction parts generalizing n with
  | nil => rfl
  | cons p parts ih =>
      have hplain' : ∀ b, .plain b ∈ parts → g b = k (.plain b) := fun b hb => hplain b (List.mem_cons_of_mem p hb)
      cases p with
      | plain b =>
          rw [placeholdersFrom_plain, List.map_cons, List.map_cons, hplain b List.mem_cons_self, ih hplain' hcode]
      | code s =>
          have hhead : g (sign n) = k (.code s) := hcode 0 s rfl
          have htail := ih (n := n + 1) hplain' fun i t ht => by
            rw [Nat.add_assoc, Nat.add_comm 1 i]
            exact hcode (i + 1) t ht
          rw [placeholdersFrom_code, List.singleton_append, List.map_cons, List.map_cons, hhead, htail]

end MarkdownLinks.Code
