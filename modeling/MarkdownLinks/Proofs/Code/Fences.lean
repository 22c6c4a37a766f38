import MarkdownLinks.Code.Fenced
import MarkdownLinks.Proofs.Text.Blank
import MarkdownLinks.Proofs.Text.Occurrence

/-! The fences of a text. How a text is taken apart into blocks depends on nothing but the fences that
begin its lines: a fence opens a block if a later one closes it. A fence line is determined by the
front of its line, up to the first character behind the run; so an edit further on leaves it as it is.
What is left of a text when its blocks are replaced by placeholders holds no fence that a later one
closes, and so no block. -/

namespace MarkdownLinks.Code

/-- The two characters that fences and code are made of. -/
def isFenceMark (c : Char) : Bool := c == '\x60' || c == '~'

namespace FenceLine

/-- A line is a fence line exactly if it is made of blanks, a longest run of three or more equal fence
characters, and a rest. -/
theorem ofLine?_eq_some_iff {line : Text} {f : FenceLine} :
    ofLine? line = some f ↔
      line = f.indent ++ f.run ++ f.rest ∧ (∀ c ∈ f.indent, isBlank c) ∧ isFenceMark f.mark ∧
        3 ≤ f.run.length ∧ (∀ c ∈ f.run, c = f.mark) ∧ f.mark ∉ f.rest.head? := by
  constructor
  · intro h
    refine ⟨line_eq h, ?_⟩
    unfold ofLine? at h
    split at h
    · cases h
    · rename_i c s hs
      split at h
      · rename_i hc
        cases h
        refine ⟨fun d hd => List.all_eq_true.1 List.all_takeWhile d hd, by simpa [isFenceMark] using hc.1,
          hc.2, fun d hd => by simpa using List.all_eq_true.1 List.all_takeWhile d hd, ?_⟩
        intro hm
        have h := List.head?_dropWhile_not (· == c) s
        rw [hm] at h
        simp at h
      · cases h
  · rintro ⟨hline, hindent, hmark, hlen, hrun, hrest⟩
    obtain ⟨indent, mark, run, rest⟩ := f
    dsimp only at hline hindent hmark hlen hrun hrest
    obtain ⟨c, run, rfl⟩ := List.exists_cons_of_length_pos (Nat.lt_of_lt_of_le (by decide) hlen)
    obtain rfl : c = mark := hrun c List.mem_cons_self
    have hblank : ¬isBlank c := by
      rcases Bool.or_eq_true_iff.1 hmark with h | h <;> rw [beq_iff_eq.1 h] <;> decide
    have htrim : trimStart line = c :: (run ++ rest) := by
      rw [trimStart, hline, List.append_assoc, List.dropWhile_append_of_pos hindent, List.cons_append,
        List.dropWhile_cons_of_neg hblank]
    have hpos : ∀ d ∈ run, (d == c) = true := fun d hd => beq_iff_eq.2 (hrun d (List.mem_cons_of_mem c hd))
    have hstop : rest.takeWhile (· == c) = [] ∧ rest.dropWhile (· == c) = rest := by
      cases rest with
      | nil => exact ⟨rfl, rfl⟩
      | cons d rest =>
          have hd : ¬(d == c) = true := by
            intro h
            exact hrest (by simp [beq_iff_eq.1 h])
          exact ⟨List.takeWhile_cons_of_neg hd, List.dropWhile_cons_of_neg hd⟩
    have htake : (c :: (run ++ rest)).takeWhile (· == c) = c :: run := by
      rw [List.takeWhile_cons_of_pos (by simp), List.takeWhile_append_of_pos hpos, hstop.1, List.append_nil]
    have hdrop : (run ++ rest).dropWhile (· == c) = rest := by
      rw [List.dropWhile_append_of_pos hpos, hstop.2]
    have hind : line.takeWhile isBlank = indent := by
      rw [hline, List.append_assoc, List.takeWhile_append_of_pos hindent, List.cons_append,
        List.takeWhile_cons_of_neg hblank, List.append_nil]
    unfold ofLine?
    rw [htrim]
    dsimp only
    rw [htake, hdrop, hind, if_pos ⟨by simpa [isFenceMark] using hmark, hlen⟩]

theorem run_ne_nil {line : Text} {f : FenceLine} (h : ofLine? line = some f) : f.run ≠ [] := by
  have hlen := (ofLine?_eq_some_iff.1 h).2.2.2.1
  intro hrun
  rw [hrun] at hlen
  exact absurd hlen (by decide)

theorem not_isBlank_of_mem_run {line : Text} {f : FenceLine} (h : ofLine? line = some f) {c : Char}
    (hc : c ∈ f.run) : isFenceMark c ∧ ¬isBlank c := by
  obtain ⟨-, -, hmark, -, hrun, -⟩ := ofLine?_eq_some_iff.1 h
  rw [hrun c hc]
  refine ⟨hmark, ?_⟩
  rcases Bool.or_eq_true_iff.1 hmark with h | h <;> rw [beq_iff_eq.1 h] <;> decide

theorem getLast?_run {line : Text} {f : FenceLine} (h : ofLine? line = some f) :
    (f.indent ++ f.run).getLast? = some f.mark := by
  have hrun := (ofLine?_eq_some_iff.1 h).2.2.2.2.1
  rw [List.getLast?_append, List.getLast?_eq_some_getLast (run_ne_nil h), Option.some_or,
    hrun _ (List.getLast_mem _)]

theorem not_isBlank_mark {line : Text} {f : FenceLine} (h : ofLine? line = some f) : ¬isBlank f.mark := by
  have hlast := List.getLast_mem (run_ne_nil h)
  have hblank := (not_isBlank_of_mem_run h hlast).2
  rwa [(ofLine?_eq_some_iff.1 h).2.2.2.2.1 _ hlast] at hblank

/-- A fence line begins with its run, behind its blanks. -/
theorem replicate_prefix_of_ofLine? {line : Text} {f : FenceLine} (h : ofLine? line = some f) {k : Nat}
    (hk : k ≤ f.run.length) : List.replicate k f.mark <+: trimStart line := by
  obtain ⟨hline, hindent, -, -, hrun, -⟩ := ofLine?_eq_some_iff.1 h
  obtain ⟨c, run, hcons⟩ := List.exists_cons_of_ne_nil (run_ne_nil h)
  have hblank : ¬isBlank c := (not_isBlank_of_mem_run h (hcons ▸ List.mem_cons_self)).2
  have htrim : trimStart line = f.run ++ f.rest := by
    rw [trimStart, hline, List.append_assoc, List.dropWhile_append_of_pos hindent, hcons, List.cons_append,
      List.dropWhile_cons_of_neg hblank]
  have hreplicate : f.run = List.replicate k f.mark ++ List.replicate (f.run.length - k) f.mark := by
    rw [List.replicate_append_replicate, Nat.add_sub_cancel' hk]
    exact List.eq_replicate_iff.2 ⟨rfl, hrun⟩
  rw [htrim, hreplicate, List.append_assoc]
  exact List.prefix_append _ _

/-- Blanks behind a line are no part of the run that it begins with. -/
theorem replicate_prefix_of_append {line blanks : Text} {f : FenceLine} (hblanks : ∀ c ∈ blanks, isBlank c)
    (h : ofLine? (line ++ blanks) = some f) {k : Nat} (hk : k ≤ f.run.length) :
    List.replicate k f.mark <+: trimStart line := by
  have hprefix := replicate_prefix_of_ofLine? h hk
  rw [trimStart, List.dropWhile_append, ← trimStart, ← trimStart, trimStart_of_isBlank hblanks] at hprefix
  split at hprefix
  · rw [List.prefix_nil.1 hprefix]
    exact List.nil_prefix
  · cases blanks with
    | nil => rwa [List.append_nil] at hprefix
    | cons c blanks =>
        refine prefix_of_not_mem (fun hmem => not_isBlank_mark h ?_) hprefix
        rw [← List.eq_of_mem_replicate hmem]
        exact hblanks c List.mem_cons_self

/-- A line that begins, behind its blanks, with neither three backticks nor three tildes is no fence line. -/
theorem ofLine?_append_eq_none {line blanks : Text} (hblanks : ∀ c ∈ blanks, isBlank c)
    (htick : ¬List.replicate 3 '\x60' <+: trimStart line) (htilde : ¬List.replicate 3 '~' <+: trimStart line) :
    ofLine? (line ++ blanks) = none := by
  refine Option.eq_none_iff_forall_ne_some.2 fun f hf => ?_
  obtain ⟨-, -, hmark, hlen, -⟩ := ofLine?_eq_some_iff.1 hf
  have hprefix := replicate_prefix_of_append hblanks hf hlen
  rcases Bool.or_eq_true_iff.1 hmark with h | h <;> rw [beq_iff_eq.1 h] at hprefix
  · exact htick hprefix
  · exact htilde hprefix

/-- A fence line stays one, with the same blanks and the same run, when it is changed behind a
character that is not blank, unless that character may belong to the run and the change touches the
run. -/
theorem ofLine?_change {y u v : Text} {d : Char} {f : FenceLine} (hd : ¬isBlank d)
    (hu : isFenceMark d → d ∉ u.head?) (hv : isFenceMark d → d ∉ v.head?)
    (h : ofLine? (y ++ d :: u) = some f) : ∃ rest, ofLine? (y ++ d :: v) = some { f with rest := rest } := by
  obtain ⟨hline, hindent, hmark, hlen, hrun, hrest⟩ := ofLine?_eq_some_iff.1 h
  rcases List.append_eq_append_iff.1 hline with ⟨z, hz, hdu⟩ | ⟨z, hz, hdu⟩
  · cases z with
    | nil =>
        -- The run ends right before `d`.
        rw [List.append_nil] at hz
        rw [List.nil_append] at hdu
        rw [← hdu] at hrest
        exact ⟨d :: v, ofLine?_eq_some_iff.2 ⟨by rw [hz], hindent, hmark, hlen, hrun, hrest⟩⟩
    | cons e z =>
        -- The run reaches over `d`, which therefore is its character, and ends there.
        rw [List.cons_append, List.cons.injEq] at hdu
        obtain ⟨rfl, rfl⟩ := hdu
        obtain ⟨a, ha⟩ : ∃ a, f.run = a ++ d :: z := by
          rcases List.append_eq_append_iff.1 hz with ⟨a, _, ha⟩ | ⟨a, ha, hb⟩
          · exact ⟨a, ha⟩
          · cases a with
            | nil => exact ⟨[], hb.symm⟩
            | cons e a =>
                rw [List.cons_append, List.cons.injEq] at hb
                refine absurd (hindent d ?_) hd
                rw [ha, hb.1]
                exact List.mem_append_right y List.mem_cons_self
        have hdm : d = f.mark := hrun d (ha ▸ List.mem_append_right a List.mem_cons_self)
        cases z with
        | nil =>
            refine ⟨v, ofLine?_eq_some_iff.2 ⟨?_, hindent, hmark, hlen, hrun, ?_⟩⟩
            · rw [hz, List.append_assoc]
              rfl
            · rw [← hdm] at hmark ⊢
              exact hv hmark
        | cons e z =>
            have he : e = f.mark :=
              hrun e (ha ▸ List.mem_append_right a (List.mem_cons_of_mem d List.mem_cons_self))
            rw [← hdm] at hmark he
            exact absurd (by rw [he]; rfl) (hu hmark)
  · refine ⟨z ++ d :: v, ofLine?_eq_some_iff.2 ⟨by rw [hz, List.append_assoc], hindent, hmark, hlen, hrun, ?_⟩⟩
    rw [hdu] at hrest
    cases z with
    | nil => exact hrest
    | cons e z => exact hrest

/-- A fence line stays one when it is changed at a character that is neither blank nor a fence
character, unless the new character may belong to the run. -/
theorem ofLine?_replace {y u v : Text} {a b : Char} {f : FenceLine} (ha : ¬isBlank a)
    (hm : ¬isFenceMark a) (hb : b ∉ y.getLast?) (h : ofLine? (y ++ a :: u) = some f) :
    ∃ rest, ofLine? (y ++ b :: v) = some { f with rest := rest } := by
  obtain ⟨hline, hindent, hmark, hlen, hrun, hrest⟩ := ofLine?_eq_some_iff.1 h
  rcases List.append_eq_append_iff.1 hline with ⟨z, hz, hau⟩ | ⟨z, hz, hau⟩
  · cases z with
    | nil =>
        rw [List.append_nil] at hz
        refine ⟨b :: v, ofLine?_eq_some_iff.2 ⟨by rw [hz], hindent, hmark, hlen, hrun, ?_⟩⟩
        intro hbm
        obtain rfl : b = f.mark := Option.some.inj hbm
        exact hb (hz ▸ getLast?_run h)
    | cons e z =>
        rw [List.cons_append, List.cons.injEq] at hau
        obtain ⟨rfl, rfl⟩ := hau
        have hmem : a ∈ f.indent ++ f.run := hz ▸ List.mem_append_right y List.mem_cons_self
        rcases List.mem_append.1 hmem with hi | hr
        · exact absurd (hindent a hi) ha
        · exact absurd (not_isBlank_of_mem_run h hr).1 hm
  · refine ⟨z ++ b :: v, ofLine?_eq_some_iff.2 ⟨by rw [hz, List.append_assoc], hindent, hmark, hlen, hrun, ?_⟩⟩
    rw [hau] at hrest
    cases z with
    | nil =>
        intro hbm
        obtain rfl : b = f.mark := Option.some.inj hbm
        rw [List.append_nil] at hz
        exact hb (hz ▸ getLast?_run h)
    | cons e z => exact hrest

theorem newline_not_mem {s : Text} {f : FenceLine} (h : ofLine? (firstLine s) = some f) :
    '\n' ∉ f.indent ++ f.run := by
  rw [List.mem_append, not_or]
  constructor
  · have hline := line_eq h
    rw [List.append_assoc] at hline
    exact not_mem_of_firstLine_eq hline fun hnil => run_ne_nil h (List.append_eq_nil_iff.1 hnil).1
  · exact fun hm => (not_isBlank_of_mem_run h hm).2 (by decide)

/-- What follows the run of a fence line ends where the line ends. -/
theorem otherLines_rest {s : Text} {f : FenceLine} (h : ofLine? (firstLine s) = some f) :
    otherLines (f.rest ++ otherLines s) = otherLines s := by
  have hs : s = f.indent ++ f.run ++ (f.rest ++ otherLines s) := by
    rw [← List.append_assoc, ← line_eq h, firstLine_append_otherLines]
  calc otherLines (f.rest ++ otherLines s)
      = otherLines (f.indent ++ f.run ++ (f.rest ++ otherLines s)) :=
        (otherLines_append (newline_not_mem h) _).symm
    _ = otherLines s := congrArg otherLines hs.symm

/-- What pairs fences: the character and the length of the run. -/
def key (f : FenceLine) : Char × Nat := (f.mark, f.run.length)

end FenceLine

/-- Whether a fence closes the block that another one opens, by their keys. -/
def Closes (closing opening : Char × Nat) : Prop := closing.1 = opening.1 ∧ opening.2 ≤ closing.2

theorem FenceLine.closes_iff {closing opening : FenceLine} :
    closing.closes opening = true ↔ Closes closing.key opening.key := by
  simp [FenceLine.closes, Closes, FenceLine.key]

/-- The key of a line, if it is a fence line. -/
def fence? (line : Text) : Option (Char × Nat) := (FenceLine.ofLine? line).map FenceLine.key

/-- The fences that begin the lines of a text, in order. -/
def fences (s : Text) : List (Char × Nat) := (fullLines s).filterMap fence?

@[simp] theorem fences_nil : fences [] = [] := rfl

theorem fences_eq (s : Text) : fences s = (fence? (firstLine s)).toList ++ fences (otherLines s) := by
  cases s with
  | nil => rfl
  | cons c s =>
      rw [fences, fullLines_eq, List.filterMap_cons, fences]
      cases fence? (firstLine (c :: s)) <;> rfl

theorem fences_otherLines_sublist (s : Text) : (fences (otherLines s)).Sublist (fences s) := by
  rw [fences_eq s]
  exact List.sublist_append_right _ _

theorem fence?_of_ofLine? {line : Text} {f : FenceLine} (h : FenceLine.ofLine? line = some f) :
    fence? line = some f.key := by
  rw [fence?, h]
  rfl

/-- The fence of a line stays when the line is changed as in `ofLine?_change`. -/
theorem fence?_change {y u v : Text} {d : Char} (hd : ¬isBlank d) (hu : isFenceMark d → d ∉ u.head?)
    (hv : isFenceMark d → d ∉ v.head?) : fence? (y ++ d :: u) = fence? (y ++ d :: v) := by
  have hkey : ∀ {s : Text} {f : FenceLine}, (∃ rest, FenceLine.ofLine? s = some { f with rest := rest }) →
      fence? s = some f.key := by
    rintro s f ⟨rest, h⟩
    rw [fence?_of_ofLine? h]
    rfl
  cases hline : FenceLine.ofLine? (y ++ d :: u) with
  | some f => rw [fence?_of_ofLine? hline, hkey (FenceLine.ofLine?_change hd hu hv hline)]
  | none =>
      cases hline' : FenceLine.ofLine? (y ++ d :: v) with
      | some f =>
          obtain ⟨rest, h⟩ := FenceLine.ofLine?_change hd hv hu hline'
          rw [hline] at h
          cases h
      | none => rw [fence?, fence?, hline, hline']

/-- What closes a block is found exactly when some line closes it. -/
theorem throughClosing?_eq_none_iff {opening : FenceLine} {s : Text} :
    throughClosing? opening s = none ↔ ∀ k ∈ fences s, ¬Closes k opening.key := by
  fun_induction throughClosing? opening s with
  | case1 => simp
  | case2 c s closing hf =>
      obtain ⟨hl, hc⟩ := Option.filter_eq_some_iff.1 hf
      refine iff_of_false (by simp) fun h => h closing.key ?_ (FenceLine.closes_iff.1 hc)
      rw [fences_eq, fence?_of_ofLine? hl]
      exact List.mem_cons_self
  | case3 c s hf ih =>
      rw [Option.map_eq_none_iff, ih, fences_eq (c :: s)]
      constructor
      · intro h k hk
        rcases List.mem_append.1 hk with hk | hk
        · rw [Option.mem_toList] at hk
          obtain ⟨f, hl, rfl⟩ := Option.map_eq_some_iff.1 hk
          rw [Option.filter_eq_none_iff] at hf
          exact fun hc => hf f hl (FenceLine.closes_iff.2 hc)
        · exact h k hk
      · exact fun h k hk => h k (List.mem_append_right _ hk)

/-- The line behind a closing run has no fences behind it but those of the text. -/
theorem fences_throughClosing? {opening : FenceLine} {s through rest : Text}
    (h : throughClosing? opening s = some (through, rest)) :
    (fences (otherLines rest)).Sublist (fences s) := by
  fun_induction throughClosing? opening s generalizing through with
  | case1 => cases h
  | case2 c s closing hf =>
      cases h
      rw [FenceLine.otherLines_rest (Option.filter_eq_some_iff.1 hf).1]
      exact fences_otherLines_sublist _
  | case3 c s hf ih =>
      obtain ⟨⟨through', rest'⟩, hp, h⟩ := Option.map_eq_some_iff.1 h
      cases h
      exact (ih hp).trans (fences_otherLines_sublist _)

theorem marked_getLast?_throughClosing? {opening : FenceLine} {s through rest : Text}
    (h : throughClosing? opening s = some (through, rest)) : ∃ c ∈ through.getLast?, isFenceMark c := by
  fun_induction throughClosing? opening s generalizing through with
  | case1 => cases h
  | case2 c s closing hf =>
      cases h
      have hl := (Option.filter_eq_some_iff.1 hf).1
      exact ⟨closing.mark, FenceLine.getLast?_run hl, (FenceLine.ofLine?_eq_some_iff.1 hl).2.2.1⟩
  | case3 c s hf ih =>
      obtain ⟨⟨through', rest'⟩, hp, h⟩ := Option.map_eq_some_iff.1 h
      cases h
      obtain ⟨d, hd, hmark⟩ := ih hp
      exact ⟨d, by rw [List.getLast?_append, Option.mem_def.1 hd]; rfl, hmark⟩

/-- A block begins and ends with a fence character. -/
theorem marked_of_mem_codes {s code : Text} (h : code ∈ codes (fencedParts s)) :
    (∃ c ∈ code.head?, isFenceMark c) ∧ ∃ c ∈ code.getLast?, isFenceMark c := by
  fun_induction fencedParts s with
  | case1 => cases h
  | case2 c s hl ih =>
      rw [codes_append, codes_map_plain, List.nil_append] at h
      exact ih h
  | case3 c s opening hl ht ih =>
      rw [codes_append, codes_map_plain, List.nil_append] at h
      exact ih h
  | case4 c s opening hl through rest ht ih =>
      rw [codes_append, codes_map_plain, List.nil_append, codes_code] at h
      rcases List.mem_cons.1 h with rfl | h
      · obtain ⟨d, hd, hmark⟩ := marked_getLast?_throughClosing? ht
        obtain ⟨e, run, hrun⟩ := List.exists_cons_of_ne_nil (FenceLine.run_ne_nil hl)
        refine ⟨⟨e, by rw [hrun]; rfl, ?_⟩, d, by rw [List.getLast?_append, Option.mem_def.1 hd]; rfl, hmark⟩
        exact (FenceLine.not_isBlank_of_mem_run hl (hrun ▸ List.mem_cons_self)).1
      · exact ih h

/-- A text none of whose fences closes an earlier one has no blocks. -/
theorem fencedParts_of_pairwise {s : Text}
    (h : (fences s).Pairwise fun opening closing => ¬Closes closing opening) :
    fencedParts s = s.map .plain := by
  fun_induction fencedParts s with
  | case1 => rfl
  | case2 c s hl ih =>
      rw [ih (h.sublist (fences_otherLines_sublist _)), ← List.map_append, firstLine_append_otherLines]
  | case3 c s opening hl ht ih =>
      rw [ih (h.sublist (fences_otherLines_sublist _)), ← List.map_append, firstLine_append_otherLines]
  | case4 c s opening hl through rest ht ih =>
      rw [fences_eq, fence?_of_ofLine? hl] at h
      rw [throughClosing?_eq_none_iff.2 (List.pairwise_cons.1 h).1] at ht
      cases ht

/-- A line that nothing behind it closes may stand in front of a text that no fence of it closes an
earlier one in. -/
theorem fences_firstLine_append {s t : Text} (ht : otherLines s = [] → t = [])
    (hopen : ∀ k, fence? (firstLine s) = some k → ∀ k' ∈ fences (otherLines s), ¬Closes k' k)
    (hsub : (fences t).Sublist (fences (otherLines s)))
    (hpair : (fences t).Pairwise fun opening closing => ¬Closes closing opening) :
    (fences (otherLines (firstLine s ++ t))).Sublist (fences (otherLines s)) ∧
      (fences (firstLine s ++ t)).Sublist (fences s) ∧
      (fences (firstLine s ++ t)).Pairwise fun opening closing => ¬Closes closing opening := by
  obtain ⟨hfirst, hother⟩ := firstLine_firstLine_append s ht
  have heq : fences (firstLine s ++ t) = (fence? (firstLine s)).toList ++ fences t := by
    rw [fences_eq, hfirst, hother]
  refine ⟨by rw [hother]; exact hsub, ?_, ?_⟩
  · rw [heq, fences_eq s]
    exact List.Sublist.append (List.Sublist.refl _) hsub
  · rw [heq]
    cases hk : fence? (firstLine s) with
    | none => exact hpair
    | some k => exact List.pairwise_cons.2 ⟨fun k' hk' => hopen k hk k' (hsub.subset hk'), hpair⟩

section
variable {placeholder : Nat → Text} (hhead : ∀ k, ∃ w, placeholder k = '_' :: w)
  (hline : ∀ k, '\n' ∉ placeholder k)
include hhead

theorem fence?_placeholder {indent : Text} (hindent : ∀ c ∈ indent, isBlank c) (k : Nat) (s : Text) :
    fence? (indent ++ (placeholder k ++ s)) = none := by
  obtain ⟨w, hw⟩ := hhead k
  have htrim : trimStart (indent ++ (placeholder k ++ s)) = '_' :: (w ++ s) := by
    rw [trimStart, List.dropWhile_append_of_pos hindent, hw, List.cons_append,
      List.dropWhile_cons_of_neg (by decide)]
  simp [fence?, FenceLine.ofLine?, htrim]

include hline

/-- What is left of a text without its blocks keeps the order of its fences, and none of them closes an
earlier one: the earlier one would have opened a block. -/
theorem fences_placeholdersFrom (n : Nat) (s : Text) :
    (fences (otherLines (placeholdersFrom placeholder n (fencedParts s)))).Sublist (fences (otherLines s)) ∧
      (fences (placeholdersFrom placeholder n (fencedParts s))).Sublist (fences s) ∧
      (fences (placeholdersFrom placeholder n (fencedParts s))).Pairwise
        fun opening closing => ¬Closes closing opening := by
  fun_induction fencedParts s generalizing n with
  | case1 => simp
  | case2 c s hl ih =>
      rw [placeholdersFrom_map_plain_append]
      refine fences_firstLine_append (fun h => by rw [h, fencedParts, placeholdersFrom_nil]) ?_
        (ih n).2.1 (ih n).2.2
      intro k hk
      rw [fence?, hl] at hk
      cases hk
  | case3 c s opening hl ht ih =>
      rw [placeholdersFrom_map_plain_append]
      refine fences_firstLine_append (fun h => by rw [h, fencedParts, placeholdersFrom_nil]) ?_
        (ih n).2.1 (ih n).2.2
      intro k hk
      rw [fence?_of_ofLine? hl] at hk
      cases hk
      exact throughClosing?_eq_none_iff.1 ht
  | case4 c s opening hl through rest ht ih =>
      -- The first line that is left is no fence line, because a placeholder stands in it.
      obtain ⟨hbehind, -, hpair⟩ := ih (n + 1)
      obtain ⟨-, hindent, -⟩ := FenceLine.ofLine?_eq_some_iff.1 hl
      have hnl : '\n' ∉ opening.indent ++ placeholder n := by
        have hnot := FenceLine.newline_not_mem hl
        rw [List.mem_append, not_or] at hnot ⊢
        exact ⟨hnot.1, hline n⟩
      have hother := otherLines_append hnl (placeholdersFrom placeholder (n + 1) (fencedParts rest))
      have hfirst := firstLine_append hnl (placeholdersFrom placeholder (n + 1) (fencedParts rest))
      have hsub := hbehind.trans (fences_throughClosing? ht)
      rw [placeholdersFrom_map_plain_append, placeholdersFrom_code, ← List.append_assoc, hother,
        fences_eq (_ ++ _), hfirst, hother, List.append_assoc, fence?_placeholder hhead hindent,
        Option.toList_none, List.nil_append]
      exact ⟨hsub, hsub.trans (fences_otherLines_sublist _), hpair.sublist (fences_otherLines_sublist _)⟩

end

theorem fences_otherLines_append (a s : Text) :
    (fences (otherLines s)).Sublist (fences (otherLines (a ++ s))) := by
  induction a with
  | nil => exact List.Sublist.refl _
  | cons c a ih =>
      by_cases hc : c = '\n'
      · rw [hc, List.cons_append, otherLines_newline]
        exact ih.trans (fences_otherLines_sublist _)
      · rw [List.cons_append, otherLines_cons hc]
        exact ih

theorem fences_newline_append {a : Text} (ha : '\n' ∉ a) (s : Text) :
    fences (a ++ '\n' :: s) = (fence? (a ++ ['\n'])).toList ++ fences s := by
  rw [fences_eq, firstLine_append ha, otherLines_append ha, firstLine_newline, otherLines_newline]

/-- A piece of code that begins with a backtick may be replaced by a placeholder on one line: no fence
arises, unless the backtick was behind another one. -/
theorem fences_replace_sublist {y word : Text} (hy : '\x60' ∉ y.getLast?) (hword : '\n' ∉ word)
    (code s : Text) :
    (fences (y ++ ('_' :: word ++ s))).Sublist (fences (y ++ ('\x60' :: code ++ s))) := by
  induction hn : y.length using Nat.strongRecOn generalizing y with
  | ind n ih =>
      rcases hsplit : splitFirst? '\n' y with _ | ⟨a, rest⟩
      · -- The code begins on the first line.
        have hnl := splitFirst?_eq_none_iff.1 hsplit
        have hword' : '\n' ∉ y ++ '_' :: word := by
          simp only [List.mem_append, List.mem_cons, not_or]
          exact ⟨hnl, by decide, hword⟩
        rw [← List.append_assoc, fences_eq, firstLine_append hword', otherLines_append hword',
          List.append_assoc, fences_eq (y ++ _), firstLine_append hnl, otherLines_append hnl,
          List.cons_append, List.cons_append, firstLine_cons (by decide), otherLines_cons (by decide)]
        refine List.Sublist.append ?_ (fences_otherLines_append code s)
        cases hk : fence? (y ++ '_' :: (word ++ firstLine s)) with
        | none => exact List.nil_sublist _
        | some k =>
            obtain ⟨f, hf, rfl⟩ := Option.map_eq_some_iff.1 hk
            obtain ⟨rest, hrest⟩ := FenceLine.ofLine?_replace (b := '\x60') (v := firstLine (code ++ s))
              (by decide) (by decide) hy hf
            rw [fence?_of_ofLine? hrest]
            exact List.Sublist.refl _
      · obtain ⟨rfl, ha⟩ := splitFirst?_eq_some_iff.1 hsplit
        have hshorter : rest.length < n := by
          rw [← hn, List.length_append, List.length_cons]
          omega
        have hlast : '\x60' ∉ rest.getLast? := by
          intro hl
          apply hy
          rw [List.getLast?_append, List.getLast?_cons, Option.mem_def.1 hl]
          rfl
        have hfirst : ∀ t, a ++ '\n' :: rest ++ t = a ++ '\n' :: (rest ++ t) := fun t => List.append_assoc _ _ _
        rw [hfirst, hfirst, fences_newline_append ha, fences_newline_append ha]
        exact List.Sublist.append (List.Sublist.refl _) (ih rest.length hshorter hlast rfl)

end MarkdownLinks.Code
