import MarkdownLinks.Proofs.Code.Fences

/-! An edit behind a settled place. A character outside the blocks of a text is replaced, and on its line
a character stands before it that is not blank and that no run can go on from. Then the line begins as
before, and no fence arises; if the character is a line feed, the next line loses its place at the
beginning of a line, and with it a fence it may have. So the blocks are the same, if none begins behind
that line feed. -/

namespace MarkdownLinks.Code

/-- Whether a line with this front part is the same fence line, or none, whatever follows on it behind
the next character. -/
def Settled (front : Text) (next : Option Char) : Prop :=
  ∃ y d w, front = y ++ d :: w ∧ '\n' ∉ w ∧ ¬isBlank d ∧ (isFenceMark d → d ∉ w.head?.or next)

/-- What is settled behind a line feed is settled by what stands there. -/
theorem Settled.of_newline {a front : Text} {next : Option Char} (h : Settled (a ++ '\n' :: front) next) :
    Settled front next := by
  obtain ⟨y, d, w, hfront, hw, hblank, hd⟩ := h
  rcases List.append_eq_append_iff.1 hfront with ⟨y', rfl, hy⟩ | ⟨y', rfl, hy⟩
  · cases y' with
    | nil =>
        obtain ⟨rfl, -⟩ := List.cons.inj hy
        exact absurd (by decide) hblank
    | cons e y' =>
        obtain ⟨rfl, hfront'⟩ := List.cons.inj hy
        exact ⟨y', d, w, hfront', hw, hblank, hd⟩
  · cases y' with
    | nil =>
        obtain ⟨rfl, -⟩ := List.cons.inj hy
        exact absurd (by decide) hblank
    | cons e y' =>
        obtain ⟨rfl, rfl⟩ := List.cons.inj hy
        exact absurd (List.mem_append_right y' List.mem_cons_self) hw

theorem Settled.append {front : Text} {next : Option Char} (h : Settled front next) (before : Text) :
    Settled (before ++ front) next := by
  obtain ⟨y, d, w, rfl, hrest⟩ := h
  exact ⟨before ++ y, d, w, (List.append_assoc _ _ _).symm, hrest⟩

/-- What is settled stays settled when more is put behind it on its line. -/
theorem Settled.extend {front into : Text} (h : Settled front into.head?) (hne : into ≠ []) (hnl : '\n' ∉ into)
    (next : Option Char) : Settled (front ++ into) next := by
  obtain ⟨y, d, w, rfl, hw, hblank, hd⟩ := h
  refine ⟨y, d, w ++ into, by rw [List.append_assoc, List.cons_append], ?_, hblank, fun hmark => ?_⟩
  · rw [List.mem_append]
    exact not_or.2 ⟨hw, hnl⟩
  · obtain ⟨e, s, rfl⟩ := List.exists_cons_of_ne_nil hne
    cases w with
    | nil => exact hd hmark
    | cons a w => exact hd hmark

/-- Whether a text is put on a line without ending it and without going on with a run. -/
def Inert (into : Text) : Prop := (∃ c s, into = c :: s ∧ ¬isFenceMark c) ∧ '\n' ∉ into

theorem Inert.ne_nil {into : Text} (h : Inert into) : into ≠ [] := by
  obtain ⟨⟨c, s, rfl, -⟩, -⟩ := h
  exact List.cons_ne_nil c s

section
variable {front next : Text} {into : Text} {c : Char}

theorem Settled.inert (h : Settled front (some c)) (hinto : Inert into) : Settled front into.head? := by
  obtain ⟨y, d, w, hfront, hw, hblank, hd⟩ := h
  refine ⟨y, d, w, hfront, hw, hblank, fun hmark => ?_⟩
  cases w with
  | nil =>
      obtain ⟨⟨e, s, rfl, he⟩, -⟩ := hinto
      rintro ⟨⟩
      exact he hmark
  | cons e w => exact hd hmark

/-- The fence of a line that is settled up to an edit. -/
theorem fence?_edit (h : Settled front (some c)) (hinto : Inert into) (rest rest' : Text) :
    fence? (front ++ c :: rest) = fence? (front ++ (into ++ rest')) := by
  obtain ⟨y, d, w, rfl, hw, hblank, hd⟩ := h
  obtain ⟨⟨e, s, rfl, he⟩, -⟩ := hinto
  rw [List.append_assoc, List.append_assoc, List.cons_append, List.cons_append]
  refine fence?_change hblank (fun hmark => ?_) fun hmark => ?_
  · rw [List.head?_append]
    exact hd hmark
  · rw [List.head?_append]
    cases w with
    | nil =>
        rintro ⟨⟩
        exact he hmark
    | cons a w => exact hd hmark

/-- An edit behind a settled place makes no fence. -/
theorem fences_edit_sublist (h : Settled front (some c)) (hinto : Inert into) (rest : Text) :
    (fences (front ++ (into ++ rest))).Sublist (fences (front ++ c :: rest)) := by
  induction hn : front.length using Nat.strongRecOn generalizing front with
  | ind n ih =>
      rcases hsplit : splitFirst? '\n' front with _ | ⟨a, front'⟩
      · have hnl := splitFirst?_eq_none_iff.1 hsplit
        have hline := fence?_edit h hinto
        have hedited : fences (front ++ (into ++ rest)) =
            (fence? (front ++ (into ++ firstLine rest))).toList ++ fences (otherLines rest) := by
          rw [fences_eq, firstLine_append hnl, otherLines_append hnl, firstLine_append hinto.2,
            otherLines_append hinto.2]
        rw [hedited]
        by_cases hc : c = '\n'
        · rw [hc, fences_newline_append hnl, ← hc, hline [] (firstLine rest)]
          exact List.Sublist.append (List.Sublist.refl _) (fences_otherLines_sublist rest)
        · have hunedited : fences (front ++ c :: rest) =
              (fence? (front ++ (into ++ firstLine rest))).toList ++ fences (otherLines rest) := by
            rw [fences_eq, firstLine_append hnl, otherLines_append hnl, firstLine_cons hc, otherLines_cons hc,
              hline (firstLine rest) (firstLine rest)]
          exact hunedited ▸ List.Sublist.refl _
      · obtain ⟨rfl, ha⟩ := splitFirst?_eq_some_iff.1 hsplit
        have hfirst : ∀ t, a ++ '\n' :: front' ++ t = a ++ '\n' :: (front' ++ t) := fun t => List.append_assoc _ _ _
        rw [hfirst, hfirst, fences_newline_append ha, fences_newline_append ha]
        refine List.Sublist.append (List.Sublist.refl _) (ih front'.length ?_ h.of_newline rfl)
        rw [← hn, List.length_append, List.length_cons]
        omega

end

theorem otherLines_eq_nil_of_ofLine? {s : Text} {f : FenceLine} (h : FenceLine.ofLine? (firstLine s) = some f)
    (hrest : f.rest = []) : otherLines s = [] := by
  have hline := FenceLine.line_eq h
  rw [hrest, List.append_nil] at hline
  have hnl := FenceLine.newline_not_mem h
  rcases firstLine_cases s with ⟨a, -, hs⟩ | ⟨-, -, hs⟩
  · rw [← hline, hs] at hnl
    exact absurd (List.mem_append_right a List.mem_cons_self) hnl
  · exact hs

theorem ne_nil_of_throughClosing? {opening : FenceLine} {s : Text} {p : Text × Text}
    (h : throughClosing? opening s = some p) : s ≠ [] := by
  rintro rfl
  rw [throughClosing?] at h
  cases h

theorem throughClosing?_of_closes {opening closing : FenceLine} {s : Text}
    (h : FenceLine.ofLine? (firstLine s) = some closing) (hclose : closing.closes opening) :
    throughClosing? opening s = some (closing.indent ++ closing.run, closing.rest ++ otherLines s) := by
  cases s with
  | nil => cases h
  | cons c s => rw [throughClosing?, h, Option.filter_some, if_pos hclose]

theorem throughClosing?_of_not_closes {opening : FenceLine} {s : Text}
    (h : ∀ f, FenceLine.ofLine? (firstLine s) = some f → ¬f.closes opening) :
    throughClosing? opening s =
      (throughClosing? opening (otherLines s)).map fun (through, rest) => (firstLine s ++ through, rest) := by
  cases s with
  | nil => rw [otherLines_nil, throughClosing?, Option.map_none]
  | cons c s =>
      have hnone : (FenceLine.ofLine? (firstLine (c :: s))).filter (fun f => f.closes opening) = none := by
        rw [Option.filter_eq_none_iff]
        exact fun f hf => h f hf
      rw [throughClosing?, hnone]

/-- What closes a block does not depend on what follows it, unless that goes on with the run. -/
theorem throughClosing?_append {opening : FenceLine} {s through rest rest' : Text}
    (h : throughClosing? opening s = some (through, rest))
    (hrest : ∀ m, isFenceMark m → m ∈ rest'.head? → m ∈ rest.head?) :
    throughClosing? opening (through ++ rest') = some (through, rest') := by
  fun_induction throughClosing? opening s generalizing through with
  | case1 => cases h
  | case2 c s closing hf =>
      cases h
      obtain ⟨hl, hclose⟩ := Option.filter_eq_some_iff.1 hf
      obtain ⟨-, hindent, hmark, hlen, hrun, hbehind⟩ := FenceLine.ofLine?_eq_some_iff.1 hl
      have hnl := FenceLine.newline_not_mem hl
      have hfirst : firstLine (closing.indent ++ closing.run ++ rest') =
          closing.indent ++ closing.run ++ firstLine rest' := firstLine_append hnl rest'
      have hmem : closing.mark ∉ (firstLine rest').head? := by
        intro hm
        have hm' : closing.mark ∈ rest'.head? := by
          rw [← firstLine_append_otherLines rest', List.head?_append, Option.mem_def.1 hm]
          rfl
        have hm'' := hrest _ hmark hm'
        rw [List.head?_append] at hm''
        cases hr : closing.rest with
        | nil =>
            rw [hr, otherLines_eq_nil_of_ofLine? hl hr] at hm''
            cases hm''
        | cons e r =>
            rw [hr] at hm'' hbehind
            exact hbehind hm''
      have hl' : FenceLine.ofLine? (firstLine (closing.indent ++ closing.run ++ rest')) =
          some { closing with rest := firstLine rest' } :=
        FenceLine.ofLine?_eq_some_iff.2 ⟨hfirst, hindent, hmark, hlen, hrun, hmem⟩
      rw [throughClosing?_of_closes hl' hclose, otherLines_append hnl, firstLine_append_otherLines]
  | case3 c s hf ih =>
      obtain ⟨⟨through', rest''⟩, hp, h⟩ := Option.map_eq_some_iff.1 h
      cases h
      have hother : otherLines (c :: s) ≠ [] := ne_nil_of_throughClosing? hp
      obtain ⟨hfirst, hothers⟩ := firstLine_firstLine_append (t := through' ++ rest') (c :: s)
        fun hnil => absurd hnil hother
      have hnot : ∀ f, FenceLine.ofLine? (firstLine (c :: s)) = some f → ¬f.closes opening := by
        rw [Option.filter_eq_none_iff] at hf
        exact fun f hl => hf f hl
      rw [List.append_assoc, throughClosing?_of_not_closes (by rw [hfirst]; exact hnot), hothers, ih hp, hfirst]
      rfl

/-- Whether no block begins on a line. -/
def Loose (line rest : Text) : Prop := ∀ k, fence? line = some k → ∀ k' ∈ fences rest, ¬Closes k' k

theorem fencedParts_of_loose {s : Text} (h : Loose (firstLine s) (otherLines s)) :
    fencedParts s = (firstLine s).map .plain ++ fencedParts (otherLines s) := by
  cases s with
  | nil => rfl
  | cons c s =>
      rw [fencedParts]
      split
      · rfl
      · rename_i opening hl
        split
        · rfl
        · rename_i through rest ht
          rw [throughClosing?_eq_none_iff.2 (h _ (fence?_of_ofLine? hl))] at ht
          cases ht

theorem fencedParts_of_opens {s through rest : Text} {opening : FenceLine}
    (hl : FenceLine.ofLine? (firstLine s) = some opening)
    (ht : throughClosing? opening (otherLines s) = some (through, rest)) :
    fencedParts s =
      opening.indent.map .plain ++ .code (opening.run ++ opening.rest ++ through) :: fencedParts rest := by
  cases s with
  | nil => cases hl
  | cons c s =>
      rw [fencedParts]
      split
      · rename_i hnone
        rw [hl] at hnone
        cases hnone
      · rename_i opening' hl'
        obtain rfl : opening = opening' := Option.some.inj (hl.symm.trans hl')
        split
        · rename_i hnone
          rw [ht] at hnone
          cases hnone
        · rename_i through' rest' ht'
          cases ht.symm.trans ht'
          rfl

/-- Whether the place behind some parts is settled by characters outside their blocks. -/
def SettledBehind (parts : List (Segment Char)) (next : Option Char) : Prop :=
  ∃ (before : List (Segment Char)) (front : Text), parts = before ++ front.map .plain ∧ Settled front next

/-- Whether something that is not blank stands before the first block. -/
def Shielded (parts : List (Segment Char)) : Prop :=
  ∀ (front code : Text) (rest : List (Segment Char)), parts = front.map .plain ++ .code code :: rest →
    ∃ d ∈ front, ¬isBlank d

section
variable {parts : List (Segment Char)} {next : Option Char}

theorem SettledBehind.text (h : SettledBehind parts next) : Settled (segmentsText parts) next := by
  obtain ⟨before, front, rfl, hfront⟩ := h
  rw [segmentsText_append, segmentsText_map_plain]
  exact hfront.append _

theorem SettledBehind.of_newline {l : Text} (h : SettledBehind ((l ++ ['\n']).map .plain ++ parts) next) :
    SettledBehind parts next := by
  obtain ⟨before, front, heq, hfront⟩ := h
  rcases List.append_eq_append_iff.1 heq with ⟨a, _, ha⟩ | ⟨b, hb, hparts⟩
  · exact ⟨a, front, ha, hfront⟩
  · obtain ⟨front', front'', rfl, rfl, rfl⟩ := List.map_eq_append_iff.1 hparts
    rcases List.eq_nil_or_concat front' with rfl | ⟨a, e, rfl⟩
    · exact ⟨[], front'', rfl, hfront⟩
    · rw [List.concat_eq_append] at hb hfront
      rw [List.map_append, List.map_append, ← List.append_assoc] at hb
      obtain ⟨-, he⟩ := List.append_inj' hb rfl
      obtain rfl : '\n' = e := by simpa using he
      rw [List.append_assoc] at hfront
      exact ⟨[], front'', rfl, hfront.of_newline⟩

theorem SettledBehind.extend {into : Text} (h : SettledBehind parts into.head?) (hne : into ≠ []) (hnl : '\n' ∉ into)
    (next : Option Char) : SettledBehind (parts ++ into.map .plain) next := by
  obtain ⟨before, front, rfl, hfront⟩ := h
  exact ⟨before, front ++ into, by rw [List.map_append, List.append_assoc], hfront.extend hne hnl next⟩

theorem SettledBehind.inert {c : Char} {into : Text} (h : SettledBehind parts (some c)) (hinto : Inert into) :
    SettledBehind parts into.head? := by
  obtain ⟨before, front, hparts, hfront⟩ := h
  exact ⟨before, front, hparts, hfront.inert hinto⟩

/-- A character that is not blank settles the place behind it, unless it is part of a run. -/
theorem settledBehind_concat (parts : List (Segment Char)) {d : Char} (hblank : ¬isBlank d)
    (hd : isFenceMark d → d ∉ next) : SettledBehind (parts ++ [.plain d]) next :=
  ⟨parts, [d], rfl, [], d, [], rfl, List.not_mem_nil, hblank, hd⟩

theorem Shielded.cons {d : Char} (h : ¬isBlank d ∨ Shielded parts) : Shielded (.plain d :: parts) := by
  intro front code rest heq
  cases front with
  | nil => cases heq
  | cons e front =>
      obtain ⟨he, hparts⟩ := List.cons.inj heq
      cases he
      rcases h with h | h
      · exact ⟨d, List.mem_cons_self, h⟩
      · obtain ⟨a, ha, hblank⟩ := h front code rest hparts
        exact ⟨a, List.mem_cons_of_mem d ha, hblank⟩

theorem code_not_mem_map_plain {code s : Text} : Segment.code code ∉ s.map .plain := by
  intro h
  obtain ⟨c, -, hc⟩ := List.mem_map.1 h
  cases hc

theorem SettledBehind.of_code {before : List (Segment Char)} {code : Text}
    (h : SettledBehind (before ++ .code code :: parts) next) : SettledBehind parts next := by
  obtain ⟨before', front, heq, hfront⟩ := h
  rcases List.append_eq_append_iff.1 heq with ⟨a, _, ha⟩ | ⟨b, _, hb⟩
  · cases a with
    | nil => exact absurd (ha ▸ List.mem_cons_self) code_not_mem_map_plain
    | cons p a =>
        obtain ⟨-, rfl⟩ := List.cons.inj ha
        exact ⟨a, front, rfl, hfront⟩
  · exact absurd (hb ▸ List.mem_append_right b List.mem_cons_self) code_not_mem_map_plain

end

theorem fencedParts_of_shielded {s : Text} (h : Shielded (fencedParts s)) :
    fencedParts s = (firstLine s).map .plain ++ fencedParts (otherLines s) := by
  apply fencedParts_of_loose
  intro k hk k' hk' hclose
  obtain ⟨opening, hl, rfl⟩ := Option.map_eq_some_iff.1 hk
  cases ht : throughClosing? opening (otherLines s) with
  | none => exact throughClosing?_eq_none_iff.1 ht k' hk' hclose
  | some p =>
      obtain ⟨through, rest⟩ := p
      obtain ⟨d, hd, hblank⟩ := h _ _ _ (fencedParts_of_opens hl ht)
      exact hblank ((FenceLine.ofLine?_eq_some_iff.1 hl).2.1 d hd)

theorem loose_or_opens (s : Text) :
    Loose (firstLine s) (otherLines s) ∨ ∃ opening through rest, FenceLine.ofLine? (firstLine s) = some opening ∧
      throughClosing? opening (otherLines s) = some (through, rest) := by
  cases hl : FenceLine.ofLine? (firstLine s) with
  | none =>
      apply Or.inl
      intro k hk
      rw [fence?, hl] at hk
      cases hk
  | some opening =>
      cases ht : throughClosing? opening (otherLines s) with
      | none =>
          apply Or.inl
          intro k hk
          rw [fence?_of_ofLine? hl] at hk
          cases hk
          exact throughClosing?_eq_none_iff.1 ht
      | some p => exact Or.inr ⟨opening, p.1, p.2, rfl, ht⟩

theorem ne_nil_of_fencedParts_eq {s : Text} {p : Segment Char} {before after : List (Segment Char)}
    (h : fencedParts s = before ++ p :: after) : s ≠ [] := by
  rintro rfl
  rw [fencedParts] at h
  cases before <;> cases h

/-- Induction along the blocks of a text: over a line on which no block begins, and over a block. -/
@[elab_as_elim] theorem blocks_induction {motive : Text → Prop} (nil : motive [])
    (line : ∀ s, Loose (firstLine s) (otherLines s) → motive (otherLines s) → motive s)
    (block : ∀ s opening through rest, FenceLine.ofLine? (firstLine s) = some opening →
      throughClosing? opening (otherLines s) = some (through, rest) → motive rest → motive s) (s : Text) : motive s := by
  induction hn : s.length using Nat.strongRecOn generalizing s with
  | ind n ih =>
      cases s with
      | nil => exact nil
      | cons a s =>
          have hshorter : (otherLines (a :: s)).length < n := by
            rw [← hn]
            exact length_otherLines_lt a s
          rcases loose_or_opens (a :: s) with hloose | ⟨opening, through, rest, hl, ht⟩
          · exact line _ hloose (ih _ hshorter _ rfl)
          · have hlength := length_throughClosing?_le ht
            exact block _ opening through rest hl ht (ih _ (Nat.lt_of_le_of_lt hlength hshorter) _ rfl)

/-- A line on which no block begins stays one in front of a text with fewer fences. -/
theorem fencedParts_append_of_loose {s t : Text} (hs : otherLines s ≠ [])
    (hloose : Loose (firstLine s) (otherLines s)) (hsub : (fences t).Sublist (fences (otherLines s))) :
    fencedParts (firstLine s ++ t) = (firstLine s).map .plain ++ fencedParts t := by
  obtain ⟨hfirst, hother⟩ := firstLine_firstLine_append s (fun hnil : otherLines s = [] => absurd hnil hs) (t := t)
  have hloose' : Loose (firstLine (firstLine s ++ t)) (otherLines (firstLine s ++ t)) := by
    rw [hfirst, hother]
    exact fun k hk k' hk' => hloose k hk k' (hsub.subset hk')
  rw [fencedParts_of_loose hloose', hfirst, hother]

/-- A block stays one in front of a text that does not go on with its closing run. -/
theorem fencedParts_append_of_opens {s through rest t : Text} {opening : FenceLine}
    (hl : FenceLine.ofLine? (firstLine s) = some opening)
    (ht : throughClosing? opening (otherLines s) = some (through, rest))
    (hhead : ∀ m, isFenceMark m → m ∈ t.head? → m ∈ rest.head?) :
    fencedParts (opening.indent ++ (opening.run ++ opening.rest ++ through ++ t)) =
      opening.indent.map .plain ++ .code (opening.run ++ opening.rest ++ through) :: fencedParts t := by
  have hs : otherLines s ≠ [] := ne_nil_of_throughClosing? ht
  obtain ⟨hfirst, hother⟩ :=
    firstLine_firstLine_append s (fun hnil : otherLines s = [] => absurd hnil hs) (t := through ++ t)
  have heq : opening.indent ++ (opening.run ++ opening.rest ++ through ++ t) = firstLine s ++ (through ++ t) := by
    rw [FenceLine.line_eq hl]
    simp only [List.append_assoc]
  rw [heq, fencedParts_of_opens (by rw [hfirst]; exact hl) (by rw [hother]; exact throughClosing?_append ht hhead)]

section
variable {into : Text} (hinto : Inert into) {c : Char}
include hinto

/-- An edit on a line on which no block begins. -/
theorem fencedParts_edit_line {front behind : Text} (hfront : Settled front (some c)) (hnl : '\n' ∉ front)
    (hloose : Loose (firstLine (front ++ c :: behind)) (otherLines (front ++ c :: behind)))
    (hshield : c = '\n' → Shielded (fencedParts behind)) {parts : List (Segment Char)}
    (hparts : fencedParts (front ++ c :: behind) = front.map .plain ++ .plain c :: parts) :
    fencedParts (front ++ (into ++ behind)) = front.map .plain ++ (into.map .plain ++ parts) := by
  have hline := fence?_edit hfront hinto
  have hfirst : firstLine (front ++ (into ++ behind)) = front ++ (into ++ firstLine behind) := by
    rw [firstLine_append hnl, firstLine_append hinto.2]
  have hother : otherLines (front ++ (into ++ behind)) = otherLines behind := by
    rw [otherLines_append hnl, otherLines_append hinto.2]
  rw [fencedParts_of_loose hloose] at hparts
  by_cases hc : c = '\n'
  · subst hc
    rw [firstLine_append hnl, otherLines_append hnl, firstLine_newline, otherLines_newline] at hloose hparts
    have hbehind : parts = fencedParts behind := by
      rw [List.map_append, List.append_assoc] at hparts
      exact (List.cons.inj (List.append_cancel_left hparts)).2.symm
    have hloose' : Loose (firstLine (front ++ (into ++ behind))) (otherLines (front ++ (into ++ behind))) := by
      rw [hfirst, hother]
      intro k hk k' hk'
      rw [← hline []] at hk
      exact hloose k hk k' ((fences_otherLines_sublist behind).subset hk')
    rw [fencedParts_of_loose hloose', hfirst, hother, hbehind, fencedParts_of_shielded (hshield rfl),
      List.map_append, List.map_append, List.append_assoc, List.append_assoc]
  · rw [firstLine_append hnl, otherLines_append hnl, firstLine_cons hc, otherLines_cons hc] at hloose hparts
    have hbehind : parts = (firstLine behind).map .plain ++ fencedParts (otherLines behind) := by
      rw [List.map_append, List.append_assoc] at hparts
      exact (List.cons.inj (List.append_cancel_left hparts)).2.symm
    have hloose' : Loose (firstLine (front ++ (into ++ behind))) (otherLines (front ++ (into ++ behind))) := by
      rw [hfirst, hother]
      intro k hk
      rw [← hline (firstLine behind)] at hk
      exact hloose k hk
    rw [fencedParts_of_loose hloose', hfirst, hother, hbehind,
      List.map_append, List.map_append, List.append_assoc, List.append_assoc]

/-- Whether the blocks before and behind an edit are there when it is made. -/
def KeptAround (into : Text) (parts parts' : List (Segment Char)) : Prop :=
  fencedParts (segmentsText parts ++ (into ++ segmentsText parts')) = parts ++ (into.map .plain ++ parts')

section
variable {s : Text} {parts parts' : List (Segment Char)}

/-- An edit behind a line on which no block begins. -/
theorem KeptAround.behind_line (hs : otherLines s ≠ []) (hloose : Loose (firstLine s) (otherLines s))
    (hother : fencedParts (otherLines s) = parts ++ .plain c :: parts') (hparts : SettledBehind parts (some c))
    (h : KeptAround into parts parts') : KeptAround into ((firstLine s).map .plain ++ parts) parts' := by
  have hsub := fences_edit_sublist hparts.text hinto (segmentsText parts')
  rw [← segmentsText_plain, ← segmentsText_append, ← hother, segmentsText_fencedParts] at hsub
  rw [KeptAround, segmentsText_append, segmentsText_map_plain, List.append_assoc,
    fencedParts_append_of_loose hs hloose hsub, h, List.append_assoc]

/-- An edit behind a block. -/
theorem KeptAround.behind_block {through rest : Text} {opening : FenceLine}
    (hl : FenceLine.ofLine? (firstLine s) = some opening)
    (ht : throughClosing? opening (otherLines s) = some (through, rest))
    (hrest : fencedParts rest = parts ++ .plain c :: parts') (h : KeptAround into parts parts') :
    KeptAround into (opening.indent.map .plain ++ .code (opening.run ++ opening.rest ++ through) :: parts) parts' := by
  have hhead : ∀ m, isFenceMark m → m ∈ (segmentsText parts ++ (into ++ segmentsText parts')).head? →
      m ∈ rest.head? := by
    intro m hm hmem
    rw [← segmentsText_fencedParts rest, hrest, segmentsText_append]
    obtain ⟨⟨e, t, rfl, he⟩, -⟩ := hinto
    cases hsa : segmentsText parts with
    | nil =>
        rw [hsa] at hmem
        cases hmem
        exact absurd hm he
    | cons d w =>
        rw [hsa] at hmem
        exact hmem
  rw [KeptAround, segmentsText_append, segmentsText_map_plain, segmentsText_code, List.append_assoc, List.append_assoc,
    fencedParts_append_of_opens hl ht hhead, h]
  simp only [List.append_assoc, List.cons_append]

/-- An edit on the first line, on which no block begins. -/
theorem keptAround_on_line {front r : Text} (hline : firstLine s = front ++ c :: r)
    (hloose : Loose (firstLine s) (otherLines s)) (hfront : Settled front (some c))
    (hshield : c = '\n' → Shielded (r.map .plain ++ fencedParts (otherLines s))) :
    KeptAround into (front.map .plain) (r.map .plain ++ fencedParts (otherLines s)) := by
  have hs : s = front ++ c :: (r ++ otherLines s) := by
    rw [← List.cons_append, ← List.append_assoc, ← hline, firstLine_append_otherLines]
  have hr : c = '\n' → r = [] := by
    rintro rfl
    apply Decidable.byContradiction
    intro hr
    have hnot := not_mem_of_firstLine_eq (a := front ++ ['\n']) (by rw [hline, List.append_assoc]; rfl) hr
    exact hnot (List.mem_append_right front List.mem_cons_self)
  have hnl : '\n' ∉ front := not_mem_of_firstLine_eq hline (List.cons_ne_nil c r)
  rw [KeptAround, segmentsText_map_plain, segmentsText_append, segmentsText_map_plain, segmentsText_fencedParts]
  refine fencedParts_edit_line hinto hfront hnl (hs ▸ hloose) (fun hc => ?_) ?_
  · have hshield := hshield hc
    rw [hr hc] at hshield ⊢
    exact hshield
  · rw [← hs, fencedParts_of_loose hloose, hline, List.map_append, List.append_assoc]
    rfl

omit hinto in
/-- On a line with an opening fence, no place before the fence is settled. -/
theorem not_settledBehind_indent {opening : FenceLine} (hl : FenceLine.ofLine? (firstLine s) = some opening)
    {b : List (Segment Char)} (hb : opening.indent.map .plain = parts ++ b) (hparts : SettledBehind parts (some c)) :
    False := by
  obtain ⟨front, line, hline, rfl, -⟩ := List.map_eq_append_iff.1 hb
  have hfront := hparts.text
  rw [segmentsText_map_plain] at hfront
  obtain ⟨y, d, w, rfl, -, hblank, -⟩ := hfront
  refine absurd ((FenceLine.ofLine?_eq_some_iff.1 hl).2.1 d ?_) hblank
  rw [hline]
  exact List.mem_append_left _ (List.mem_append_right y List.mem_cons_self)

/-- An edit behind a settled place leaves the blocks of a text as they are. -/
theorem fencedParts_edit (h : fencedParts s = parts ++ .plain c :: parts') (hparts : SettledBehind parts (some c))
    (hshield : c = '\n' → Shielded parts') : KeptAround into parts parts' := by
  induction s using blocks_induction generalizing parts with
  | nil => exact absurd rfl (ne_nil_of_fencedParts_eq h)
  | line s hloose ih =>
      rw [fencedParts_of_loose hloose] at h
      -- The edit is made behind the first line, or on it.
      have hlater : ∀ a, parts = (firstLine s).map .plain ++ a →
          fencedParts (otherLines s) = a ++ .plain c :: parts' → KeptAround into parts parts' := by
        rintro a rfl hother
        have hs : otherLines s ≠ [] := ne_nil_of_fencedParts_eq hother
        have ha : SettledBehind a (some c) := by
          rcases firstLine_cases s with ⟨l, -, hline⟩ | ⟨-, -, hnil⟩
          · rw [hline] at hparts
            exact hparts.of_newline
          · exact absurd hnil hs
        exact KeptAround.behind_line hinto hs hloose hother ha (ih hother ha)
      rcases List.append_eq_append_iff.1 h with ⟨a, ha, hother⟩ | ⟨b, hb, hother⟩
      · exact hlater a ha hother
      · cases b with
        | nil => exact hlater [] (by rw [hb]; simp) hother.symm
        | cons p b =>
            rw [List.cons_append, List.cons.injEq] at hother
            obtain ⟨rfl, rfl⟩ := hother
            obtain ⟨front, line, hline, rfl, hrest⟩ := List.map_eq_append_iff.1 hb
            obtain ⟨e, r, rfl, he, rfl⟩ := List.map_eq_cons_iff.1 hrest
            cases he
            have hfront := hparts.text
            rw [segmentsText_map_plain] at hfront
            exact keptAround_on_line hinto hline hloose hfront hshield
  | block s opening through rest hl ht ih =>
      rw [fencedParts_of_opens hl ht] at h
      rcases List.append_eq_append_iff.1 h with ⟨a, rfl, hrest⟩ | ⟨b, hb, -⟩
      · cases a with
        | nil => cases hrest
        | cons p a =>
            rw [List.cons_append, List.cons.injEq] at hrest
            obtain ⟨rfl, hbehind⟩ := hrest
            exact KeptAround.behind_block hinto hl ht hbehind (ih hbehind hparts.of_code)
      · exact (not_settledBehind_indent hl hb hparts).elim

end

end

end MarkdownLinks.Code
