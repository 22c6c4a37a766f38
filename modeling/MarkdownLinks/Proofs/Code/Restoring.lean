import MarkdownLinks.Proofs.Code.Outline

/-! When restoring gives the text back. Restoring searches a text that holds prose, placeholders and code
already restored, and takes every occurrence of a placeholder for the place of its slot. It follows the
outline step by step as long as the placeholder of the slot that is next occurs only where the slot
stands. The first occurrence elsewhere is a loss that no later step makes good: code begins with a fence
character, which no placeholder has, so the character put there stays, where the text has another one. -/

namespace MarkdownLinks.Code

open Outline

/-- Whether the placeholder of a slot begins only where the slot stands, in an outline written out with
some text behind it. -/
def Unmistakable (slot : Slot) (o : Outline) (behind : Text) : Prop :=
  ∀ (before : Outline) (p : Piece Slot) (after : Outline), o = before ++ p :: after → p ≠ .item slot →
    ¬BeginsIn slot.placeholder (p.render Slot.placeholder) (after.written ++ behind)

/-- Whether each slot is unmistakable when its turn comes, the slots before it being filled. -/
def FilledAlone (contents : Slot → Outline) : List Slot → Outline → Prop
  | [], _ => True
  | slot :: order, o => Unmistakable slot o [] ∧ FilledAlone contents order (o.fill slot (contents slot))

theorem unmistakable_nil (slot : Slot) (behind : Text) : Unmistakable slot [] behind := by
  intro before p after h
  cases before <;> cases h

theorem unmistakable_cons_iff {slot : Slot} {p : Piece Slot} {o : Outline} {behind : Text} :
    Unmistakable slot (p :: o) behind ↔
      (p ≠ .item slot → ¬BeginsIn slot.placeholder (p.render Slot.placeholder) (o.written ++ behind)) ∧
        Unmistakable slot o behind := by
  constructor
  · intro h
    exact ⟨h [] p o rfl, fun before q after ho => h (p :: before) q after (by rw [ho]; rfl)⟩
  · rintro ⟨hp, ho⟩ before q after h
    cases before with
    | nil =>
        cases h
        exact hp
    | cons r before =>
        cases h
        exact ho before q after rfl

theorem placeholder_ne_nil (slot : Slot) : slot.placeholder ≠ [] := by
  obtain ⟨s, hs⟩ := Slot.exists_placeholder_eq_cons slot
  rw [hs]
  exact List.cons_ne_nil _ s

section
variable (slot : Slot) (content : Outline)

/-- Where the placeholder is unmistakable, replacing it fills the slot. -/
theorem replaceAll_written {o : Outline} {behind : Text} (h : Unmistakable slot o behind) :
    replaceAll slot.placeholder content.written (o.written ++ behind) =
      (o.fill slot content).written ++ replaceAll slot.placeholder content.written behind := by
  induction o with
  | nil => rfl
  | cons p o ih =>
      obtain ⟨hp, ho⟩ := unmistakable_cons_iff.1 h
      by_cases hslot : p = .item slot
      · subst hslot
        rw [written_item, List.append_assoc, replaceAll_word_append (placeholder_ne_nil slot), ih ho,
          fill_item_self, written_append, List.append_assoc]
      · have hfill : fill (p :: o) slot content = p :: fill o slot content := by
          rw [fill, List.flatMap_cons, if_neg hslot]
          rfl
        rw [hfill, written_cons, written_cons, List.append_assoc,
          replaceAll_append (placeholder_ne_nil slot) _ (hp hslot), ih ho, List.append_assoc]

end

/-- How a text that was restored at a wrong place goes on, and how the outline goes on there: code
begins in the one, where the other has a character of another kind or a whole placeholder. -/
inductive Clash : Text → Outline → Prop where
  | char {f d : Char} (x : Text) (o : Outline) (hf : isFenceMark f) (hd : ¬isFenceMark d) :
      Clash (f :: x) (.char d :: o)
  | slot {other : Slot} {v w : Text} {f : Char} (x : Text) (o : Outline) (hv : other.placeholder = v ++ w)
      (hw : Slot.IsTail w) (hf : isFenceMark f) : Clash (v ++ f :: x) (.item other :: o)
  | filled {other : Slot} {v w : Text} {f g : Char} (x : Text) (o : Outline)
      (hv : other.placeholder = v ++ w) (hw : Slot.IsTail w) (hf : isFenceMark f) (hg : isFenceMark g) :
      Clash (v ++ f :: x) (.char g :: o)

/-- Whether a text and an outline agree up to a place where they clash. -/
def Deviates (s : Text) (o : Outline) : Prop :=
  ∃ (before after : Outline) (x : Text), o = before ++ after ∧ s = before.written ++ x ∧ Clash x after

theorem Deviates.append {s : Text} {o : Outline} (h : Deviates s o) (front : Outline) :
    Deviates (front.written ++ s) (front ++ o) := by
  obtain ⟨before, after, x, rfl, rfl, hx⟩ := h
  exact ⟨front ++ before, after, x, by rw [List.append_assoc], by rw [written_append, List.append_assoc], hx⟩

/-- A placeholder without its last one or two characters is not empty, and begins with an underscore. -/
theorem exists_stub_eq_cons {slot : Slot} {v w : Text} (hv : slot.placeholder = v ++ w) (hw : Slot.IsTail w) :
    ∃ v', v = '_' :: v' := by
  obtain ⟨s, hs⟩ := Slot.exists_placeholder_eq_cons slot
  have hlen := Slot.two_lt_length_placeholder slot
  rw [hv] at hs hlen
  cases v with
  | nil => rcases hw with rfl | rfl <;> simp at hlen
  | cons c v =>
      cases hs
      exact ⟨v, rfl⟩

theorem Deviates.ne {s text : Text} (h : Deviates s (ofText text)) : s ≠ text := by
  obtain ⟨before, after, x, ho, rfl, hx⟩ := h
  intro htext
  have hboth := congrArg written ho
  rw [written_ofText, written_append, ← htext] at hboth
  have hx' : x = after.written := List.append_cancel_left hboth
  cases hx with
  | char x o hf hd =>
      rw [written_char] at hx'
      cases hx'
      exact hd hf
  | slot x o hv hw hf =>
      have hmem : Piece.item _ ∈ ofText text := ho ▸ List.mem_append_right before List.mem_cons_self
      obtain ⟨c, -, hc⟩ := List.mem_map.1 hmem
      cases hc
  | filled x o hv hw hf hg =>
      obtain ⟨v', rfl⟩ := exists_stub_eq_cons hv hw
      rw [written_char, List.cons_append, List.cons.injEq] at hx'
      rw [← hx'.1] at hg
      exact absurd hg (by decide)

/-- Whether an outline is code: it begins with a fence character. -/
def BeginsMarked (content : Outline) : Prop := ∃ c, isFenceMark c ∧ .char c ∈ content.head?

theorem BeginsMarked.exists_eq {content : Outline} (h : BeginsMarked content) :
    ∃ f o, isFenceMark f ∧ content = .char f :: o := by
  obtain ⟨f, hf, hhead⟩ := h
  obtain ⟨o, ho⟩ := List.head?_eq_some_iff.1 hhead
  exact ⟨f, o, hf, ho⟩

theorem not_prefix_of_isFenceMark {f : Char} (hf : isFenceMark f) (slot : Slot) (s : Text) :
    ¬slot.placeholder <+: f :: s := by
  obtain ⟨t, ht⟩ := Slot.exists_placeholder_eq_cons slot
  rw [ht, List.cons_prefix_cons]
  rintro ⟨rfl, -⟩
  exact absurd hf (by decide)

/-- The first occurrence of a placeholder that begins in another one begins with both of its last two
characters, or with the last one. -/
theorem exists_first_tail {slot other : Slot} (hother : slot ≠ other) {s : Text}
    (h : BeginsIn slot.placeholder other.placeholder s) :
    ∃ v w, other.placeholder = v ++ w ∧ Slot.IsTail w ∧ slot.placeholder <+: w ++ s ∧
      ¬BeginsIn slot.placeholder v (w ++ s) := by
  have htail : ∀ u, u <:+ other.placeholder → u ≠ [] → slot.placeholder <+: u ++ s → Slot.IsTail u := by
    intro u hu hune hpre
    rcases Slot.overlap hu hune hpre with rfl | hu
    · exact absurd (Slot.eq_of_placeholder_prefix hpre) hother
    · exact hu
  have hearlier : ∀ v w, other.placeholder = v ++ w → w ≠ [] → BeginsIn slot.placeholder v (w ++ s) →
      w = ['_'] ∧ slot.placeholder <+: ['_', '_'] ++ s := by
    rintro v w hv hw ⟨u, ⟨t, rfl⟩, hune, hpre⟩
    have hu : u ++ w <:+ other.placeholder := ⟨t, by rw [hv, List.append_assoc]⟩
    rw [← List.append_assoc] at hpre
    obtain ⟨hone, htwo⟩ := (htail _ hu (by simp [hune]) hpre).of_append hune hw
    rw [htwo] at hpre
    exact ⟨hone, hpre⟩
  have hends : other.placeholder = other.name ++ decimal other.number ++ ['_', '_'] := by
    rw [Slot.placeholder_eq, List.append_assoc]
  have hend : other.placeholder = other.name ++ decimal other.number ++ ['_'] ++ ['_'] := by
    rw [hends, List.append_assoc _ ['_']]
    rfl
  by_cases htwo : slot.placeholder <+: ['_', '_'] ++ s
  · refine ⟨_, _, hends, Or.inr rfl, htwo, fun hcopy => ?_⟩
    obtain ⟨hone, -⟩ := hearlier _ _ hends (List.cons_ne_nil _ _) hcopy
    cases hone
  · refine ⟨_, _, hend, Or.inl rfl, ?_, fun hcopy => htwo (hearlier _ _ hend (List.cons_ne_nil _ _) hcopy).2⟩
    obtain ⟨u, hu, hune, hpre⟩ := h
    rcases htail u hu hune hpre with rfl | rfl
    · exact hpre
    · exact absurd hpre htwo

section
variable {slot : Slot} {content : Outline} (hcontent : BeginsMarked content)
include hcontent

/-- An occurrence of a placeholder that does not begin at its slot makes the text deviate. -/
theorem deviates_of_beginsIn {p : Piece Slot} (hp : p ≠ .item slot) {s : Text}
    (h : BeginsIn slot.placeholder (p.render Slot.placeholder) s) (o : Outline) :
    Deviates (replaceAll slot.placeholder content.written (p.render Slot.placeholder ++ s)) (p :: o) := by
  have hne := placeholder_ne_nil slot
  obtain ⟨f, o', hf, rfl⟩ := hcontent.exists_eq
  cases p with
  | char d =>
      rcases beginsIn_cons_iff.1 h with h | h
      · obtain ⟨rest, hrest⟩ := h
        obtain ⟨t, ht⟩ := Slot.exists_placeholder_eq_cons slot
        have hd : ¬isFenceMark d := by
          rw [ht] at hrest
          cases hrest
          decide
        have hs : Piece.render Slot.placeholder (.char d) ++ s = slot.placeholder ++ rest := hrest.symm
        rw [hs, replaceAll_word_append hne]
        exact ⟨[], .char d :: o, _, rfl, rfl, Clash.char _ o hf hd⟩
      · exact absurd h (not_beginsIn_nil _ _)
  | item other =>
      have hother : slot ≠ other := fun h => hp (h ▸ rfl)
      obtain ⟨v, w, hv, hw, hpre, hcopy⟩ := exists_first_tail hother h
      obtain ⟨rest, hrest⟩ := hpre
      have hs : Piece.render Slot.placeholder (.item other) ++ s = v ++ (slot.placeholder ++ rest) := by
        rw [hrest, ← List.append_assoc, ← hv]
        rfl
      rw [hs, replaceAll_append hne _ (hrest ▸ hcopy), replaceAll_word_append hne]
      exact ⟨[], .item other :: o, _, rfl, rfl, Clash.slot _ o hv hw hf⟩

/-- A placeholder that occurs where its slot does not stand makes the text deviate. -/
theorem deviates_of_not_unmistakable {o : Outline} {behind : Text} (h : ¬Unmistakable slot o behind)
    (more : Outline) :
    Deviates (replaceAll slot.placeholder content.written (o.written ++ behind))
      (o.fill slot content ++ more) := by
  have hne := placeholder_ne_nil slot
  induction o with
  | nil => exact absurd (unmistakable_nil slot behind) h
  | cons p o ih =>
      by_cases hslot : p = .item slot
      · subst hslot
        have ho : ¬Unmistakable slot o behind := fun ho =>
          h (unmistakable_cons_iff.2 ⟨fun hp => absurd rfl hp, ho⟩)
        rw [written_item, List.append_assoc, replaceAll_word_append hne, fill_item_self, List.append_assoc]
        exact (ih ho).append content
      · have hfill : fill (p :: o) slot content = [p] ++ fill o slot content := by
          rw [fill, List.flatMap_cons, if_neg hslot]
          rfl
        rw [written_cons, List.append_assoc, hfill]
        by_cases hp : BeginsIn slot.placeholder (p.render Slot.placeholder) (written o ++ behind)
        · exact deviates_of_beginsIn hcontent hslot hp _
        · have ho : ¬Unmistakable slot o behind := fun ho => h (unmistakable_cons_iff.2 ⟨fun _ => hp, ho⟩)
          have hp' : p.render Slot.placeholder = written [p] := (List.append_nil _).symm
          rw [replaceAll_append hne _ hp, hp', List.append_assoc]
          exact (ih ho).append [p]

/-- Where a text deviates, replacing placeholders does not bring it back. -/
theorem Deviates.replaceAll {s : Text} {o : Outline} (h : Deviates s o) :
    Deviates (replaceAll slot.placeholder content.written s) (o.fill slot content) := by
  have hne := placeholder_ne_nil slot
  obtain ⟨before, after, x, rfl, rfl, hx⟩ := h
  rw [fill_append]
  by_cases hbefore : Unmistakable slot before x
  · rw [replaceAll_written slot content hbefore]
    refine ⟨_, _, _, rfl, rfl, ?_⟩
    cases hx with
    | char x o hf hd =>
        rw [replaceAll_cons hne _ (not_prefix_of_isFenceMark hf slot x), fill_char]
        exact Clash.char _ _ hf hd
    | @slot other v w f x o hv hw hf =>
        have hmark := Slot.fenceMark_not_mem_placeholder hf slot
        rw [replaceAll_append hne _ (Slot.not_beginsIn_stub hv hw hmark),
          replaceAll_cons hne _ (not_prefix_of_isFenceMark hf slot x)]
        by_cases hother : other = slot
        · obtain ⟨g, o', hg, rfl⟩ := hcontent.exists_eq
          rw [hother, fill_item_self]
          exact Clash.filled _ _ hv hw hf hg
        · rw [fill_item_of_ne slot content hother]
          exact Clash.slot _ _ hv hw hf
    | filled x o hv hw hf hg =>
        have hmark := Slot.fenceMark_not_mem_placeholder hf slot
        rw [replaceAll_append hne _ (Slot.not_beginsIn_stub hv hw hmark),
          replaceAll_cons hne _ (not_prefix_of_isFenceMark hf slot x), fill_char]
        exact Clash.filled _ _ hv hw hf hg
  · exact deviates_of_not_unmistakable hcontent hbefore _

end

/-- The placeholders of some slots replaced by what the slots hold, one slot after the other. -/
def restoreSlots (contents : Slot → Outline) (order : List Slot) (s : Text) : Text :=
  order.foldl (fun s slot => replaceAll slot.placeholder (contents slot).written s) s

section
variable {contents : Slot → Outline} {order : List Slot}

theorem restoreSlots_written {o : Outline} (h : FilledAlone contents order o) :
    restoreSlots contents order o.written = (o.fillAll contents order).written := by
  induction order generalizing o with
  | nil => rfl
  | cons slot order ih =>
      have hstep := replaceAll_written slot (contents slot) h.1
      rw [List.append_nil, replaceAll_nil (placeholder_ne_nil slot), List.append_nil] at hstep
      rw [restoreSlots, List.foldl_cons, hstep]
      exact ih h.2

theorem Deviates.restoreSlots (hcontents : ∀ slot ∈ order, BeginsMarked (contents slot)) {s : Text} {o : Outline}
    (h : Deviates s o) : Deviates (restoreSlots contents order s) (o.fillAll contents order) := by
  induction order generalizing s o with
  | nil => exact h
  | cons slot order ih =>
      exact ih (fun other hother => hcontents other (List.mem_cons_of_mem slot hother))
        (h.replaceAll (hcontents slot List.mem_cons_self))

theorem filledAlone_of_restoreSlots (hcontents : ∀ slot ∈ order, BeginsMarked (contents slot)) {text : Text}
    {o : Outline} (hfill : o.fillAll contents order = ofText text)
    (h : restoreSlots contents order o.written = text) : FilledAlone contents order o := by
  induction order generalizing o with
  | nil => trivial
  | cons slot order ih =>
      have hrest : ∀ other ∈ order, BeginsMarked (contents other) := fun other hother =>
        hcontents other (List.mem_cons_of_mem slot hother)
      by_cases hslot : Unmistakable slot o []
      · have hstep := replaceAll_written slot (contents slot) hslot
        rw [List.append_nil, replaceAll_nil (placeholder_ne_nil slot), List.append_nil] at hstep
        rw [restoreSlots, List.foldl_cons, hstep] at h
        exact ⟨hslot, ih hrest hfill h⟩
      · have hdev := deviates_of_not_unmistakable (hcontents slot List.mem_cons_self) hslot []
        rw [List.append_nil, List.append_nil] at hdev
        have hend := hdev.restoreSlots hrest
        rw [← fillAll_cons, hfill] at hend
        exact absurd h hend.ne

end

/-- Putting back numbered code is restoring the slots with these numbers. -/
theorem putBack_eq_restoreSlots {contents : Slot → Outline} {ctor : Nat → Slot} {placeholder : Nat → Text}
    {code : List Text} (hplaceholder : ∀ n, (ctor n).placeholder = placeholder n)
    (hcode : ∀ n, (h : n < code.length) → (contents (ctor n)).written = code[n]) (s : Text) :
    putBack placeholder code s = restoreSlots contents ((List.range code.length).map ctor) s := by
  have hpairs : code.zipIdx = (List.range code.length).map fun n => ((contents (ctor n)).written, n) := by
    apply List.ext_getElem (by simp)
    intro n h _
    rw [List.length_zipIdx] at h
    simp [hcode n h]
  rw [putBack, restoreSlots, hpairs, List.foldl_map, List.foldl_map]
  simp only [hplaceholder]

/-- Restoring what hiding took out restores the slots of the text. -/
theorem restore_eq_restoreSlots (text s : Text) :
    (hide text).2.restore s = restoreSlots (contents text) (spanSlots text ++ blockSlots text) s := by
  have hinline : ∀ n, (Slot.inline n).placeholder = inlinePlaceholder n := fun _ => rfl
  have hfenced : ∀ n, (Slot.fenced n).placeholder = fencedPlaceholder n := fun _ => rfl
  have hspans : ∀ s, putBack inlinePlaceholder ((codes (spanParts isTickPiece (blockOutline text))).map written) s =
      restoreSlots (contents text) (spanSlots text) s := by
    intro s
    rw [spanSlots, ← List.length_map (f := written)]
    refine putBack_eq_restoreSlots hinline (fun n h => ?_) s
    rw [List.length_map] at h
    rw [List.getElem_map, contents, List.getElem?_eq_getElem h, Option.getD_some]
  have hblocks : ∀ s, putBack fencedPlaceholder (codes (fencedParts text)) s =
      restoreSlots (contents text) (blockSlots text) s := by
    refine fun s => putBack_eq_restoreSlots hfenced (fun n h => ?_) s
    rw [contents, List.getElem?_eq_getElem h, Option.getD_some, written_ofText]
  rw [hide_eq, Hidden.restore, hspans, hblocks, restoreSlots, restoreSlots, restoreSlots, List.foldl_append]

/-- Restoring undoes hiding exactly when each placeholder, in its turn, occurs only at its slot. -/
theorem restore_hide_iff (text : Text) :
    (hide text).2.restore (hide text).1 = text ↔
      FilledAlone (contents text) (spanSlots text ++ blockSlots text) (outline text) := by
  have hfill := fillAll_eq_ofText text fun slot => slots_outline text
  rw [writtenWith_outline] at hfill
  rw [restore_eq_restoreSlots, hide_eq]
  constructor
  · exact filledAlone_of_restoreSlots (fun slot hslot => (contents_marked text (List.mem_append.1 hslot)).1) hfill
  · intro h
    rw [restoreSlots_written h, hfill, written_ofText]

/-- The text has the placeholder of its own span in it, which is restored to the span too. -/
theorem restore_hide_ne :
    let text := "__INLINE_CODE_0__\x60x\x60".toList
    (hide text).2.restore (hide text).1 ≠ text := by
  decide +kernel

end MarkdownLinks.Code
