import MarkdownLinks.Proofs.Code.Words

/-! Restoring as substitution. What an edit makes of a masked text may hold the placeholders of the text
in any order, some of them more than once and some not at all, with any words between them but those of
the placeholders. Such a text is an outline written out, and the outline is clean: a word would have to
stand within one of the stretches between the slots. So each placeholder is replaced by its code, and
nothing else is. -/

namespace MarkdownLinks.Code

/-- The code that a placeholder stands for, if it is one of those in the text. -/
def Hidden.code? (hidden : Hidden) : Slot → Option Text
  | .fenced n => hidden.fenced[n]?
  | .inline n => hidden.inline[n]?

namespace Outline

/-- A stretch of text, and then slots, each with a stretch of text behind it. -/
def interleave : Text → List (Slot × Text) → Outline
  | front, [] => ofText front
  | front, (slot, behind) :: rest => ofText front ++ .item slot :: interleave behind rest

theorem mem_slots_interleave {slot : Slot} {front : Text} {rest : List (Slot × Text)}
    (h : slot ∈ slots (interleave front rest)) : ∃ behind, (slot, behind) ∈ rest := by
  induction rest generalizing front with
  | nil =>
      rw [interleave, slots_ofText] at h
      exact absurd h List.not_mem_nil
  | cons p rest ih =>
      obtain ⟨other, behind⟩ := p
      rw [interleave, slots_append, slots_ofText, List.nil_append, slots_item] at h
      rcases List.mem_cons.1 h with rfl | h
      · exact ⟨behind, List.mem_cons_self⟩
      · obtain ⟨behind', hmem⟩ := ih h
        exact ⟨behind', List.mem_cons_of_mem _ hmem⟩

theorem writtenWith_congr {f g : Slot → Text} {o : Outline} (h : ∀ slot ∈ slots o, f slot = g slot) :
    o.writtenWith f = o.writtenWith g := by
  induction o with
  | nil => rfl
  | cons p o ih =>
      cases p with
      | char c => exact congrArg (c :: ·) (ih h)
      | item slot =>
          rw [writtenWith_item, writtenWith_item, h slot List.mem_cons_self,
            ih fun other hother => h other (List.mem_cons_of_mem slot hother)]

end Outline

open Outline

theorem item_not_mem_ofText (slot : Slot) (s : Text) : .item slot ∉ ofText s := by
  intro h
  obtain ⟨c, -, hc⟩ := List.mem_map.1 h
  cases hc

section
variable {front : Text} {rest : List (Slot × Text)} (hfront : WordFree front)
include hfront

theorem not_prefix_interleave {word : Text} (hword : word ∈ placeholderWords) :
    ¬ofText word <+: interleave front rest := by
  intro h
  have hpre : ofText word <+: ofText front := by
    cases rest with
    | nil => exact h
    | cons p rest => exact prefix_of_not_mem (item_not_mem_ofText p.1 word) h
  have hpre' := (List.prefix_map_iff_of_injective fun c d hcd => Piece.char.inj hcd).1 hpre
  exact hfront word hword hpre'.isInfix

/-- Slots with stretches between them that do not have the words are a clean outline. -/
theorem clean_interleave (hrest : ∀ p ∈ rest, WordFree p.2) : Clean (interleave front rest) := by
  induction rest generalizing front with
  | nil => exact hfront.clean
  | cons p rest ih =>
      obtain ⟨slot, behind⟩ := p
      obtain ⟨hbehind, hrest⟩ := List.forall_mem_cons.1 hrest
      refine Clean.append_piece (fun word _ => item_not_mem_ofText slot word) hfront.clean ?_
      exact clean_cons_iff.2 ⟨fun _ word => not_prefix_interleave hbehind, ih hbehind hrest⟩

end

theorem getElem?_eq_some_iff_getD {α : Type} {l : List α} {n : Nat} {a : α} (d : α) :
    l[n]? = some a ↔ n < l.length ∧ a = l[n]?.getD d := by
  constructor
  · intro h
    exact ⟨(List.getElem?_eq_some_iff.1 h).1, by rw [h, Option.getD_some]⟩
  · rintro ⟨hn, rfl⟩
    rw [List.getElem?_eq_getElem hn, Option.getD_some]

section
variable (text : Text)

theorem mem_spanSlots_inline {n : Nat} :
    .inline n ∈ spanSlots text ↔ n < (codes (spanParts isTickPiece (blockOutline text))).length := by
  simp [spanSlots]

theorem mem_blockSlots_fenced {n : Nat} : .fenced n ∈ blockSlots text ↔ n < (codes (fencedParts text)).length := by
  simp [blockSlots]

/-- The code that a placeholder stands for is what its slot holds, written with the placeholders of the
blocks in it. -/
theorem code?_hide_eq_some_iff {slot : Slot} {code : Text} :
    (hide text).2.code? slot = some code ↔
      (slot ∈ spanSlots text ∨ slot ∈ blockSlots text) ∧ code = (contents text slot).written := by
  rw [hide_eq]
  cases slot with
  | fenced n =>
      have hspan : .fenced n ∉ spanSlots text := fun h => by simp [spanSlots] at h
      rw [or_iff_right hspan, mem_blockSlots_fenced, contents, written_ofText]
      exact getElem?_eq_some_iff_getD []
  | inline n =>
      have hblock : .inline n ∉ blockSlots text := fun h => by simp [blockSlots] at h
      rw [or_iff_left hblock, mem_spanSlots_inline, contents]
      refine (getElem?_eq_some_iff_getD []).trans ?_
      rw [List.length_map, List.getElem?_map, ← written_nil, Option.getD_map]

/-- The code of a slot is what its placeholder stands for, each block in it written out. -/
theorem codeAt_eq {slot : Slot} (h : slot ∈ spanSlots text ∨ slot ∈ blockSlots text) :
    (∀ block ∈ slots (contents text slot), ∃ n < (hide text).2.fenced.length, block = .fenced n) ∧
    codeAt text slot = (contents text slot).writtenWith fun block => ((hide text).2.code? block).getD [] := by
  have hblocks : ∀ block ∈ slots (contents text slot), block ∈ blockSlots text := by
    intro block hblock
    rcases h with h | h
    · exact slots_contents_of_mem_spanSlots text h hblock
    · obtain ⟨s, -, hs⟩ := contents_mem_of_mem_blockSlots text h
      rw [hs, slots_ofText] at hblock
      exact absurd hblock List.not_mem_nil
  refine ⟨fun block hblock => ?_, writtenWith_congr fun block hblock => ?_⟩
  · obtain ⟨n, hn, rfl⟩ := List.mem_map.1 (hblocks block hblock)
    rw [hide_eq]
    exact ⟨n, List.mem_range.1 hn, rfl⟩
  · rw [(code?_hide_eq_some_iff text).2 ⟨Or.inr (hblocks block hblock), rfl⟩, Option.getD_some]

/-- What is restored is the text of the edit with the code of the text in the places of all placeholders
at once. The code of a span is what its placeholder stands for, with the blocks in it written out. -/
theorem editAround_interleave (front : Text) (rest : List (Slot × Text)) (htext : WordFree text)
    (hfront : WordFree front) (hrest : ∀ p ∈ rest, ((hide text).2.code? p.1).isSome ∧ WordFree p.2) :
    ((hide text).1 = (outline text).written ∧ text = (outline text).writtenWith (codeAt text)) ∧
    (∀ slot code, (hide text).2.code? slot = some code →
      code = (contents text slot).written ∧
      (∀ block ∈ slots (contents text slot), ∃ n < (hide text).2.fenced.length, block = .fenced n) ∧
      codeAt text slot = (contents text slot).writtenWith fun block => ((hide text).2.code? block).getD []) ∧
    (∀ edit : Text → Text, edit (hide text).1 = (interleave front rest).written →
      editAround edit text = (interleave front rest).writtenWith (codeAt text)) ∧
    ∀ (ε : Type) (edit : Text → Except ε Text), edit (hide text).1 = .ok (interleave front rest).written →
      tryEditAround edit text = .ok ((interleave front rest).writtenWith (codeAt text)) := by
  have hslots : ∀ slot ∈ slots (interleave front rest), slot ∈ spanSlots text ∨ slot ∈ blockSlots text := by
    intro slot hslot
    obtain ⟨behind, hmem⟩ := mem_slots_interleave hslot
    obtain ⟨code, hcode⟩ := Option.isSome_iff_exists.1 (hrest _ hmem).1
    exact ((code?_hide_eq_some_iff text).1 hcode).1
  have hrestore : (hide text).2.restore (interleave front rest).written =
      (interleave front rest).writtenWith (codeAt text) :=
    restore_written htext.clean (clean_interleave hfront fun p hp => (hrest p hp).2) hslots
  refine ⟨⟨congrArg Prod.fst (hide_eq text), (writtenWith_outline text).symm⟩, fun slot code h => ?_,
    fun edit h => ?_, fun ε edit h => ?_⟩
  · obtain ⟨hslot, hcode⟩ := (code?_hide_eq_some_iff text).1 h
    exact ⟨hcode, codeAt_eq text hslot⟩
  · rw [editAround, h, hrestore]
  · rw [tryEditAround, h, Except.map, hrestore]

end

/-- The placeholders in another order, one of them twice, with underscores around them, and the block of
a span in front of it. -/
theorem editAround_interleave_reordered :
    let text := "a \x60b\n~~~\nc\n~~~\n\x60 d \x60e\x60".toList
    let edited := "__FENCED_CODE_BLOCK_0____INLINE_CODE_1_____INLINE_CODE_0__0__INLINE_CODE_1__".toList
    editAround (fun _ => edited) text = "~~~\nc\n~~~\x60e\x60_\x60b\n~~~\nc\n~~~\n\x600\x60e\x60".toList := by
  intro text edited
  let rest : List (Slot × Text) := [(.fenced 0, []), (.inline 1, ['_']), (.inline 0, ['0']), (.inline 1, [])]
  have hedited : edited = (interleave [] rest).written := by decide +kernel
  have hrest : ∀ p ∈ rest, ((hide text).2.code? p.1).isSome ∧ WordFree p.2 := by decide +kernel
  obtain ⟨-, -, hedit, -⟩ := editAround_interleave text [] rest (by decide +kernel) (by decide +kernel) hrest
  rw [hedit (fun _ => edited) hedited]
  decide +kernel

end MarkdownLinks.Code
