import MarkdownLinks.Proofs.Code.Fences
import MarkdownLinks.Proofs.Code.Placeholder
import MarkdownLinks.Proofs.Code.Rendering

/-! What the outline of a text says. The masked text is the outline written with its placeholders, and
what is hidden are the contents of its slots, so written. The text is the outline written with the code
of its slots, and each slot stands in it once. Filling the slots one after the other, first those of
spans and then those of blocks, fills them all, because no content has a slot that was filled before. -/

namespace MarkdownLinks.Code

namespace Outline

theorem mem_slots {slot : Slot} {o : Outline} : slot ∈ slots o ↔ .item slot ∈ o := by
  induction o with
  | nil => simp
  | cons p o ih => cases p <;> simp [ih]

theorem placeholder_part_of_mem_slots {slot : Slot} {o : Outline} (h : slot ∈ slots o) :
    slot.placeholder <:+: o.written := by
  obtain ⟨before, after, rfl⟩ := List.append_of_mem (mem_slots.1 h)
  exact ⟨written before, written after, by rw [written_append, written_item, List.append_assoc]⟩

/-- What is put in the place of a piece when some slots are filled. -/
def inserted (contents : Slot → Outline) (order : List Slot) : Piece Slot → Outline
  | .char c => [.char c]
  | .item slot => if slot ∈ order then contents slot else [.item slot]

theorem flatMap_inserted_of_not_mem {contents : Slot → Outline} {order : List Slot} {o : Outline}
    (h : ∀ slot ∈ slots o, slot ∉ order) : o.flatMap (inserted contents order) = o := by
  induction o with
  | nil => rfl
  | cons p o ih =>
      rw [List.flatMap_cons]
      cases p with
      | char c => rw [ih h]; rfl
      | item slot =>
          rw [ih fun other hother => h other (List.mem_cons_of_mem slot hother), inserted,
            if_neg (h slot List.mem_cons_self)]
          rfl

/-- Slots filled one after the other are filled at once, if no content has one of them. -/
theorem fillAll_eq_flatMap {contents : Slot → Outline} {order : List Slot} (o : Outline)
    (h : ∀ slot ∈ order, ∀ other ∈ slots (contents slot), other ∉ order) :
    fillAll contents order o = o.flatMap (inserted contents order) := by
  induction order generalizing o with
  | nil => exact (flatMap_inserted_of_not_mem fun _ _ => List.not_mem_nil).symm
  | cons slot order ih =>
      have hfree := h slot List.mem_cons_self
      have hrest := ih (o.fill slot (contents slot)) fun other hother third hthird hmem =>
        h other (List.mem_cons_of_mem slot hother) third hthird (List.mem_cons_of_mem slot hmem)
      rw [fillAll, List.foldl_cons, ← fillAll, hrest, fill, List.flatMap_assoc]
      refine congrArg (List.flatMap · o) (funext fun p => ?_)
      cases p with
      | char c => rfl
      | item other =>
          by_cases hother : other = slot
          · subst hother
            rw [if_pos rfl, inserted, if_pos List.mem_cons_self]
            exact flatMap_inserted_of_not_mem fun third hthird hmem =>
              hfree third hthird (List.mem_cons_of_mem other hmem)
          · simp [inserted, hother]

section
variable {ctor : Nat → Slot} {n : Nat} {parts : List (Segment (Piece Slot))}

theorem mem_slots_placeholdersFrom {slot : Slot}
    (h : slot ∈ slots (placeholdersFrom (fun k => [.item (ctor k)]) n parts)) :
    (∃ k, n ≤ k ∧ k < n + (codes parts).length ∧ slot = ctor k) ∨ slot ∈ slots (segmentsText parts) := by
  induction parts generalizing n with
  | nil => cases h
  | cons p parts ih =>
      cases p with
      | plain b =>
          cases b with
          | char c => exact ih h
          | item other =>
              rcases List.mem_cons.1 h with rfl | h
              · exact Or.inr List.mem_cons_self
              · exact (ih h).imp_right (List.mem_cons_of_mem other)
      | code s =>
          rcases List.mem_cons.1 h with rfl | h
          · exact Or.inl ⟨n, Nat.le_refl n, Nat.lt_add_of_pos_right (Nat.succ_pos _), rfl⟩
          · rcases ih h with ⟨k, hnk, hk, hslot⟩ | h
            · refine Or.inl ⟨k, by omega, ?_, hslot⟩
              rw [codes_code, List.length_cons]
              omega
            · apply Or.inr
              rw [segmentsText_code, slots_append]
              exact List.mem_append_right _ h

theorem slots_placeholdersFrom_ofText (parts : List (Segment Char)) :
    slots (placeholdersFrom (fun k => [.item (ctor k)]) n (parts.map (Segment.map .char))) =
      (List.range' n (codes parts).length).map ctor := by
  induction parts generalizing n with
  | nil => rfl
  | cons p parts ih =>
      cases p with
      | plain c => exact ih
      | code s => exact congrArg (ctor n :: ·) ih

theorem nodup_slots_placeholdersFrom (hctor : ∀ k l, ctor k = ctor l → k = l)
    (hfresh : ∀ k, ctor k ∉ slots (segmentsText parts)) (hparts : (slots (segmentsText parts)).Nodup) :
    (slots (placeholdersFrom (fun k => [.item (ctor k)]) n parts)).Nodup := by
  induction parts generalizing n with
  | nil => exact List.nodup_nil
  | cons p parts ih =>
      cases p with
      | plain b =>
          cases b with
          | char c => exact ih hfresh hparts
          | item other =>
              obtain ⟨hother, hparts⟩ := List.nodup_cons.1 hparts
              have hnot : ∀ k, ctor k ≠ other ∧ ctor k ∉ slots (segmentsText parts) := fun k => by
                have h := hfresh k
                rw [segmentsText_plain, slots_item, List.mem_cons, not_or] at h
                exact h
              refine List.nodup_cons.2 ⟨fun hmem => ?_, ih (fun k => (hnot k).2) hparts⟩
              rcases mem_slots_placeholdersFrom hmem with ⟨k, -, -, hk⟩ | hmem
              · exact (hnot k).1 hk.symm
              · exact hother hmem
      | code s =>
          rw [segmentsText_code, slots_append] at hfresh hparts
          have hnot : ∀ k, ctor k ∉ slots (segmentsText parts) := fun k h =>
            hfresh k (List.mem_append_right _ h)
          refine List.nodup_cons.2 ⟨fun hmem => ?_, ih hnot (List.nodup_append.1 hparts).2.1⟩
          rcases mem_slots_placeholdersFrom hmem with ⟨k, hnk, -, hk⟩ | hmem
          · have := hctor n k hk
            omega
          · exact hnot n hmem

end

end Outline

open Outline

theorem eq_of_isTickPiece {p : Piece Slot} (h : isTickPiece p) : p = .char '\x60' := by
  cases p with
  | char c => exact congrArg Piece.char (beq_iff_eq.1 h)
  | item slot => cases h

/-- What a slot is written as may stand for a symbol without backticks. -/
theorem keepsTicks_render {f : Slot → Text} (hne : ∀ slot, f slot ≠ [])
    (hfree : ∀ slot, ∀ c ∈ f slot, isTick c = false) (o : Outline) :
    KeepsTicks isTickPiece isTick (Piece.render f) o where
  of_sign {p} _ hp := by
    cases p with
    | char c => exact ⟨c, rfl, hp⟩
    | item slot => cases hp
  of_not {p} _ hp := by
    cases p with
    | char c => exact ⟨List.cons_ne_nil c [], by simpa [Piece.render, Piece.elim, isTickPiece] using hp⟩
    | item slot => exact ⟨hne slot, hfree slot⟩

theorem keepsTicks_placeholder (o : Outline) :
    KeepsTicks isTickPiece isTick (Piece.render Slot.placeholder) o := by
  refine keepsTicks_render (fun slot h => ?_) Slot.isTick_eq_false_of_mem_placeholder o
  have hlen := Slot.two_lt_length_placeholder slot
  rw [h] at hlen
  exact absurd hlen (by decide)

theorem flatMap_expand_render (f : Slot → Text) (parts : List (Segment Char)) :
    (parts.map (Segment.map .char)).flatMap (Segment.expand (Piece.render f)) = parts := by
  induction parts with
  | nil => rfl
  | cons p parts ih =>
      rw [List.map_cons, List.flatMap_cons, ih]
      cases p with
      | plain c => rfl
      | code s => exact congrArg (Segment.code · :: parts) (writtenWith_ofText f s)

section
variable (text : Text)

/-- The text without its blocks is the outline of the blocks with their placeholders. -/
theorem written_blockOutline : (blockOutline text).written = (hideFenced text).1 := by
  have hsign : ∀ n, [Piece.item (Slot.fenced n)].flatMap (Piece.render Slot.placeholder) = fencedPlaceholder n :=
    fun n => List.append_nil (fencedPlaceholder n)
  have hparts := placeholdersFrom_flatMap_expand hsign 0 ((fencedParts text).map (Segment.map .char))
  rw [flatMap_expand_render] at hparts
  exact hparts.symm

/-- What hiding does, read off the outline. -/
theorem hide_eq :
    hide text = ((outline text).written, ⟨codes (fencedParts text),
      (codes (spanParts isTickPiece (blockOutline text))).map written⟩) := by
  have hsign : ∀ n, [Piece.item (Slot.inline n)].flatMap (Piece.render Slot.placeholder) = inlinePlaceholder n :=
    fun n => List.append_nil (inlinePlaceholder n)
  have hparts : spanParts isTick (hideFenced text).1 =
      (spanParts isTickPiece (blockOutline text)).flatMap (Segment.expand (Piece.render Slot.placeholder)) := by
    rw [← written_blockOutline]
    exact (keepsTicks_placeholder (blockOutline text)).spanParts_flatMap
  have hinline : hideInline (hideFenced text).1 =
      ((outline text).written, (codes (spanParts isTickPiece (blockOutline text))).map written) := by
    rw [hideInline, hparts, placeholdersFrom_flatMap_expand hsign, codes_flatMap_expand]
    rfl
  rw [hide]
  simp only [hinline]
  rfl

/-- The slots of the outline of the blocks are those of the blocks, in the order of their numbers. -/
theorem slots_blockOutline : slots (blockOutline text) = blockSlots text := by
  rw [blockOutline, slots_placeholdersFrom_ofText, blockSlots, List.range_eq_range']

theorem slots_outline {slot : Slot} (h : slot ∈ slots (outline text)) :
    slot ∈ spanSlots text ∨ slot ∈ blockSlots text := by
  rcases mem_slots_placeholdersFrom h with ⟨k, -, hk, rfl⟩ | h
  · rw [Nat.zero_add] at hk
    exact Or.inl (List.mem_map_of_mem (List.mem_range.2 hk))
  · rw [segmentsText_spanParts, slots_blockOutline] at h
    exact Or.inr h

/-- Each slot stands in the outline once. -/
theorem nodup_slots_outline : (slots (outline text)).Nodup := by
  refine nodup_slots_placeholdersFrom (fun k l h => Slot.inline.inj h) (fun k => ?_) ?_
  all_goals rw [segmentsText_spanParts, slots_blockOutline]
  · intro h
    obtain ⟨n, -, hn⟩ := List.mem_map.1 h
    cases hn
  · exact List.Pairwise.map _ (fun k l hkl h => hkl (Slot.fenced.inj h)) List.nodup_range

/-- A slot of a span holds the span. -/
theorem contents_mem_of_mem_spanSlots {slot : Slot} (h : slot ∈ spanSlots text) :
    contents text slot ∈ codes (spanParts isTickPiece (blockOutline text)) := by
  obtain ⟨n, hn, rfl⟩ := List.mem_map.1 h
  rw [contents, List.getElem?_eq_getElem (List.mem_range.1 hn)]
  exact List.getElem_mem _

/-- A slot of a block holds the characters of the block. -/
theorem contents_mem_of_mem_blockSlots {slot : Slot} (h : slot ∈ blockSlots text) :
    ∃ s ∈ codes (fencedParts text), contents text slot = ofText s := by
  obtain ⟨n, hn, rfl⟩ := List.mem_map.1 h
  refine ⟨_, List.getElem_mem (List.mem_range.1 hn), ?_⟩
  rw [contents, List.getElem?_eq_getElem (List.mem_range.1 hn)]
  rfl

theorem slots_contents_of_mem_spanSlots {slot other : Slot} (h : slot ∈ spanSlots text)
    (hother : other ∈ slots (contents text slot)) : other ∈ blockSlots text := by
  have hpart := infix_segmentsText_of_mem_codes (contents_mem_of_mem_spanSlots text h)
  rw [segmentsText_spanParts] at hpart
  rw [← slots_blockOutline]
  exact mem_slots.2 (hpart.subset (mem_slots.1 hother))

theorem not_mem_spanSlots_of_mem_blockSlots {slot : Slot} (h : slot ∈ blockSlots text) : slot ∉ spanSlots text := by
  obtain ⟨n, -, rfl⟩ := List.mem_map.1 h
  intro h
  obtain ⟨m, -, hm⟩ := List.mem_map.1 h
  cases hm

theorem codeAt_of_mem_blockSlots {slot : Slot} (h : slot ∈ blockSlots text) :
    codeAt text slot = (contents text slot).written := by
  obtain ⟨s, -, hs⟩ := contents_mem_of_mem_blockSlots text h
  rw [codeAt, hs, writtenWith_ofText, written_ofText]

/-- The part of a text that a piece of the outline of its blocks stands for. -/
def blockPart : Piece Slot → Segment Char
  | .char c => .plain c
  | .item slot => .code (contents text slot).written

/-- The outline of the blocks stands for the parts of the text. -/
theorem map_blockPart_blockOutline : (blockOutline text).map (blockPart text) = fencedParts text := by
  have hparts : (blockOutline text).map (blockPart text) =
      ((fencedParts text).map (Segment.map .char)).map fun
        | .plain p => blockPart text p
        | .code s => .code (written s) := by
    refine map_placeholdersFrom (fun _ _ => rfl) fun i s hs => ?_
    rw [codes_map, List.getElem?_map] at hs
    obtain ⟨code, hcode, rfl⟩ := Option.map_eq_some_iff.1 hs
    rw [Nat.zero_add, blockPart, contents, hcode, Option.getD_some]
    rfl
  rw [hparts, List.map_map]
  refine (List.map_congr_left fun p _ => ?_).trans (List.map_id _)
  cases p with
  | plain c => rfl
  | code s => exact congrArg Segment.code (written_ofText s)

theorem segmentsText_map_blockPart (o : Outline) :
    segmentsText (o.map (blockPart text)) = o.writtenWith fun block => (contents text block).written := by
  induction o with
  | nil => rfl
  | cons p o ih =>
      cases p with
      | char c => exact congrArg (c :: ·) ih
      | item slot => exact congrArg ((contents text slot).written ++ ·) ih

theorem codes_map_blockPart (o : Outline) :
    codes (o.map (blockPart text)) = (slots o).map fun slot => (contents text slot).written := by
  induction o with
  | nil => rfl
  | cons p o ih =>
      cases p with
      | char c => exact ih
      | item slot => exact congrArg ((contents text slot).written :: ·) ih

theorem placeholdersFrom_map_blockPart {o : Outline} {n m : Nat} (h : slots o = (List.range' n m).map .fenced) :
    placeholdersFrom (fun k => [.item (.fenced k)]) n ((o.map (blockPart text)).map (Segment.map .char)) = o := by
  induction o generalizing n m with
  | nil => rfl
  | cons p o ih =>
      cases p with
      | char c => exact congrArg (.char c :: ·) (ih h)
      | item slot =>
          cases m with
          | zero => cases h
          | succ m =>
              obtain ⟨rfl, hrest⟩ := List.cons.inj h
              exact congrArg (Piece.item (Slot.fenced n) :: ·) (ih hrest)

/-- A text whose parts are those of an outline with the slots of the blocks has that outline of its
blocks, and the same blocks. -/
theorem blockOutline_eq {s : Text} {o : Outline} (hparts : fencedParts s = o.map (blockPart text))
    (hslots : slots o = blockSlots text) : blockOutline s = o ∧ codes (fencedParts s) = codes (fencedParts text) := by
  constructor
  · rw [blockOutline, hparts]
    exact placeholdersFrom_map_blockPart text (by rw [hslots, blockSlots, List.range_eq_range'])
  · rw [hparts, ← map_blockPart_blockOutline text, codes_map_blockPart, codes_map_blockPart, hslots,
      slots_blockOutline]

/-- The text is the outline of its blocks, each block written out. -/
theorem writtenWith_blockOutline :
    (blockOutline text).writtenWith (fun block => (contents text block).written) = text := by
  rw [← segmentsText_map_blockPart, map_blockPart_blockOutline, segmentsText_fencedParts]

/-- The part of the outline of the blocks that a piece of the outline of the spans stands for. -/
def spanPart : Piece Slot → Segment (Piece Slot)
  | .item (.inline n) => .code (contents text (.inline n))
  | p => .plain p

/-- The outline of a text stands for the parts of the outline of its blocks. -/
theorem map_spanPart_outline : (outline text).map (spanPart text) = spanParts isTickPiece (blockOutline text) := by
  have hparts : (outline text).map (spanPart text) = (spanParts isTickPiece (blockOutline text)).map id := by
    refine map_placeholdersFrom (fun p hp => ?_) fun i s hs => ?_
    · cases p with
      | char c => rfl
      | item slot =>
          have hmem : Piece.item slot ∈ segmentsText (spanParts isTickPiece (blockOutline text)) :=
            List.mem_flatMap.2 ⟨_, hp, List.mem_singleton_self _⟩
          rw [segmentsText_spanParts, ← mem_slots, slots_blockOutline] at hmem
          obtain ⟨n, -, rfl⟩ := List.mem_map.1 hmem
          rfl
    · rw [Nat.zero_add, spanPart, contents, hs, Option.getD_some]
      rfl
  rw [hparts, List.map_id]

/-- An outline with what its spans hold in their places. -/
def opened (o : Outline) : Outline := segmentsText (o.map (spanPart text))

@[simp] theorem opened_nil : opened text [] = [] := rfl

@[simp] theorem opened_char (c : Char) (o : Outline) : opened text (.char c :: o) = .char c :: opened text o := rfl

@[simp] theorem opened_fenced (n : Nat) (o : Outline) :
    opened text (.item (.fenced n) :: o) = .item (.fenced n) :: opened text o := rfl

@[simp] theorem opened_inline (n : Nat) (o : Outline) :
    opened text (.item (.inline n) :: o) = contents text (.inline n) ++ opened text o := rfl

@[simp] theorem opened_append (o p : Outline) : opened text (o ++ p) = opened text o ++ opened text p := by
  rw [opened, List.map_append, segmentsText_append, ← opened, ← opened]

@[simp] theorem opened_ofText (s : Text) : opened text (ofText s) = ofText s := by
  induction s with
  | nil => rfl
  | cons c s ih => exact congrArg (.char c :: ·) ih

theorem slots_opened (o : Outline) :
    slots (opened text o) = (slots o).flatMap fun slot => slots (opened text [.item slot]) := by
  induction o with
  | nil => rfl
  | cons p o ih =>
      cases p with
      | char c => exact ih
      | item slot =>
          have hcons : opened text (.item slot :: o) = opened text [.item slot] ++ opened text o :=
            opened_append text [.item slot] o
          rw [hcons, slots_append, ih, slots_item, List.flatMap_cons]

theorem opened_outline : opened text (outline text) = blockOutline text := by
  rw [opened, map_spanPart_outline, segmentsText_spanParts]

/-- No tick stands behind a span of the text. -/
theorem unticked_behind_span {n : Nat} {o : Outline} (h : .item (.inline n) :: o <:+ outline text) :
    Unticked isTickPiece (opened text o) := by
  have hparts := h.map (spanPart text)
  rw [map_spanPart_outline] at hparts
  exact unticked_behind_code hparts

/-- A span of the text begins and ends with a tick. -/
theorem ticked_contents_of_mem_outline {n : Nat} (h : .item (.inline n) ∈ outline text) :
    (∃ p ∈ (contents text (.inline n)).head?, isTickPiece p) ∧
      ∃ p ∈ (contents text (.inline n)).getLast?, isTickPiece p := by
  refine ticked_of_mem_codes (contents_mem_of_mem_spanSlots text ?_)
  rcases slots_outline text (mem_slots.2 h) with hslot | hslot
  · exact hslot
  · obtain ⟨m, -, hm⟩ := List.mem_map.1 hslot
    cases hm

/-- The code of the slots of an outline is what its spans hold, each block written out. -/
theorem writtenWith_opened (o : Outline) :
    (opened text o).writtenWith (fun block => (contents text block).written) = o.writtenWith (codeAt text) := by
  induction o with
  | nil => rfl
  | cons p o ih =>
      cases p with
      | char c => exact congrArg (c :: ·) ih
      | item slot =>
          cases slot with
          | fenced n =>
              have hcode : (contents text (.fenced n)).written = codeAt text (.fenced n) := by
                rw [codeAt, contents, writtenWith_ofText, written_ofText]
              rw [writtenWith_item, ← ih, ← hcode]
              rfl
          | inline n => exact (writtenWith_append _ _ _).trans (congrArg (codeAt text (.inline n) ++ ·) ih)

/-- The text is its outline, each slot written as its code. -/
theorem writtenWith_outline : (outline text).writtenWith (codeAt text) = text := by
  rw [← writtenWith_opened, opened_outline, writtenWith_blockOutline]

theorem flatMap_inserted_blockSlots {o : Outline} (h : ∀ slot ∈ slots o, slot ∈ blockSlots text) :
    o.flatMap (inserted (contents text) (blockSlots text)) =
      ofText (o.writtenWith fun block => (contents text block).written) := by
  induction o with
  | nil => rfl
  | cons p o ih =>
      cases p with
      | char c => exact congrArg (.char c :: ·) (ih h)
      | item slot =>
          obtain ⟨s, -, hs⟩ := contents_mem_of_mem_blockSlots text (h slot List.mem_cons_self)
          rw [List.flatMap_cons, ih fun other hother => h other (List.mem_cons_of_mem slot hother), inserted,
            if_pos (h slot List.mem_cons_self), writtenWith_item, hs, written_ofText, ofText, ofText, ofText,
            List.map_append]

/-- Slots of the text filled in the order of restoring leave the text with the code of the slots. -/
theorem fillAll_eq_ofText {o : Outline} (h : ∀ slot ∈ slots o, slot ∈ spanSlots text ∨ slot ∈ blockSlots text) :
    o.fillAll (contents text) (spanSlots text ++ blockSlots text) = ofText (o.writtenWith (codeAt text)) := by
  have hspans : ∀ slot ∈ spanSlots text, ∀ other ∈ slots (contents text slot), other ∉ spanSlots text :=
    fun slot hslot other hother =>
      not_mem_spanSlots_of_mem_blockSlots text (slots_contents_of_mem_spanSlots text hslot hother)
  have hblocks : ∀ slot ∈ blockSlots text, ∀ other ∈ slots (contents text slot), other ∉ blockSlots text := by
    intro slot hslot other hother
    obtain ⟨s, -, hs⟩ := contents_mem_of_mem_blockSlots text hslot
    rw [hs, slots_ofText] at hother
    exact absurd hother List.not_mem_nil
  rw [fillAll, List.foldl_append, ← fillAll, ← fillAll, fillAll_eq_flatMap o hspans, fillAll_eq_flatMap _ hblocks]
  induction o with
  | nil => rfl
  | cons p o ih =>
      rw [List.flatMap_cons, List.flatMap_append]
      cases p with
      | char c => exact congrArg (.char c :: ·) (ih h)
      | item slot =>
          rw [ih fun other hother => h other (List.mem_cons_of_mem slot hother), writtenWith_item, inserted]
          refine congrArg (· ++ _) ?_ |>.trans List.map_append.symm
          by_cases hslot : slot ∈ spanSlots text
          · rw [if_pos hslot, codeAt]
            exact flatMap_inserted_blockSlots text fun other => slots_contents_of_mem_spanSlots text hslot
          · have hblock := (h slot List.mem_cons_self).resolve_left hslot
            obtain ⟨s, -, hs⟩ := contents_mem_of_mem_blockSlots text hblock
            rw [if_neg hslot, List.flatMap_cons, List.flatMap_nil, List.append_nil, inserted, if_pos hblock,
              codeAt_of_mem_blockSlots text hblock, hs, written_ofText, ofText]

/-- What a slot holds begins and ends with a fence character. -/
theorem contents_marked {slot : Slot} (h : slot ∈ spanSlots text ∨ slot ∈ blockSlots text) :
    (∃ c, isFenceMark c ∧ .char c ∈ (contents text slot).head?) ∧
      ∃ c, isFenceMark c ∧ .char c ∈ (contents text slot).getLast? := by
  rcases h with h | h
  · obtain ⟨⟨p, hp, hpt⟩, q, hq, hqt⟩ := ticked_of_mem_codes (contents_mem_of_mem_spanSlots text h)
    obtain rfl := eq_of_isTickPiece hpt
    obtain rfl := eq_of_isTickPiece hqt
    exact ⟨⟨_, by decide, hp⟩, _, by decide, hq⟩
  · obtain ⟨s, hs, heq⟩ := contents_mem_of_mem_blockSlots text h
    obtain ⟨⟨c, hc, hcm⟩, d, hd, hdm⟩ := marked_of_mem_codes hs
    rw [heq, ofText, List.head?_map, List.getLast?_map]
    exact ⟨⟨c, hcm, Option.mem_map_of_mem _ hc⟩, d, hdm, Option.mem_map_of_mem _ hd⟩

end

end MarkdownLinks.Code
