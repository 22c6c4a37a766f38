import MarkdownLinks.Proofs.Code.Restoring

/-! Texts in which no placeholder can be mistaken. Each kind of placeholder has a word of its own behind
its two underscores. An outline is *clean* if neither word stands behind an underscore, a fence character
or a slot. A text without the words is clean, and so is its outline; filling a slot with clean code keeps
an outline clean; and in a clean outline a placeholder begins only where its slot stands. So restoring
a clean outline fills it. -/

namespace MarkdownLinks.Code

open Outline

/-- The words by which the two kinds of placeholders are known. -/
def placeholderWords : List Text := ["INLINE_CODE_".toList, "FENCED_CODE_BLOCK_".toList]

/-- Whether a text has neither word of the placeholders. -/
def WordFree (s : Text) : Prop := ∀ word ∈ placeholderWords, ¬word <:+: s

instance (s : Text) : Decidable (WordFree s) :=
  inferInstanceAs (Decidable (∀ word ∈ placeholderWords, ¬word <:+: s))

/-- Whether a placeholder may go on behind a piece: an underscore, a fence character or a slot. -/
def isLead : Piece Slot → Bool
  | .char c => c == '_' || isFenceMark c
  | .item _ => true

/-- Whether no word of the placeholders stands behind an underscore, a fence character or a slot. -/
def Clean (o : Outline) : Prop :=
  ∀ (before : Outline) (p : Piece Slot) (after : Outline), o = before ++ p :: after → isLead p →
    ∀ word ∈ placeholderWords, ¬ofText word <+: after

theorem isAlphanum_or_eq_of_mem_word {word : Text} (h : word ∈ placeholderWords) {c : Char} (hc : c ∈ word) :
    c.isAlphanum ∨ c = '_' := by
  have hword : ∀ word ∈ placeholderWords, word.all fun c => c.isAlphanum || c == '_' := by decide
  simpa using List.all_eq_true.1 (hword word h) c hc

theorem not_mem_word {c : Char} (hc : c.isAlphanum = false) (hu : c ≠ '_') {word : Text}
    (h : word ∈ placeholderWords) : c ∉ word := by
  intro hmem
  rcases isAlphanum_or_eq_of_mem_word h hmem with h | h
  · rw [hc] at h
    cases h
  · exact hu h

theorem fenceMark_not_mem_word {c : Char} (hc : isFenceMark c) {word : Text} (h : word ∈ placeholderWords) :
    c ∉ word := by
  rcases Bool.or_eq_true_iff.1 hc with hc | hc <;> rw [beq_iff_eq.1 hc] <;>
    exact not_mem_word (by decide) (by decide) h

theorem char_mem_ofText {c : Char} {s : Text} : .char c ∈ ofText s ↔ c ∈ s := by
  constructor
  · intro h
    obtain ⟨d, hd, hcd⟩ := List.mem_map.1 h
    cases hcd
    exact hd
  · exact List.mem_map_of_mem

theorem clean_nil : Clean [] := by
  intro before p after h
  cases before <;> cases h

theorem clean_cons_iff {p : Piece Slot} {o : Outline} :
    Clean (p :: o) ↔ (isLead p → ∀ word ∈ placeholderWords, ¬ofText word <+: o) ∧ Clean o := by
  constructor
  · intro h
    exact ⟨h [] p o rfl, fun before q after ho => h (p :: before) q after (by rw [ho]; rfl)⟩
  · rintro ⟨hp, ho⟩ before q after h
    cases before with
    | nil =>
        cases h
        exact hp
    | cons r before =>
        cases h
        exact ho before q after rfl

theorem Clean.of_part {o p : Outline} (h : Clean o) (hp : p <:+: o) : Clean p := by
  obtain ⟨a, b, rfl⟩ := hp
  rintro before q after rfl hq word hword hpre
  refine h (a ++ before) q (after ++ b) ?_ hq word hword (hpre.trans (List.prefix_append after b))
  rw [List.append_assoc, List.append_assoc, List.append_assoc]
  rfl

/-- What is clean up to a piece that the words do not have stays clean in front of it. -/
theorem Clean.append_piece {o rest : Outline} {q : Piece Slot} (hq : ∀ word ∈ placeholderWords, q ∉ ofText word)
    (ho : Clean o) (hrest : Clean (q :: rest)) : Clean (o ++ q :: rest) := by
  induction o with
  | nil => exact hrest
  | cons p o ih =>
      obtain ⟨hp, ho⟩ := clean_cons_iff.1 ho
      refine clean_cons_iff.2 ⟨fun hlead word hword hpre => ?_, ih ho⟩
      exact hp hlead word hword (prefix_of_not_mem (hq word hword) hpre)

theorem Clean.append_char {o rest : Outline} {c : Char} (hc : ∀ word ∈ placeholderWords, c ∉ word) (ho : Clean o)
    (hrest : Clean (.char c :: rest)) : Clean (o ++ .char c :: rest) :=
  Clean.append_piece (fun word hword h => hc word hword (char_mem_ofText.1 h)) ho hrest

/-- An outline is clean if it is clean with something put in the places of its slots that a placeholder
may go on behind. -/
theorem clean_of_flatMap {g : Piece Slot → Outline} {o : Outline} (hchar : ∀ c, g (.char c) = [.char c])
    (hslot : ∀ slot ∈ slots o, ∃ p ∈ (g (.item slot)).getLast?, isLead p) (h : Clean (o.flatMap g)) : Clean o := by
  rintro before p after rfl hp word hword ⟨rest, rfl⟩
  have hkept : (ofText word).flatMap g = ofText word := by
    rw [ofText, List.flatMap_map, funext hchar, List.map_eq_flatMap]
  obtain ⟨q, hq, hlead⟩ : ∃ q ∈ (g p).getLast?, isLead q := by
    cases p with
    | char c => exact ⟨.char c, by rw [hchar]; rfl, hp⟩
    | item slot => exact hslot slot (mem_slots.2 (List.mem_append_right before List.mem_cons_self))
  obtain ⟨front, hfront⟩ := List.getLast?_eq_some_iff.1 hq
  refine h (before.flatMap g ++ front) q (ofText word ++ rest.flatMap g) ?_ hlead word hword
    (List.prefix_append _ _)
  rw [List.flatMap_append, List.flatMap_cons, List.flatMap_append, hkept, hfront]
  simp only [List.append_assoc, List.cons_append, List.nil_append]

/-- A text without the words is clean. -/
theorem WordFree.clean {s : Text} (h : WordFree s) : Clean (ofText s) := by
  rintro before p after hs - word hword ⟨rest, rfl⟩
  refine h word hword ⟨before.written ++ p.render Slot.placeholder, written rest, ?_⟩
  have hs' := congrArg written hs
  rw [written_ofText, written_append, written_cons, written_append, written_ofText] at hs'
  rw [hs', List.append_assoc, List.append_assoc]

/-- Whether an outline ends with a fence character. -/
def EndsMarked (content : Outline) : Prop := ∃ c, isFenceMark c ∧ .char c ∈ content.getLast?

section
variable {slot : Slot} {content : Outline} (hbegin : BeginsMarked content)
include hbegin

/-- Text without fence characters in front of a filled outline was in front of it before. -/
theorem ofText_prefix_of_prefix_fill {s : Text} (hs : ∀ c ∈ s, ¬isFenceMark c) {o : Outline}
    (h : ofText s <+: o.fill slot content) : ofText s <+: o := by
  induction s generalizing o with
  | nil => exact List.nil_prefix
  | cons c s ih =>
      cases o with
      | nil => exact h
      | cons p o =>
          by_cases hp : p = .item slot
          · obtain ⟨f, o', hf, rfl⟩ := hbegin.exists_eq
            rw [hp, fill_item_self] at h
            obtain ⟨hcf, -⟩ := List.cons_prefix_cons.1 h
            cases hcf
            exact absurd hf (hs c List.mem_cons_self)
          · have hfill : fill (p :: o) slot content = p :: fill o slot content := by
              rw [fill, List.flatMap_cons, if_neg hp]
              rfl
            rw [hfill] at h
            obtain ⟨hcp, hpre⟩ := List.cons_prefix_cons.1 h
            exact List.cons_prefix_cons.2 ⟨hcp, ih (fun d hd => hs d (List.mem_cons_of_mem c hd)) hpre⟩

/-- Filling a slot with clean code keeps an outline clean. -/
theorem Clean.fill (hcontent : Clean content) (hend : EndsMarked content) {o : Outline} (h : Clean o) :
    Clean (o.fill slot content) := by
  have hword : ∀ {o : Outline} {word}, word ∈ placeholderWords → ofText word <+: o.fill slot content →
      ofText word <+: o := fun {o word} hword =>
    ofText_prefix_of_prefix_fill hbegin fun c hc hmark => fenceMark_not_mem_word hmark hword hc
  induction o with
  | nil => exact clean_nil
  | cons p o ih =>
      obtain ⟨hp, ho⟩ := clean_cons_iff.1 h
      by_cases hslot : p = .item slot
      · subst hslot
        obtain ⟨f, hf, hlast⟩ := hend
        obtain ⟨front, rfl⟩ := List.getLast?_eq_some_iff.1 hlast
        rw [fill_item_self, List.append_assoc]
        refine Clean.append_char (fun word hw => fenceMark_not_mem_word hf hw)
          (hcontent.of_part (List.prefix_append front _).isInfix) ?_
        exact clean_cons_iff.2 ⟨fun _ word hw hpre => hp rfl word hw (hword hw hpre), ih ho⟩
      · have hfill : Outline.fill (p :: o) slot content = p :: Outline.fill o slot content := by
          rw [Outline.fill, List.flatMap_cons, if_neg hslot]
          rfl
        rw [hfill]
        exact clean_cons_iff.2 ⟨fun hlead word hw hpre => hp hlead word hw (hword hw hpre), ih ho⟩

end

/-- Text without two underscores side by side and without one at its end begins an outline written out
only where it begins the outline: slots begin with two underscores. -/
theorem ofText_prefix_of_prefix_written {s : Text} (htwo : ¬['_', '_'] <:+: s) (hlast : s.getLast? ≠ some '_')
    {o : Outline} (h : s <+: o.written) : ofText s <+: o := by
  induction s generalizing o with
  | nil => exact List.nil_prefix
  | cons c s ih =>
      cases o with
      | nil => exact absurd (List.prefix_nil.1 h) (List.cons_ne_nil c s)
      | cons p o =>
          cases p with
          | char d =>
              rw [written_char, List.cons_prefix_cons] at h
              obtain ⟨rfl, h⟩ := h
              refine List.cons_prefix_cons.2 ⟨rfl, ih (fun hs => htwo ?_) (fun hs => hlast ?_) h⟩
              · exact hs.trans (List.suffix_cons c s).isInfix
              · rw [List.getLast?_cons, hs]
                rfl
          | item slot =>
              obtain ⟨t, ht⟩ := Slot.exists_placeholder_eq slot
              rw [written_item, ht, List.cons_append, List.cons_append, List.cons_prefix_cons] at h
              obtain ⟨rfl, h⟩ := h
              cases s with
              | nil => exact absurd rfl hlast
              | cons d s =>
                  obtain ⟨rfl, -⟩ := List.cons_prefix_cons.1 h
                  exact absurd (List.prefix_append ['_', '_'] s).isInfix htwo

/-- Behind its two underscores a placeholder has its word and then a digit. -/
theorem Slot.exists_word (slot : Slot) :
    ∃ word ∈ placeholderWords, ∃ d s, d ≠ '_' ∧ slot.placeholder = '_' :: '_' :: (word ++ d :: s) := by
  obtain ⟨d, ds, hds⟩ := List.exists_cons_of_ne_nil (Nat.toDigits_ne_nil (b := 10) (n := slot.number))
  have hdec : decimal slot.number = d :: ds := hds
  have hd : d ≠ '_' := fun h =>
    underscore_not_mem_decimal slot.number (by rw [hdec, h]; exact List.mem_cons_self)
  rw [Slot.placeholder_eq, hdec]
  cases slot with
  | fenced n => exact ⟨_, List.mem_cons_of_mem _ List.mem_cons_self, d, _, hd, rfl⟩
  | inline n => exact ⟨_, List.mem_cons_self, d, _, hd, rfl⟩

theorem not_two_underscores_infix_word {word : Text} (h : word ∈ placeholderWords) {d : Char} (hd : d ≠ '_') :
    ¬['_', '_'] <:+: '_' :: (word ++ [d]) := by
  intro hpart
  have hmem : d ∉ ['_', '_'] := by simp [hd]
  rcases infix_of_not_mem (s := '_' :: word) hmem hpart with hword | hnil
  · exact (by decide +kernel : ∀ word ∈ placeholderWords, ¬['_', '_'] <:+: '_' :: word) word h hword
  · cases List.infix_nil.1 hnil

/-- In a clean outline every placeholder begins only at its slot. -/
theorem unmistakable_of_clean {o : Outline} (h : Clean o) (slot : Slot) : Unmistakable slot o [] := by
  rintro before p after rfl hp hbegin
  obtain ⟨word, hword, d, s, hd, hslot⟩ := slot.exists_word
  have htwo := not_two_underscores_infix_word hword hd
  have hlast : (word ++ [d]).getLast? ≠ some '_' := by
    rw [List.getLast?_concat]
    exact fun h => hd (Option.some.inj h)
  have hword' : ofText word <+: ofText (word ++ [d]) := by
    rw [ofText, ofText, List.map_append]
    exact List.prefix_append _ _
  rw [List.append_nil] at hbegin
  -- Behind one underscore stands another one and the word, behind two the word.
  have hone : ¬ '_' :: (word ++ [d]) <+: written after := by
    intro hpre
    have hlast' : ('_' :: (word ++ [d])).getLast? ≠ some '_' := by
      rw [List.getLast?_cons, List.getLast?_concat]
      exact fun h => hd (Option.some.inj h)
    obtain ⟨rest, hrest⟩ := ofText_prefix_of_prefix_written htwo hlast' hpre
    refine h (before ++ [p]) (.char '_') (ofText (word ++ [d]) ++ rest) ?_ rfl word hword
      (hword'.trans (List.prefix_append _ rest))
    rw [← hrest, List.append_assoc]
    rfl
  have hfront : '_' :: (word ++ [d]) <+: '_' :: (word ++ d :: s) :=
    List.cons_prefix_cons.2 ⟨rfl, (List.prefix_append_right_inj _).2 (List.cons_prefix_cons.2 ⟨rfl, List.nil_prefix⟩)⟩
  cases p with
  | char c =>
      rcases beginsIn_cons_iff.1 hbegin with hpre | hpre
      · rw [hslot, List.cons_prefix_cons] at hpre
        exact hone (hfront.trans hpre.2)
      · exact not_beginsIn_nil _ _ hpre
  | item other =>
      obtain ⟨u, hu, hune, hpre⟩ := hbegin
      rcases Slot.overlap hu hune hpre with rfl | rfl | rfl
      · exact hp (congrArg Piece.item (Slot.eq_of_placeholder_prefix hpre).symm)
      · rw [hslot] at hpre
        exact hone (hfront.trans (List.cons_prefix_cons.1 hpre).2)
      · rw [hslot] at hpre
        have hpre := (List.cons_prefix_cons.1 (List.cons_prefix_cons.1 hpre).2).2
        have hpre' := ofText_prefix_of_prefix_written
          (fun hs => htwo (hs.trans (List.suffix_cons '_' _).isInfix)) hlast
          ((List.cons_prefix_cons.1 hfront).2.trans hpre)
        exact h before (.item other) after rfl rfl word hword (hword'.trans hpre')

/-- In a clean outline each slot that is filled with clean code is unmistakable when its turn comes. -/
theorem filledAlone_of_clean {contents : Slot → Outline} {order : List Slot}
    (hcontents : ∀ slot ∈ order,
      Clean (contents slot) ∧ BeginsMarked (contents slot) ∧ EndsMarked (contents slot)) {o : Outline}
    (h : Clean o) : FilledAlone contents order o := by
  induction order generalizing o with
  | nil => trivial
  | cons slot order ih =>
      obtain ⟨hclean, hbegin, hend⟩ := hcontents slot List.mem_cons_self
      exact ⟨unmistakable_of_clean h slot,
        ih (fun other hother => hcontents other (List.mem_cons_of_mem slot hother))
          (Clean.fill hbegin hclean hend h)⟩

/-- Filling slots with clean code, one after the other, keeps an outline clean. -/
theorem Clean.fillAll {contents : Slot → Outline} {order : List Slot}
    (hcontents : ∀ slot ∈ order,
      Clean (contents slot) ∧ BeginsMarked (contents slot) ∧ EndsMarked (contents slot)) {o : Outline}
    (h : Clean o) : Clean (o.fillAll contents order) := by
  induction order generalizing o with
  | nil => exact h
  | cons slot order ih =>
      obtain ⟨hclean, hbegin, hend⟩ := hcontents slot List.mem_cons_self
      exact ih (fun other hother => hcontents other (List.mem_cons_of_mem slot hother))
        (Clean.fill hbegin hclean hend h)

theorem flatMap_ofText_render (f : Slot → Text) (o : Outline) :
    (o.flatMap fun p => ofText (p.render f)) = ofText (o.writtenWith f) := List.map_flatMap.symm

/-- Text that ends with a fence character, as code does, may be followed by a placeholder. -/
theorem exists_isLead_of_endsMarked {content : Outline} (h : EndsMarked content) (f : Slot → Text) :
    ∃ p ∈ (ofText (content.writtenWith f)).getLast?, isLead p := by
  obtain ⟨c, hc, hlast⟩ := h
  obtain ⟨front, rfl⟩ := List.getLast?_eq_some_iff.1 hlast
  refine ⟨.char c, ?_, Bool.or_eq_true_iff.2 (Or.inr hc)⟩
  rw [writtenWith_append, ofText, List.getLast?_map, List.getLast?_append]
  rfl

section
variable {text : Text} (htext : Clean (ofText text))
include htext

theorem clean_outline : Clean (outline text) := by
  refine clean_of_flatMap (fun c => rfl) (fun slot hslot => ?_) (g := fun p => ofText (p.render (codeAt text))) ?_
  · exact exists_isLead_of_endsMarked (contents_marked text (slots_outline text hslot)).2 _
  · rw [flatMap_ofText_render, writtenWith_outline]
    exact htext

theorem clean_contents {slot : Slot} (h : slot ∈ spanSlots text ∨ slot ∈ blockSlots text) :
    Clean (contents text slot) := by
  rcases h with h | h
  · have hblocks : Clean (blockOutline text) := by
      refine clean_of_flatMap (fun c => rfl) (fun block hblock => ?_)
        (g := fun p => ofText (p.render fun block => (contents text block).written)) ?_
      · exact exists_isLead_of_endsMarked (contents_marked text (Or.inr (slots_blockOutline text ▸ hblock))).2 _
      · rw [flatMap_ofText_render, writtenWith_blockOutline]
        exact htext
    have hpart := infix_segmentsText_of_mem_codes (contents_mem_of_mem_spanSlots text h)
    rw [segmentsText_spanParts] at hpart
    exact hblocks.of_part hpart
  · obtain ⟨s, hs, heq⟩ := contents_mem_of_mem_blockSlots text h
    obtain ⟨a, b, hab⟩ := infix_segmentsText_of_mem_codes hs
    rw [segmentsText_fencedParts] at hab
    rw [heq]
    refine htext.of_part ⟨ofText a, ofText b, ?_⟩
    rw [← hab, ofText, ofText, ofText, ofText, List.map_append, List.map_append]

theorem clean_code {slot : Slot} (h : slot ∈ spanSlots text ++ blockSlots text) :
    Clean (contents text slot) ∧ BeginsMarked (contents text slot) ∧ EndsMarked (contents text slot) :=
  ⟨clean_contents htext (List.mem_append.1 h), contents_marked text (List.mem_append.1 h)⟩

section
variable {o : Outline} (ho : Clean o) (hslots : ∀ slot ∈ slots o, slot ∈ spanSlots text ∨ slot ∈ blockSlots text)
include ho hslots

/-- Restoring a clean outline with slots of the text writes each slot as its code. -/
theorem restore_written : (hide text).2.restore o.written = o.writtenWith (codeAt text) := by
  have hfilled : FilledAlone (contents text) (spanSlots text ++ blockSlots text) o :=
    filledAlone_of_clean (fun slot => clean_code htext) ho
  calc (hide text).2.restore o.written
      = restoreSlots (contents text) (spanSlots text ++ blockSlots text) o.written := restore_eq_restoreSlots text _
    _ = (o.fillAll (contents text) (spanSlots text ++ blockSlots text)).written := restoreSlots_written hfilled
    _ = o.writtenWith (codeAt text) := by rw [fillAll_eq_ofText text hslots, written_ofText]

/-- A clean outline written with the code of a text without the words is clean again. -/
theorem clean_writtenWith_codeAt : Clean (ofText (o.writtenWith (codeAt text))) := by
  rw [← fillAll_eq_ofText text hslots]
  exact Clean.fillAll (fun slot => clean_code htext) ho

end

/-- Restoring undoes hiding in a text without the words of placeholders. -/
theorem restore_hide : (hide text).2.restore (hide text).1 = text := by
  rw [hide_eq, ← congrArg Prod.snd (hide_eq text)]
  rw [restore_written htext (clean_outline htext) (fun slot => slots_outline text), writtenWith_outline]

end

end MarkdownLinks.Code
