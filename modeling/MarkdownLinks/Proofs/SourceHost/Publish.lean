import MarkdownLinks.Proofs.SourceHost.Revision

/-! Publishing leaves code alone. The edits that replace links put text in the places of characters that
begins with a character no placeholder has, and in which no placeholder begins; so what they make of a
clean outline is clean, with the same slots in the same order. Restoring it writes each slot as the code
that stood there. -/

namespace MarkdownLinks

open Code Code.Outline

/-- Whether a text may be put in the place of a character: it does not continue a word of a placeholder,
and no such word stands in it or reaches out of it. -/
def Sealed (into : Text) : Prop :=
  (∃ c s, into = c :: s ∧ ∀ word ∈ placeholderWords, c ∉ word) ∧
    ∀ rest : Outline, Clean rest → Clean (ofText into ++ rest)

theorem slots_afterAll (edits : List Edit) : slots (afterAll edits) = slots (beforeAll edits) := by
  induction edits with
  | nil => rfl
  | cons e edits ih =>
      cases e with
      | keep p => cases p <;> simp [Edit.before, ih]
      | change c into => simp [Edit.before, ih]

/-- Edits neither make nor lengthen the front part of a word. -/
theorem ofText_prefix_of_prefix_afterAll {word : Text} (hword : word ∈ placeholderWords) {edits : List Edit}
    (hedits : ∀ c into, .change c into ∈ edits → Sealed into) {s : Text} (hs : s ⊆ word)
    (h : ofText s <+: afterAll edits) : ofText s <+: beforeAll edits := by
  induction s generalizing edits with
  | nil => exact List.nil_prefix
  | cons c s ih =>
      cases edits with
      | nil => exact h
      | cons e edits =>
          cases e with
          | keep p =>
              obtain ⟨hp, hrest⟩ := List.cons_prefix_cons.1 h
              exact List.cons_prefix_cons.2 ⟨hp, ih (fun d into hmem => hedits d into (List.mem_cons_of_mem _ hmem))
                (fun d hd => hs (List.mem_cons_of_mem c hd)) hrest⟩
          | change d into =>
              obtain ⟨⟨f, t, rfl, hf⟩, -⟩ := hedits d into List.mem_cons_self
              obtain ⟨hcf, -⟩ := List.cons_prefix_cons.1 h
              cases hcf
              exact absurd (hs List.mem_cons_self) (hf word hword)

/-- Edits that put sealed text in the places of characters keep an outline clean. -/
theorem clean_afterAll {edits : List Edit} (hedits : ∀ c into, .change c into ∈ edits → Sealed into)
    (h : Clean (beforeAll edits)) : Clean (afterAll edits) := by
  induction edits with
  | nil => exact clean_nil
  | cons e edits ih =>
      obtain ⟨hhead, hrest⟩ := clean_cons_iff.1 h
      have hedits' : ∀ c into, .change c into ∈ edits → Sealed into := fun c into hmem =>
        hedits c into (List.mem_cons_of_mem e hmem)
      have hclean := ih hedits' hrest
      cases e with
      | keep p =>
          refine clean_cons_iff.2 ⟨fun hlead word hword hpre => ?_, hclean⟩
          exact hhead hlead word hword
            (ofText_prefix_of_prefix_afterAll hword hedits' (List.Subset.refl word) hpre)
      | change c into => exact (hedits c into List.mem_cons_self).2 _ hclean

theorem clean_append_of_not_isLead {o rest : Outline} (ho : ∀ p ∈ o, isLead p = false) (h : Clean rest) :
    Clean (o ++ rest) := by
  induction o with
  | nil => exact h
  | cons p o ih =>
      refine clean_cons_iff.2 ⟨fun hlead => ?_, ih fun q hq => ho q (List.mem_cons_of_mem p hq)⟩
      rw [ho p List.mem_cons_self] at hlead
      cases hlead

theorem not_isLead_of_mem_encodeChar {c d : Char} (hc : ¬Percent.isPlain c) (h : d ∈ Percent.encodeChar c) :
    isLead (.char d) = false := by
  apply Bool.eq_false_iff.2
  intro hlead
  have hd : d = '_' ∨ d = '\x60' ∨ d = '~' := by simpa [isLead, isFenceMark] using hlead
  rcases Percent.mem_encodeChar hc h with rfl | h
  · revert hd
    decide
  · rcases hd with rfl | rfl | rfl <;> exact absurd h (by decide)

/-- An escape may stand in the place of the character that it stands for. -/
theorem sealed_encodeChar {c : Char} (hc : ¬Percent.isPlain c) : Sealed (Percent.encodeChar c) := by
  constructor
  · obtain ⟨s, hs⟩ := Percent.exists_encodeChar_eq_cons hc
    exact ⟨'%', s, hs, fun word hword => not_mem_word (by decide) (by decide) hword⟩
  · intro rest hrest
    refine clean_append_of_not_isLead (fun p hp => ?_) hrest
    obtain ⟨d, hd, rfl⟩ := List.mem_map.1 hp
    exact not_isLead_of_mem_encodeChar hc hd

namespace SourceHost

variable {host : SourceHost}

theorem WordFree.base (h : WordFree host.repository) : WordFree host.base :=
  fun word hword hpart => h word hword (hpart.trans host.base_prefix.isInfix)

/-- The front of a URL may be put behind the opening parenthesis. -/
theorem sealed_urlFront (hrepository : WordFree host.repository) (hbranch : WordFree host.branch) (path : Text) :
    Sealed ('(' :: host.urlFront path) := by
  have hslash : ∀ word ∈ placeholderWords, '/' ∉ word := fun word => not_mem_word (by decide) (by decide)
  refine ⟨⟨'(', _, rfl, fun word => not_mem_word (by decide) (by decide)⟩, fun rest hrest => ?_⟩
  have hcons : ∀ {o : Outline}, Clean o → Clean (.char '/' :: o) := fun h =>
    clean_cons_iff.2 ⟨fun hlead => (by cases hlead), h⟩
  have hsegment : Clean (ofText (PathShape.ofPath path).urlSegment) := by
    apply WordFree.clean
    cases PathShape.ofPath path <;> decide +kernel
  have hfront : ofText ('(' :: host.urlFront path) ++ rest =
      .char '(' :: (ofText host.base ++ .char '/' :: (ofText (PathShape.ofPath path).urlSegment ++
        .char '/' :: (ofText host.branch ++ .char '/' :: rest))) := by
    simp [urlFront, ofText]
  rw [hfront]
  refine clean_cons_iff.2 ⟨fun hlead => (by cases hlead), ?_⟩
  refine Clean.append_char hslash (WordFree.base hrepository).clean (hcons ?_)
  refine Clean.append_char hslash hsegment (hcons ?_)
  exact Clean.append_char hslash hbranch.clean (hcons hrest)

section
variable {P : Outline → Prop} {edits : List Edit} (hrepository : WordFree host.repository)
  (hbranch : WordFree host.branch) (hedits : Relinking host P edits)
include hrepository hbranch hedits

theorem sealed_of_mem_relinking : ∀ c into, .change c into ∈ edits → Sealed into := by
  intro c into hmem
  rcases hedits.of_mem hmem with ⟨-, path, rfl⟩ | ⟨hc, rfl⟩
  · exact sealed_urlFront hrepository hbranch path
  · exact sealed_encodeChar hc

/-- Publishing a text makes the edits of its outline that replace links, and writes each slot as its
code. -/
theorem publish_eq_of_relinking {text : Text} (htext : Clean (ofText text)) (hbefore : beforeAll edits = outline text)
    (hwritten : host.relinkAll (outline text).written = (afterAll edits).written) :
    Clean (afterAll edits) ∧ Clean (ofText (host.publish text)) ∧
      host.publish text = (afterAll edits).writtenWith (codeAt text) := by
  have hclean : Clean (afterAll edits) :=
    clean_afterAll (sealed_of_mem_relinking hrepository hbranch hedits) (hbefore ▸ clean_outline htext)
  have hslots : ∀ slot ∈ slots (afterAll edits), slot ∈ spanSlots text ∨ slot ∈ blockSlots text := by
    intro slot hslot
    rw [slots_afterAll, hbefore] at hslot
    exact slots_outline text hslot
  have hpublish : host.publish text = (afterAll edits).writtenWith (codeAt text) := by
    have hmasked : host.relinkAll (hide text).1 = (afterAll edits).written := by rw [hide_eq, hwritten]
    rw [publish, editAround, hmasked]
    exact restore_written htext hclean hslots
  refine ⟨hclean, ?_, hpublish⟩
  rw [hpublish]
  exact clean_writtenWith_codeAt htext hclean hslots

end

theorem exists_published {text : Text} (hrepository : WordFree host.repository) (hbranch : WordFree host.branch)
    (htext : Clean (ofText text)) :
    ∃ edits, beforeAll edits = outline text ∧ host.relinkAll (outline text).written = (afterAll edits).written ∧
      Clean (afterAll edits) ∧ Clean (ofText (host.publish text)) ∧
        host.publish text = (afterAll edits).writtenWith (codeAt text) := by
  obtain ⟨edits, hbefore, hedits, hwritten⟩ := host.exists_relinking (outline text) (fun _ _ _ _ => trivial)
    (P := fun _ => True)
  exact ⟨edits, hbefore, hwritten, publish_eq_of_relinking hrepository hbranch hedits htext hbefore hwritten⟩

/-- Publishing leaves code alone. A text is plain text and pieces of code; the masked text is the same
with placeholders for the code. What replacing links makes of the masked text has the same placeholders
in the same order, each once and nowhere mistakable, and the published text is that with the code in
their places. -/
theorem publish_keeps_code (host : SourceHost) (text : Text) (htext : WordFree text)
    (hrepository : WordFree host.repository) (hbranch : WordFree host.branch) :
    text = (outline text).writtenWith (codeAt text) ∧
      (hide text).1 = (outline text).written ∧
      (slots (outline text)).Nodup ∧
      ∃ published : Outline, slots published = slots (outline text) ∧
        (∀ slot, Unmistakable slot published []) ∧
        host.relinkAll (hide text).1 = published.written ∧
        host.publish text = published.writtenWith (codeAt text) := by
  obtain ⟨edits, hbefore, hwritten, hclean, -, hpublish⟩ := exists_published hrepository hbranch htext.clean
  refine ⟨(writtenWith_outline text).symm, by rw [hide_eq], nodup_slots_outline text, afterAll edits, ?_,
    unmistakable_of_clean hclean, by rw [hide_eq, hwritten], hpublish⟩
  rw [slots_afterAll, hbefore]

/-- A link to a source with code in its text, code in its target and code behind it. -/
theorem publish_keeps_code_in_link :
    let text := "[\x60a\x60](Runtime/\x60b\x60 c.cs) \x60[d](Runtime/e)\x60".toList
    let host : SourceHost := {}
    (WordFree text ∧ WordFree host.repository ∧ WordFree host.branch) ∧
      ∃ published : Outline, slots published = [.inline 0, .inline 1, .inline 2] ∧
        host.publish text = published.writtenWith (codeAt text) := by
  intro text host
  have htext : WordFree text := by decide +kernel
  have hrepository : WordFree host.repository := by decide +kernel
  have hbranch : WordFree host.branch := by decide +kernel
  obtain ⟨-, -, -, published, hslots, -, -, hpublish⟩ := publish_keeps_code host text htext hrepository hbranch
  have houtline : slots (outline text) = [.inline 0, .inline 1, .inline 2] := by decide +kernel
  exact ⟨⟨htext, hrepository, hbranch⟩, published, hslots.trans houtline, hpublish⟩

end SourceHost

end MarkdownLinks
