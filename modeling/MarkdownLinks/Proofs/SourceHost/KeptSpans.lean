import MarkdownLinks.Proofs.Code.FewerTicks
import MarkdownLinks.Proofs.SourceHost.KeptBlocks

/-! Publishing keeps the spans. The backticks that the edits of links take away are those of targets, and
no backtick outside them stands beside one: a target is between parentheses. So whole runs vanish, and
none of them delimits a span, for spans in a target are slots there. What the edits put in the places of
characters has no backticks. -/

namespace MarkdownLinks

open Code Code.Outline

/-- Whether an edit is that of a backtick outside all slots. -/
def Edit.hasTick (e : Edit) : Bool := isTickPiece e.before

/-- Whether an edit keeps a backtick outside all slots. -/
def Edit.keepsTick : Edit → Bool
  | .keep p => isTickPiece p
  | .change _ _ => false

/-- The part of a row of edits that an edit stands for, when the pieces of a span are kept one by one. -/
def editPart (text : Text) : Edit → Segment Edit
  | .keep p => (spanPart text p).map .keep
  | .change c into => .plain (.change c into)

section
variable (text : Text)

theorem map_before_editPart (edits : List Edit) :
    (edits.map (editPart text)).map (Segment.map Edit.before) = (beforeAll edits).map (spanPart text) := by
  have hpart : ∀ e, (editPart text e).map Edit.before = spanPart text e.before := by
    intro e
    cases e with
    | keep p =>
        have hkeep : ∀ o : Outline, (o.map Edit.keep).map Edit.before = o := beforeAll_map_keep
        rw [editPart, Edit.before]
        cases spanPart text p with
        | plain q => rfl
        | code o => exact congrArg Segment.code (hkeep o)
    | change c into => rfl
  rw [beforeAll, List.map_map, List.map_map]
  exact List.map_congr_left fun e _ => hpart e

theorem afterAll_editPart (edits : List Edit) :
    afterAll (segmentsText (edits.map (editPart text))) = opened text (afterAll edits) := by
  induction edits with
  | nil => rfl
  | cons e edits ih =>
      have hcons : segmentsText ((e :: edits).map (editPart text)) =
          (editPart text e).text ++ segmentsText (edits.map (editPart text)) := List.flatMap_cons
      rw [hcons, afterAll_append, ih]
      cases e with
      | keep p =>
          have hopened : opened text (p :: afterAll edits) = (spanPart text p).text ++ opened text (afterAll edits) :=
            List.flatMap_cons
          rw [afterAll_keep, hopened, editPart]
          cases spanPart text p with
          | plain q => rfl
          | code o => exact congrArg (· ++ _) (afterAll_map_keep o)
      | change c into =>
          rw [afterAll_change, opened_append, opened_ofText]
          exact congrArg (· ++ _) (List.append_nil _)

theorem exists_keep_of_mem_codes {edits s : List Edit} (h : s ∈ codes (edits.map (editPart text))) :
    ∃ o : Outline, s = o.map .keep := by
  obtain ⟨part, hpart, hs⟩ := List.mem_filterMap.1 h
  obtain ⟨e, -, rfl⟩ := List.mem_map.1 hpart
  cases e with
  | keep p =>
      rw [editPart] at hs
      cases hp : spanPart text p with
      | plain q =>
          rw [hp] at hs
          cases hs
      | code o =>
          rw [hp] at hs
          exact ⟨o, (Option.some.inj hs).symm⟩
  | change c into => cases hs

theorem mem_of_change_mem {edits : List Edit} {c : Char} {into : Text}
    (h : .change c into ∈ segmentsText (edits.map (editPart text))) : .change c into ∈ edits := by
  obtain ⟨part, hpart, hmem⟩ := List.mem_flatMap.1 h
  obtain ⟨e, he, rfl⟩ := List.mem_map.1 hpart
  cases e with
  | keep p =>
      rw [editPart] at hmem
      cases hp : spanPart text p with
      | plain q =>
          rw [hp] at hmem
          cases List.mem_singleton.1 hmem
      | code o =>
          rw [hp] at hmem
          obtain ⟨q, -, hq⟩ := List.mem_map.1 hmem
          cases hq
  | change d into' =>
      rw [List.mem_singleton.1 hmem]
      exact he

/-- The edits of a text have the spans of the text. -/
theorem spanParts_edits {edits : List Edit} (hbefore : beforeAll edits = outline text) :
    spanParts Edit.hasTick (segmentsText (edits.map (editPart text))) = edits.map (editPart text) := by
  refine eq_of_map_eq (f := Edit.before) (segmentsText_spanParts _ _) ?_
  have hspans : spanParts isTickPiece ((segmentsText (edits.map (editPart text))).map Edit.before) =
      (spanParts Edit.hasTick (segmentsText (edits.map (editPart text)))).map (Segment.map Edit.before) :=
    spanParts_map _ _
  rw [← hspans, ← segmentsText_map, map_before_editPart, hbefore, ← opened, opened_outline, map_spanPart_outline]

theorem placeholdersFrom_editPart {edits : List Edit} {n : Nat}
    (h : placeholdersFrom (fun k => [.item (.inline k)]) n ((beforeAll edits).map (spanPart text)) = beforeAll edits) :
    placeholdersFrom (fun k => [.keep (.item (.inline k))]) n (edits.map (editPart text)) = edits := by
  induction edits generalizing n with
  | nil => rfl
  | cons e edits ih =>
      cases e with
      | keep p =>
          cases p with
          | char c => exact congrArg (.keep (.char c) :: ·) (ih (List.cons.inj h).2)
          | item slot =>
              cases slot with
              | fenced m => exact congrArg (.keep (.item (.fenced m)) :: ·) (ih (List.cons.inj h).2)
              | inline m =>
                  obtain ⟨hn, hrest⟩ := List.cons.inj h
                  cases hn
                  exact congrArg (.keep (.item (.inline n)) :: ·) (ih hrest)
      | change c into => exact congrArg (.change c into :: ·) (ih (List.cons.inj h).2)

/-- Edits that put text without backticks in the places of characters leave the backticks they keep. -/
theorem keepsTicks_after {row : List Edit}
    (hrow : ∀ c into, .change c into ∈ row → into ≠ [] ∧ ∀ d ∈ into, isTick d = false) :
    KeepsTicks Edit.keepsTick isTickPiece Edit.after row where
  of_sign {e} _ htick := by
    cases e with
    | keep p => exact ⟨p, rfl, htick⟩
    | change c into => cases htick
  of_not {e} he htick := by
    cases e with
    | keep p =>
        refine ⟨List.cons_ne_nil p [], fun q hq => ?_⟩
        rw [List.mem_singleton.1 hq]
        exact htick
    | change c into =>
        obtain ⟨hne, hfree⟩ := hrow c into he
        refine ⟨fun hnil => hne (List.map_eq_nil_iff.1 hnil), fun q hq => ?_⟩
        obtain ⟨d, hd, rfl⟩ := List.mem_map.1 hq
        exact hfree d hd

end

section
variable {text : Text} {edits : List Edit}

theorem keepsRuns_cons_of_not {e : Edit} {parts : List (Segment Edit)} (hkeeps : e.keepsTick = false)
    (htick : e.hasTick = false) (h : KeepsRuns Edit.hasTick Edit.keepsTick parts) :
    KeepsRuns Edit.hasTick Edit.keepsTick (.plain e :: parts) := by
  refine ⟨fun hfew => ?_, fun b _ c _ ht => ?_, h⟩
  · rw [hkeeps] at hfew
    cases hfew
  · rw [htick] at ht
    cases ht

/-- A piece that is kept in front of a piece that is kept. -/
theorem keepsRuns_keep (p : Piece Slot) (hhead : ∀ e ∈ edits.head?, ∃ q, e = .keep q)
    (h : KeepsRuns Edit.hasTick Edit.keepsTick (edits.map (editPart text))) :
    KeepsRuns Edit.hasTick Edit.keepsTick ((Edit.keep p :: edits).map (editPart text)) := by
  rw [List.map_cons, editPart]
  cases spanPart text p with
  | code o =>
      refine ⟨fun e he => ?_, h⟩
      obtain ⟨q, -, rfl⟩ := List.mem_map.1 he
      rfl
  | plain q =>
      refine ⟨id, fun b hb c hc htick htick' => ?_, h⟩
      cases edits with
      | nil => cases hb
      | cons e edits =>
          obtain ⟨r, rfl⟩ := hhead e rfl
          cases hb
          rw [editPart] at hc
          cases hr : spanPart text r with
          | code o =>
              rw [hr] at hc
              cases hc
          | plain r' =>
              rw [hr] at hc
              cases hc
              exact htick.trans htick'.symm

theorem keepsRuns_keepAll (o : Outline) (hhead : ∀ e ∈ edits.head?, ∃ q, e = .keep q)
    (h : KeepsRuns Edit.hasTick Edit.keepsTick (edits.map (editPart text))) :
    KeepsRuns Edit.hasTick Edit.keepsTick ((o.map Edit.keep ++ edits).map (editPart text)) := by
  induction o with
  | nil => exact h
  | cons p o ih =>
      refine keepsRuns_keep p (fun e he => ?_) ih
      cases o with
      | nil => exact hhead e he
      | cons q o => exact ⟨q, (Option.some.inj he).symm⟩

theorem isTick_eq_false_of_isPlain {c : Char} (hc : Percent.isPlain c) : isTick c = false := by
  apply Bool.eq_false_iff.2
  intro htick
  rw [beq_iff_eq.1 htick] at hc
  exact absurd hc (by decide)

/-- In a target no backtick outside the spans is kept. -/
theorem keepsTick_encode (p : Piece Slot) : (Edit.encode p).keepsTick = false := by
  cases p with
  | item slot => rfl
  | char c =>
      rw [Edit.encode]
      split
      · exact isTick_eq_false_of_isPlain ‹_›
      · rfl

theorem editPart_encode_char (c : Char) :
    editPart text (Edit.encode (.char c)) = .plain (Edit.encode (.char c)) := by
  rw [Edit.encode]
  split <;> rfl

theorem keepsTick_head_target {target : Outline} {e : Edit}
    (h : .plain e ∈ ((target.map Edit.encode ++ .keep (.char ')') :: edits).map (editPart text)).head?) :
    e.keepsTick = false := by
  cases target with
  | nil =>
      cases h
      rfl
  | cons p target =>
      rw [List.map_cons, List.cons_append, List.map_cons, List.head?_cons, Option.mem_some_iff] at h
      cases p with
      | char c =>
          rw [editPart_encode_char] at h
          cases h
          exact keepsTick_encode _
      | item slot =>
          cases slot with
          | fenced n =>
              cases h
              rfl
          | inline n => cases h

/-- The edits of a target, up to its closing parenthesis. -/
theorem keepsRuns_target (target : Outline)
    (h : KeepsRuns Edit.hasTick Edit.keepsTick (edits.map (editPart text))) :
    KeepsRuns Edit.hasTick Edit.keepsTick
      ((target.map Edit.encode ++ .keep (.char ')') :: edits).map (editPart text)) := by
  induction target with
  | nil => exact keepsRuns_cons_of_not rfl rfl h
  | cons p target ih =>
      cases p with
      | item slot =>
          cases slot with
          | fenced n => exact keepsRuns_cons_of_not rfl rfl ih
          | inline n =>
              refine ⟨fun e he => ?_, ih⟩
              obtain ⟨q, -, rfl⟩ := List.mem_map.1 he
              rfl
      | char c =>
          rw [List.map_cons, List.cons_append, List.map_cons, editPart_encode_char]
          refine ⟨fun hfew => ?_, fun b hb d hd _ _ => ?_, ih⟩
          · rw [keepsTick_encode] at hfew
            cases hfew
          · rw [keepsTick_encode, keepsTick_head_target (hd ▸ hb)]

namespace SourceHost

variable {host : SourceHost} {P : Outline → Prop}

theorem Relinking.head_eq_keep (hedits : Relinking host P edits) : ∀ e ∈ edits.head?, ∃ p, e = .keep p := by
  intro e he
  cases hedits with
  | done => cases he
  | keep p h =>
      cases he
      exact ⟨p, rfl⟩
  | link label htarget h =>
      cases he
      exact ⟨_, rfl⟩

/-- Replacing links keeps the backticks of spans, and of the other runs it keeps or removes all. -/
theorem Relinking.keepsRuns (hedits : Relinking host P edits) :
    KeepsRuns Edit.hasTick Edit.keepsTick (edits.map (editPart text)) := by
  induction hedits with
  | done => trivial
  | keep p h ih => exact keepsRuns_keep p h.head_eq_keep ih
  | @link label target edits htarget h ih =>
      have hlink : host.linkEdits label target ++ edits =
          .keep (.char '[') :: (label.map .keep ++ .keep (.char ']') ::
            .change '(' ('(' :: host.urlFront target.written) ::
              (target.map Edit.encode ++ .keep (.char ')') :: edits)) := by
        simp [linkEdits]
      have hbehind : KeepsRuns Edit.hasTick Edit.keepsTick ((.keep (.char ']') ::
          .change '(' ('(' :: host.urlFront target.written) ::
            (target.map Edit.encode ++ .keep (.char ')') :: edits)).map (editPart text)) :=
        keepsRuns_cons_of_not rfl rfl (keepsRuns_cons_of_not rfl rfl (keepsRuns_target target ih))
      rw [hlink]
      exact keepsRuns_cons_of_not rfl rfl
        (keepsRuns_keepAll label (fun e he => ⟨.char ']', (Option.some.inj he).symm⟩) hbehind)

/-- What the edits of links put in the places of characters has no backticks. -/
theorem Relinking.tickFree (hrepository : '\x60' ∉ host.repository) (hbranch : '\x60' ∉ host.branch)
    (hedits : Relinking host P edits) {c : Char} {into : Text} (hmem : .change c into ∈ edits) :
    into ≠ [] ∧ ∀ d ∈ into, isTick d = false := by
  have hfree : into ≠ [] ∧ '\x60' ∉ into := by
    rcases hedits.of_mem hmem with ⟨-, path, rfl⟩ | ⟨hc, rfl⟩
    · refine ⟨List.cons_ne_nil _ _, fun h => ?_⟩
      rcases List.mem_cons.1 h with h | h
      · cases h
      · exact not_mem_urlFront (by decide) hrepository hbranch path h
    · obtain ⟨s, hs⟩ := Percent.exists_encodeChar_eq_cons hc
      refine ⟨hs ▸ List.cons_ne_nil '%' s, fun h => ?_⟩
      rcases Percent.mem_encodeChar hc h with h | h <;> exact absurd h (by decide)
  refine ⟨hfree.1, fun d hd => Bool.eq_false_iff.2 fun htick => hfree.2 ?_⟩
  rw [← beq_iff_eq.1 htick]
  exact hd

/-- A text with the blocks of the edited outline has the edited outline, and the same spans. -/
theorem outline_of_relinking (hrepository : '\x60' ∉ host.repository) (hbranch : '\x60' ∉ host.branch)
    (hedits : Relinking host P edits) (hbefore : beforeAll edits = outline text) {s : Text}
    (hs : blockOutline s = opened text (afterAll edits)) :
    outline s = afterAll edits ∧
      codes (spanParts isTickPiece (blockOutline s)) = codes (spanParts isTickPiece (blockOutline text)) := by
  have hsame := (spanParts_of_keepsRuns (s := segmentsText (edits.map (editPart text)))
    (by rw [spanParts_edits text hbefore]; exact hedits.keepsRuns)).1
  have hkeeps := keepsTicks_after fun c into hmem => hedits.tickFree hrepository hbranch (mem_of_change_mem text hmem)
  have hafter := hkeeps.spanParts_flatMap
  rw [hsame, spanParts_edits text hbefore, ← afterAll, afterAll_editPart, ← hs] at hafter
  constructor
  · have hnumbers : placeholdersFrom (fun k => [.item (.inline k)]) 0 ((beforeAll edits).map (spanPart text)) =
        beforeAll edits := by
      rw [hbefore, map_spanPart_outline]
      rfl
    have hsign : ∀ n, [Edit.keep (.item (.inline n))].flatMap Edit.after = [Piece.item (Slot.inline n)] := fun _ => rfl
    rw [outline, hafter, placeholdersFrom_flatMap_expand hsign, placeholdersFrom_editPart text hnumbers]
    rfl
  · rw [hafter, codes_flatMap_expand, ← map_spanPart_outline, ← hbefore, ← map_before_editPart, codes_map]
    apply List.map_congr_left
    intro o ho
    obtain ⟨o, rfl⟩ := exists_keep_of_mem_codes text ho
    exact (afterAll_map_keep o).trans (beforeAll_map_keep o).symm

end SourceHost

end

end MarkdownLinks
