import MarkdownLinks.Code.Hidden
import MarkdownLinks.Proofs.Code.SettledEdit

/-! The blocks of a text read line by line. From the top, a fence line opens a block if a later line has a fence
that closes it, the first such line ends the block, and reading resumes on the line below; a fence that nothing
closes is text. Taking a text apart into blocks differs from this reading in one place: what stands behind a
closing run is read as if a line began there. So the two agree exactly if every block begins a line, blanks aside,
and that is so exactly if no closing run has a fence behind it on its line that a later line closes. -/

namespace MarkdownLinks.Code

/-- The first of some lines whose fence closes a block: the lines above it, its fence, and the lines below it. -/
def closingLine? (opening : FenceLine) : List Text → Option (List Text × FenceLine × List Text)
  | [] => none
  | line :: ls =>
      match (FenceLine.ofLine? line).filter fun f => f.closes opening with
      | some closing => some ([], closing, ls)
      | none =>
          (closingLine? opening ls).map fun (between, closing, below) => (line :: between, closing, below)

/-- What a row of lines is made of, read line by line. -/
inductive LinePart where
  | text (line : Text)
  /-- A block with the lines between its fences; the lines below it are kept for reference. -/
  | block (opening : FenceLine) (between : List Text) (closing : FenceLine) (below : List Text)

namespace LinePart

/-- A block reaches from the opening run to the end of the closing run. -/
def segments : LinePart → List (Segment Char)
  | .text line => line.map .plain
  | .block opening between closing _ =>
      opening.indent.map .plain ++
        .code (opening.run ++ opening.rest ++ (between.flatten ++ (closing.indent ++ closing.run))) ::
          closing.rest.map .plain

/-- Whether what stands behind the closing run is not the opening of another block. -/
def EndsLine : LinePart → Prop
  | .text _ => True
  | .block _ _ closing below =>
      ∀ f, FenceLine.ofLine? closing.rest = some f → closingLine? f below = none

end LinePart

section
variable {opening closing : FenceLine} {ls between below : List Text}

/-- A block is closed by the first line whose fence is of the same character and at least as long. -/
theorem closingLine?_eq_some_iff :
    closingLine? opening ls = some (between, closing, below) ↔
      ∃ line, ls = between ++ line :: below ∧ FenceLine.ofLine? line = some closing ∧ closing.closes opening ∧
        ∀ l ∈ between, ∀ f, FenceLine.ofLine? l = some f → ¬f.closes opening := by
  induction ls generalizing between with
  | nil => simp [closingLine?]
  | cons l ls ih =>
      rw [closingLine?]
      split
      · rename_i first hfirst
        obtain ⟨hl, hcloses⟩ := Option.filter_eq_some_iff.1 hfirst
        constructor
        · intro h
          cases h
          exact ⟨l, rfl, hl, hcloses, fun _ h => nomatch h⟩
        · rintro ⟨line, hls, hline, -, hbetween⟩
          cases between with
          | nil =>
              obtain ⟨rfl, rfl⟩ := List.cons.inj hls
              rw [Option.some.inj (hl.symm.trans hline)]
          | cons b between =>
              obtain ⟨rfl, -⟩ := List.cons.inj hls
              exact absurd hcloses (hbetween l List.mem_cons_self first hl)
      · rename_i hnone
        rw [Option.filter_eq_none_iff] at hnone
        simp only [Option.map_eq_some_iff, Prod.exists, Prod.mk.injEq]
        constructor
        · rintro ⟨between, closing, below, h, rfl, rfl, rfl⟩
          obtain ⟨line, rfl, hline, hcloses, hbetween⟩ := ih.1 h
          exact ⟨line, rfl, hline, hcloses, List.forall_mem_cons.2 ⟨fun f hf => hnone f hf, hbetween⟩⟩
        · rintro ⟨line, hls, hline, hcloses, hbetween⟩
          cases between with
          | nil =>
              obtain ⟨rfl, -⟩ := List.cons.inj hls
              exact absurd hcloses (hnone closing hline)
          | cons b between =>
              obtain ⟨rfl, rfl⟩ := List.cons.inj hls
              exact ⟨between, closing, below,
                ih.2 ⟨line, rfl, hline, hcloses, (List.forall_mem_cons.1 hbetween).2⟩, rfl, rfl, rfl⟩

theorem length_closingLine?_lt (h : closingLine? opening ls = some (between, closing, below)) :
    below.length < ls.length := by
  obtain ⟨line, rfl, -⟩ := closingLine?_eq_some_iff.1 h
  rw [List.length_append, List.length_cons]
  omega

end

/-- A row of lines read from the top. -/
def readByLine : List Text → List LinePart
  | [] => []
  | line :: ls =>
      match FenceLine.ofLine? line with
      | none => .text line :: readByLine ls
      | some opening =>
          match _ : closingLine? opening ls with
          | none => .text line :: readByLine ls
          | some (between, closing, below) => .block opening between closing below :: readByLine below
termination_by ls => ls.length
decreasing_by
  · exact Nat.lt_succ_self _
  · exact Nat.lt_succ_self _
  · exact Nat.lt_succ_of_lt (length_closingLine?_lt (by assumption))

/-- The blocks of a text read line by line, and the characters outside them. -/
def partsByLine (s : Text) : List (Segment Char) := (readByLine (fullLines s)).flatMap LinePart.segments

theorem readByLine_nil : readByLine (fullLines []) = [] := by rw [fullLines_nil, readByLine]

theorem partsByLine_nil : partsByLine [] = [] := by rw [partsByLine, readByLine_nil, List.flatMap_nil]

theorem fencedParts_nil : fencedParts [] = [] := by rw [fencedParts]

/-! One step of either reading. -/

section
variable {opening closing : FenceLine} {s : Text} {between below : List Text}

/-- The line of a closing fence, and what follows the line. -/
theorem exists_rest_of_closingLine? (h : closingLine? opening (fullLines s) = some (between, closing, below)) :
    ∃ rest, below = fullLines rest ∧ rest.length < s.length ∧ firstLine (closing.rest ++ rest) = closing.rest ∧
      otherLines (closing.rest ++ rest) = rest ∧ (∃ line, FenceLine.ofLine? line = some closing) ∧
      throughClosing? opening s =
        some (between.flatten ++ (closing.indent ++ closing.run), closing.rest ++ rest) := by
  fun_induction throughClosing? opening s generalizing between with
  | case1 => cases h
  | case2 c s first hfirst =>
      rw [fullLines_eq, closingLine?, hfirst] at h
      cases h
      have hl := (Option.filter_eq_some_iff.1 hfirst).1
      have hother := FenceLine.otherLines_rest hl
      have hline := firstLine_append_otherLines (closing.rest ++ otherLines (c :: s))
      rw [hother] at hline
      exact ⟨otherLines (c :: s), rfl, length_otherLines_lt c s, List.append_cancel_right hline, hother, ⟨_, hl⟩, rfl⟩
  | case3 c s hnone ih =>
      rw [fullLines_eq, closingLine?, hnone] at h
      obtain ⟨⟨between, closing, below⟩, hbelow, h⟩ := Option.map_eq_some_iff.1 h
      cases h
      obtain ⟨rest, hrest, hlength, hfirst, hother, hl, hthrough⟩ := ih hbelow
      refine ⟨rest, hrest, Nat.lt_trans hlength (length_otherLines_lt c s), hfirst, hother, hl, ?_⟩
      rw [hthrough, Option.map_some, List.flatten_cons, List.append_assoc]

theorem throughClosing?_eq_none (h : closingLine? opening (fullLines s) = none) : throughClosing? opening s = none := by
  fun_induction throughClosing? opening s with
  | case1 => rfl
  | case2 c s first hfirst =>
      rw [fullLines_eq, closingLine?, hfirst] at h
      cases h
  | case3 c s hnone ih =>
      rw [fullLines_eq, closingLine?, hnone, Option.map_eq_none_iff] at h
      rw [ih h, Option.map_none]

/-- Whether no block begins on the first line of a text. -/
def Unopened (s : Text) : Prop :=
  ∀ opening, FenceLine.ofLine? (firstLine s) = some opening → closingLine? opening (fullLines (otherLines s)) = none

theorem fencedParts_of_unopened (h : Unopened s) :
    fencedParts s = (firstLine s).map .plain ++ fencedParts (otherLines s) := by
  refine fencedParts_of_loose fun k hk => ?_
  obtain ⟨opening, hl, rfl⟩ := Option.map_eq_some_iff.1 hk
  exact throughClosing?_eq_none_iff.1 (throughClosing?_eq_none (h opening hl))

theorem readByLine_of_unopened (hs : s ≠ []) (h : Unopened s) :
    readByLine (fullLines s) = .text (firstLine s) :: readByLine (fullLines (otherLines s)) := by
  obtain ⟨c, s, rfl⟩ := List.exists_cons_of_ne_nil hs
  rw [fullLines_eq, readByLine]
  split
  · rfl
  · rename_i opening hl
    split
    · rfl
    · rename_i hclosing
      rw [h opening hl] at hclosing
      cases hclosing

theorem readByLine_of_closed (hl : FenceLine.ofLine? (firstLine s) = some opening)
    (hclosing : closingLine? opening (fullLines (otherLines s)) = some (between, closing, below)) :
    readByLine (fullLines s) = .block opening between closing below :: readByLine below := by
  cases s with
  | nil => cases hl
  | cons c s =>
      rw [fullLines_eq, readByLine]
      split
      · rename_i hnone
        rw [hl] at hnone
        cases hnone
      · rename_i opening' hl'
        obtain rfl : opening = opening' := Option.some.inj (hl.symm.trans hl')
        split
        · rename_i hnone
          rw [hclosing] at hnone
          cases hnone
        · rename_i hclosing'
          cases hclosing.symm.trans hclosing'
          rfl

/-- What both readings make of a text whose first line opens a block. -/
structure Opens (s : Text) (opening : FenceLine) (between : List Text) (closing : FenceLine) (rest : Text) : Prop where
  opening_eq : FenceLine.ofLine? (firstLine s) = some opening
  closing_eq : ∃ line, FenceLine.ofLine? line = some closing
  firstLine_eq : firstLine (closing.rest ++ rest) = closing.rest
  otherLines_eq : otherLines (closing.rest ++ rest) = rest
  length_lt : rest.length < s.length
  readByLine_eq :
    readByLine (fullLines s) = .block opening between closing (fullLines rest) :: readByLine (fullLines rest)
  fencedParts_eq : fencedParts s =
    opening.indent.map .plain ++
      .code (opening.run ++ opening.rest ++ (between.flatten ++ (closing.indent ++ closing.run))) ::
        fencedParts (closing.rest ++ rest)

theorem unopened_or_opens (s : Text) :
    Unopened s ∨ ∃ opening between closing rest, Opens s opening between closing rest := by
  by_cases h : Unopened s
  · exact Or.inl h
  · refine Or.inr ?_
    simp only [Unopened, Classical.not_forall] at h
    obtain ⟨opening, hl, hclosing⟩ := h
    obtain ⟨⟨between, closing, below⟩, hclosing⟩ := Option.ne_none_iff_exists'.1 hclosing
    obtain ⟨rest, rfl, hlength, hfirst, hother, hline, hthrough⟩ := exists_rest_of_closingLine? hclosing
    have hs : (otherLines s).length ≤ s.length := by
      have hjoined := congrArg List.length (firstLine_append_otherLines s)
      rw [List.length_append] at hjoined
      omega
    exact ⟨opening, between, closing, rest, hl, hline, hfirst, hother, Nat.lt_of_lt_of_le hlength hs,
      readByLine_of_closed hl hclosing, fencedParts_of_opens hl hthrough⟩

/-- Induction along the lines of a text: a line that opens no block, or a block and the rest of its last line. -/
@[elab_as_elim] theorem byLine_induction {motive : Text → Prop} (nil : motive [])
    (line : ∀ s, s ≠ [] → Unopened s → motive (otherLines s) → motive s)
    (block : ∀ s opening between closing rest, Opens s opening between closing rest → motive rest → motive s)
    (s : Text) : motive s := by
  induction hn : s.length using Nat.strongRecOn generalizing s with
  | ind n ih =>
      subst hn
      rcases unopened_or_opens s with h | ⟨opening, between, closing, rest, h⟩
      · cases s with
        | nil => exact nil
        | cons c s => exact line _ (List.cons_ne_nil c s) h (ih _ (length_otherLines_lt c s) _ rfl)
      · exact block s opening between closing rest h (ih _ h.length_lt rest rfl)

end

/-! Where blocks begin. -/

/-- Whether what follows a text begins a line, blanks aside. -/
def AtLineStart (front : Text) : Prop :=
  ∃ above blanks, front = above ++ blanks ∧ (above = [] ∨ above.getLast? = some '\n') ∧ ∀ c ∈ blanks, isBlank c

/-- Whether every block among some parts begins a line, blanks aside. -/
def BlocksBeginLines (parts : List (Segment Char)) : Prop :=
  ∀ before code after, parts = before ++ .code code :: after → AtLineStart (segmentsText before)

section
variable {front x : Text} {parts before : List (Segment Char)}

theorem atLineStart_append (hfront : front.getLast? = some '\n') : AtLineStart (front ++ x) ↔ AtLineStart x := by
  constructor
  · rintro ⟨above, blanks, heq, habove, hblanks⟩
    rcases List.append_eq_append_iff.1 heq with ⟨z, rfl, rfl⟩ | ⟨z, rfl, rfl⟩
    · refine ⟨z, blanks, rfl, ?_, hblanks⟩
      cases hz : z.getLast? with
      | none => exact Or.inl (List.getLast?_eq_none_iff.1 hz)
      | some d =>
          rcases habove with habove | habove
          · rw [(List.append_eq_nil_iff.1 habove).2] at hz
            cases hz
          · rw [List.getLast?_append, hz, Option.some_or] at habove
            exact Or.inr habove
    · exact ⟨[], x, rfl, Or.inl rfl, fun c hc => hblanks c (List.mem_append_right _ hc)⟩
  · rintro ⟨above, blanks, rfl, habove, hblanks⟩
    refine ⟨front ++ above, blanks, (List.append_assoc _ _ _).symm, Or.inr ?_, hblanks⟩
    rcases habove with rfl | habove
    · rwa [List.append_nil]
    · rw [List.getLast?_append, habove, Option.some_or]

/-- Behind a character that is not blank, no line begins before the next line feed. -/
theorem not_atLineStart {c : Char} (hc : ¬isBlank c) (hx : '\n' ∉ x) : ¬AtLineStart (front ++ c :: x) := by
  rintro ⟨above, blanks, heq, habove, hblanks⟩
  rcases List.append_eq_append_iff.1 heq with ⟨z, rfl, hz⟩ | ⟨z, rfl, rfl⟩
  · cases z with
    | nil =>
        obtain rfl : c :: x = blanks := hz
        exact hc (hblanks c List.mem_cons_self)
    | cons d z =>
        obtain ⟨rfl, rfl⟩ := List.cons.inj hz
        have hlast := habove.resolve_left (by simp)
        rw [List.getLast?_append, List.getLast?_cons, Option.some_or, ← List.getLast?_cons] at hlast
        rcases List.mem_cons.1 (List.mem_of_getLast? hlast) with h | h
        · exact hc (h ▸ (by decide))
        · exact hx (List.mem_append_left _ h)
  · exact hc (hblanks c (List.mem_append_right _ List.mem_cons_self))

/-- Behind the end of a line, blocks begin lines as if the text began there. -/
theorem blocksBeginLines_append (hbefore : (segmentsText before).getLast? = some '\n' ∨ parts = []) :
    BlocksBeginLines (before ++ parts) ↔ BlocksBeginLines before ∧ BlocksBeginLines parts := by
  constructor
  · refine fun h => ⟨fun front code after heq => ?_, fun front code after heq => ?_⟩
    · refine h front code (after ++ parts) ?_
      rw [heq, List.append_assoc, List.cons_append]
    · rcases hbefore with hbefore | rfl
      · have hstart := h (before ++ front) code after (by rw [heq, List.append_assoc])
        rwa [segmentsText_append, atLineStart_append hbefore] at hstart
      · simp at heq
  · rintro ⟨hfirst, hrest⟩ front code after heq
    rcases List.append_eq_append_iff.1 heq with ⟨z, rfl, hz⟩ | ⟨z, rfl, hz⟩
    · rcases hbefore with hbefore | rfl
      · rw [segmentsText_append, atLineStart_append hbefore]
        exact hrest z code after hz
      · simp at hz
    · cases z with
      | nil =>
          rw [List.append_nil] at hbefore
          rcases hbefore with hbefore | rfl
          · exact ⟨segmentsText front, [], (List.append_nil _).symm, Or.inr hbefore, fun _ h => nomatch h⟩
          · simp at hz
      | cons d z =>
          obtain ⟨rfl, rfl⟩ := List.cons.inj hz
          exact hfirst front code z rfl

end

section
variable {s : Text} {opening closing : FenceLine} {between : List Text} {rest : Text}

theorem getLast?_firstLine (s : Text) : (firstLine s).getLast? = some '\n' ∨ otherLines s = [] := by
  rcases firstLine_cases s with ⟨a, -, hs⟩ | ⟨-, -, hs⟩
  · rw [hs]
    exact Or.inl List.getLast?_concat
  · exact Or.inr hs

theorem blocksBeginLines_map_plain (line : Text) : BlocksBeginLines (line.map .plain) := by
  intro before code after heq
  have hmem : Segment.code code ∈ line.map .plain := heq ▸ List.mem_append_right _ List.mem_cons_self
  exact absurd hmem code_not_mem_map_plain

namespace Opens

/-- A block and the rest of its last line: the block begins its line, and no other begins behind it. -/
theorem blocksBeginLines (h : Opens s opening between closing rest) :
    BlocksBeginLines (LinePart.block opening between closing (fullLines rest)).segments := by
  intro before code after heq
  obtain ⟨-, hindent, -⟩ := FenceLine.ofLine?_eq_some_iff.1 h.opening_eq
  rcases List.append_eq_append_iff.1 heq with ⟨z, rfl, hz⟩ | ⟨z, hz, hd⟩
  · cases z with
    | nil =>
        refine ⟨[], opening.indent, ?_, Or.inl rfl, hindent⟩
        rw [List.append_nil, segmentsText_map_plain, List.nil_append]
    | cons d z =>
        obtain ⟨-, hz⟩ := List.cons.inj hz
        have hmem : Segment.code code ∈ closing.rest.map .plain := hz ▸ List.mem_append_right _ List.mem_cons_self
        exact absurd hmem code_not_mem_map_plain
  · cases z with
    | nil =>
        rw [List.append_nil] at hz
        refine ⟨[], opening.indent, ?_, Or.inl rfl, hindent⟩
        rw [← hz, segmentsText_map_plain, List.nil_append]
    | cons d z =>
        obtain ⟨rfl, -⟩ := List.cons.inj hd
        have hmem : Segment.code code ∈ opening.indent.map .plain := hz ▸ List.mem_append_right _ List.mem_cons_self
        exact absurd hmem code_not_mem_map_plain

theorem getLast?_segmentsText (h : Opens s opening between closing rest) :
    (segmentsText (LinePart.block opening between closing (fullLines rest)).segments).getLast? = some '\n' ∨
      rest = [] := by
  have hend := getLast?_firstLine (closing.rest ++ rest)
  rw [h.firstLine_eq, h.otherLines_eq] at hend
  refine hend.imp_left fun hend => ?_
  rw [LinePart.segments, segmentsText_append, segmentsText_code, segmentsText_map_plain, segmentsText_map_plain,
    List.getLast?_append, List.getLast?_append, hend, Option.some_or, Option.some_or]

/-- The rest of the last line is read as text exactly if it does not open another block. -/
theorem endsLine_iff (h : Opens s opening between closing rest) :
    (LinePart.block opening between closing (fullLines rest)).EndsLine ↔ Unopened (closing.rest ++ rest) := by
  rw [LinePart.EndsLine, Unopened, h.firstLine_eq, h.otherLines_eq]

theorem fencedParts_eq_segments (h : Opens s opening between closing rest)
    (hends : (LinePart.block opening between closing (fullLines rest)).EndsLine) :
    fencedParts s =
      (LinePart.block opening between closing (fullLines rest)).segments ++ fencedParts rest := by
  rw [h.fencedParts_eq, fencedParts_of_unopened (h.endsLine_iff.1 hends), h.firstLine_eq, h.otherLines_eq,
    LinePart.segments, List.append_assoc (opening.indent.map _), List.cons_append]

/-- A block that the rest of a line opens has the closing run of the one before it on its line. -/
theorem not_blocksBeginLines (h : Opens s opening between closing rest) {opening' closing' : FenceLine}
    {between' : List Text} {rest' : Text} (h' : Opens (closing.rest ++ rest) opening' between' closing' rest') :
    ¬BlocksBeginLines (fencedParts s) := by
  intro hbegin
  obtain ⟨line, hline⟩ := h.closing_eq
  obtain ⟨front, hfront⟩ := List.getLast?_eq_some_iff.1 (FenceLine.getLast?_run hline)
  have hmark := FenceLine.not_isBlank_mark hline
  have hindent : '\n' ∉ opening'.indent := fun hmem =>
    FenceLine.newline_not_mem h'.opening_eq (List.mem_append_left _ hmem)
  have hparts := h.fencedParts_eq
  rw [h'.fencedParts_eq, ← List.cons_append, ← List.append_assoc, hfront] at hparts
  have hstart := hbegin _ _ _ hparts
  simp only [segmentsText_append, segmentsText_code, segmentsText_map_plain, ← List.append_assoc] at hstart
  rw [List.append_assoc _ [_], List.singleton_append] at hstart
  exact not_atLineStart hmark hindent hstart

end Opens

/-- The blocks of the reading line by line all begin lines. -/
theorem blocksBeginLines_partsByLine (s : Text) : BlocksBeginLines (partsByLine s) := by
  induction s using byLine_induction with
  | nil => exact partsByLine_nil ▸ blocksBeginLines_map_plain []
  | line s hs h ih =>
      rw [partsByLine, readByLine_of_unopened hs h, List.flatMap_cons, blocksBeginLines_append]
      · exact ⟨blocksBeginLines_map_plain _, ih⟩
      · refine (getLast?_firstLine s).imp (fun hend => ?_) fun hnil => ?_
        · rwa [LinePart.segments, segmentsText_map_plain]
        · rw [hnil, ← partsByLine, partsByLine_nil]
  | block s opening between closing rest h ih =>
      rw [partsByLine, h.readByLine_eq, List.flatMap_cons, blocksBeginLines_append]
      · exact ⟨h.blocksBeginLines, ih⟩
      · refine h.getLast?_segmentsText.imp_right fun hnil => ?_
        rw [hnil, ← partsByLine, partsByLine_nil]

/-- The parts joined give the text back. -/
theorem segmentsText_partsByLine (s : Text) : segmentsText (partsByLine s) = s := by
  induction s using byLine_induction with
  | nil => rw [partsByLine_nil, segmentsText_nil]
  | line s hs hline ih =>
      rw [partsByLine, readByLine_of_unopened hs hline, List.flatMap_cons, ← partsByLine, segmentsText_append, ih,
        LinePart.segments, segmentsText_map_plain, firstLine_append_otherLines]
  | block s opening between closing rest hblock ih =>
      have hs := segmentsText_fencedParts s
      rw [hblock.fencedParts_eq, segmentsText_append, segmentsText_code, segmentsText_fencedParts] at hs
      rw [partsByLine, hblock.readByLine_eq, List.flatMap_cons, ← partsByLine, segmentsText_append, ih,
        LinePart.segments, segmentsText_append, segmentsText_code, segmentsText_map_plain closing.rest,
        List.append_assoc, List.append_assoc _ closing.rest]
      exact hs

/-- If no closing run has a fence behind it that a later line closes, the two readings agree. -/
theorem fencedParts_eq_partsByLine (h : ∀ p ∈ readByLine (fullLines s), p.EndsLine) :
    fencedParts s = partsByLine s := by
  induction s using byLine_induction with
  | nil => rw [fencedParts_nil, partsByLine_nil]
  | line s hs hline ih =>
      rw [readByLine_of_unopened hs hline, List.forall_mem_cons] at h
      rw [fencedParts_of_unopened hline, ih h.2, partsByLine, partsByLine, readByLine_of_unopened hs hline,
        List.flatMap_cons, LinePart.segments]
  | block s opening between closing rest hblock ih =>
      rw [hblock.readByLine_eq, List.forall_mem_cons] at h
      rw [hblock.fencedParts_eq_segments h.1, ih h.2, partsByLine, partsByLine, hblock.readByLine_eq,
        List.flatMap_cons]

/-- If all blocks begin lines, no closing run has a fence behind it that a later line closes. -/
theorem endsLine_of_blocksBeginLines (h : BlocksBeginLines (fencedParts s)) :
    ∀ p ∈ readByLine (fullLines s), p.EndsLine := by
  induction s using byLine_induction with
  | nil =>
      rw [readByLine_nil]
      exact fun _ hp => nomatch hp
  | line s hs hline ih =>
      rw [fencedParts_of_unopened hline, blocksBeginLines_append] at h
      · rw [readByLine_of_unopened hs hline, List.forall_mem_cons]
        exact ⟨trivial, ih h.2⟩
      · refine (getLast?_firstLine s).imp (fun hend => ?_) fun hnil => ?_
        · rwa [segmentsText_map_plain]
        · rw [hnil, fencedParts_nil]
  | block s opening between closing rest hblock ih =>
      have hends : (LinePart.block opening between closing (fullLines rest)).EndsLine := by
        rw [hblock.endsLine_iff]
        refine (unopened_or_opens _).resolve_right ?_
        rintro ⟨opening', between', closing', rest', h'⟩
        exact hblock.not_blocksBeginLines h' h
      rw [hblock.fencedParts_eq_segments hends, blocksBeginLines_append] at h
      · rw [hblock.readByLine_eq, List.forall_mem_cons]
        exact ⟨hends, ih h.2⟩
      · refine hblock.getLast?_segmentsText.imp_right fun hnil => ?_
        rw [hnil, fencedParts_nil]

end

/-- The blocks that are hidden are those of the text taken apart. The reading line by line takes the same text apart,
and it finds the blocks in the same places exactly if no closing run has behind it, on its line, a fence that a later
line closes; which is to say that every block begins a line, blanks aside. -/
theorem hide_fenced_by_line (s : Text) :
    (hide s).2.fenced = codes (fencedParts s) ∧ segmentsText (fencedParts s) = s ∧ segmentsText (partsByLine s) = s ∧
      (fencedParts s = partsByLine s ↔ ∀ p ∈ readByLine (fullLines s), p.EndsLine) ∧
      (fencedParts s = partsByLine s ↔ BlocksBeginLines (fencedParts s)) :=
  have hbegin (h : fencedParts s = partsByLine s) : BlocksBeginLines (fencedParts s) :=
    h ▸ blocksBeginLines_partsByLine s
  ⟨rfl, segmentsText_fencedParts s, segmentsText_partsByLine s,
    ⟨fun h => endsLine_of_blocksBeginLines (hbegin h), fencedParts_eq_partsByLine⟩,
    ⟨hbegin, fun h => fencedParts_eq_partsByLine (endsLine_of_blocksBeginLines h)⟩⟩

/-- A closing run with a fence behind it on its line. -/
def closedAndReopened : Text := "```\n```~~~\n~~~\n".toList

theorem hide_fenced_not_by_line :
    (hide closedAndReopened).2.fenced = ["```\n```".toList, "~~~\n~~~".toList] ∧
      codes (partsByLine closedAndReopened) = ["```\n```".toList] ∧
        fencedParts closedAndReopened ≠ partsByLine closedAndReopened := by
  decide +kernel

end MarkdownLinks.Code
