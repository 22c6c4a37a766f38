import MarkdownLinks.Code.Hidden
import MarkdownLinks.Proofs.Code.SettledEdit
import MarkdownLinks.Proofs.Prose.Traversal
import MarkdownLinks.Proofs.Text.Blank
import MarkdownLinks.Proofs.Text.EndedLine
import MarkdownLinks.Proofs.Text.Occurrence

/-! Documents that are put together from prose lines and fenced blocks. A prose line begins, behind its
blanks, with neither three backticks nor three tildes. A block has an opening line of three or more
backticks, a closing line of just as many, and between them lines that begin with no run of that length.
The reader of prose, who goes line by line, and the cut that takes blocks out of a text, which looks
ahead for the closing line, find the same blocks in such a document. -/

namespace MarkdownLinks

open Region

/-- The blanks in front of a line that is not all blank. -/
def EndedLine.indent (l : EndedLine) : Text := l.full.takeWhile isBlank

/-- What follows the backticks that a line begins with, to its end. -/
def EndedLine.behindRun (l : EndedLine) : Text := (trimStart l.full).dropWhile (· == '\x60')

/-- A line that begins with no fence. -/
structure ProseLine extends EndedLine where
  no_backticks : ¬marker 3 <+: trimStart text
  no_tildes : ¬List.replicate 3 '~' <+: trimStart text

/-- A fenced block, by its lines. -/
structure FencedBlock where
  length : Nat
  opening : EndedLine
  interior : List EndedLine
  closing : EndedLine
  three_le : 3 ≤ length
  opens : ∃ info, trimStart opening.text = marker length ++ info ∧ '\x60' ∉ info.head?
  stays_open : ∀ l ∈ interior, ¬marker length <+: trimStart l.text
  ends : trim closing.text = marker length

/-- The block from its opening run to the end of its closing run. -/
def FencedBlock.code (b : FencedBlock) : Text :=
  marker b.length ++ b.opening.behindRun ++
    (b.interior.flatMap EndedLine.full ++ (b.closing.indent ++ marker b.length))

/-- A part of a document. -/
inductive Part where
  | prose (l : ProseLine)
  | block (b : FencedBlock)

namespace Part

def lines : Part → List EndedLine
  | prose l => [l.toEndedLine]
  | block b => b.opening :: (b.interior ++ [b.closing])

/-- The text outside blocks and the block of a part. -/
def segments : Part → List (Code.Segment Char)
  | prose l => l.full.map .plain
  | block b => b.opening.indent.map .plain ++ .code b.code :: b.closing.behindRun.map .plain

def block? : Part → Option FencedBlock
  | prose _ => none
  | block b => some b

/-- The text of some parts. -/
def textOf (ps : List Part) : Text := (ps.flatMap lines).flatMap EndedLine.full

/-- The prose lines among some parts, the first line of which has the number `n`. -/
def proseFrom (n : Nat) : List Part → List Line
  | [] => []
  | prose l :: ps => ⟨n, l.text⟩ :: proseFrom (n + 1) ps
  | block b :: ps => proseFrom (n + b.interior.length + 2) ps

end Part

theorem Ending.isBlank_of_mem {e : Ending} {c : Char} (h : c ∈ e.text) : isBlank c := by
  cases e with
  | lineFeed =>
      rw [List.mem_singleton.1 h]
      rfl
  | returnLineFeed =>
      simp only [Ending.text, List.mem_cons, List.not_mem_nil, or_false] at h
      rcases h with rfl | rfl <;> rfl

theorem Ending.exists_eq_cons (e : Ending) : ∃ c s, e.text = c :: s ∧ c ≠ '\x60' ∧ c ≠ '~' := by
  cases e <;> exact ⟨_, _, rfl, by decide⟩

/-- A line begins, behind its blanks, as its text does, unless it is all blank. -/
theorem EndedLine.trimStart_full (l : EndedLine) :
    trimStart l.full = if trimStart l.text = [] then [] else trimStart l.text ++ l.ending.text := by
  have hending : trimStart l.ending.text = [] := trimStart_of_isBlank fun c hc => Ending.isBlank_of_mem hc
  rw [full, trimStart, List.dropWhile_append, ← trimStart, ← trimStart, hending]
  simp only [List.isEmpty_iff]

namespace Code.FenceLine

variable {l : EndedLine} {f : FenceLine} {k : Nat}

/-- The ending of a line is no part of the run that it begins with. -/
theorem replicate_prefix_of_full (h : ofLine? l.full = some f) (hk : k ≤ f.run.length) :
    List.replicate k f.mark <+: trimStart l.text :=
  replicate_prefix_of_append (fun _ => Ending.isBlank_of_mem) h hk

theorem ofLine?_prose (l : ProseLine) : ofLine? l.full = none :=
  ofLine?_append_eq_none (fun _ => Ending.isBlank_of_mem) l.no_backticks l.no_tildes

theorem ofLine?_of_isBlank {line : Text} (h : ∀ c ∈ line, isBlank c) : ofLine? line = none := by
  rw [ofLine?, trimStart_of_isBlank h]

section
variable {info : Text} (hk : 3 ≤ k) (hline : trimStart l.text = marker k ++ info) (hinfo : '\x60' ∉ info.head?)
include hk hline hinfo

theorem trimStart_full_of_run :
    trimStart l.full = marker k ++ (info ++ l.ending.text) ∧ '\x60' ∉ (info ++ l.ending.text).head? := by
  have hne : trimStart l.text ≠ [] := by
    intro hnil
    have hlength := congrArg List.length (hline.symm.trans hnil)
    rw [List.length_append, length_marker, List.length_nil] at hlength
    omega
  refine ⟨by rw [l.trimStart_full, if_neg hne, hline, List.append_assoc], ?_⟩
  obtain ⟨c, s, hending, htick, -⟩ := l.ending.exists_eq_cons
  cases info with
  | nil =>
      rw [hending]
      exact fun h => htick (Option.some.inj h)
  | cons d info => exact hinfo

theorem behindRun_of_run : l.behindRun = info ++ l.ending.text := by
  obtain ⟨hfull, hrest⟩ := trimStart_full_of_run hk hline hinfo
  rw [EndedLine.behindRun, hfull, dropWhile_run_append tick_of_mem_marker (unticked_of_not_mem_head? hrest)]

/-- A line that begins with a longest run of three or more backticks is a fence line. -/
theorem ofLine?_of_run : ofLine? l.full = some ⟨l.indent, '\x60', marker k, l.behindRun⟩ := by
  obtain ⟨hfull, hrest⟩ := trimStart_full_of_run hk hline hinfo
  rw [behindRun_of_run hk hline hinfo]
  refine ofLine?_eq_some_iff.2 ⟨?_, fun c hc => List.all_eq_true.1 List.all_takeWhile c hc, ?_, ?_,
    fun c hc => List.eq_of_mem_replicate hc, hrest⟩
  · rw [List.append_assoc, ← hfull, EndedLine.indent, trimStart, List.takeWhile_append_dropWhile]
  · rfl
  · rwa [length_marker]

end

end Code.FenceLine

namespace FencedBlock

open Code

variable (b : FencedBlock)

/-- The opening line as a fence line. -/
def openingFence : FenceLine := ⟨b.opening.indent, '\x60', marker b.length, b.opening.behindRun⟩

/-- The closing line as a fence line. -/
def closingFence : FenceLine := ⟨b.closing.indent, '\x60', marker b.length, b.closing.behindRun⟩

theorem exists_closing_eq :
    ∃ blanks, trimStart b.closing.text = marker b.length ++ blanks ∧ (∀ c ∈ blanks, isBlank c) ∧
      '\x60' ∉ blanks.head? := by
  obtain ⟨blanks, heq, hblanks⟩ := exists_trimEnd (trimStart b.closing.text)
  refine ⟨blanks, by rw [← b.ends, trim, ← heq], hblanks, fun hhead => ?_⟩
  exact absurd (hblanks _ (List.mem_of_mem_head? hhead)) (by decide)

theorem ofLine?_opening : FenceLine.ofLine? b.opening.full = some b.openingFence := by
  obtain ⟨info, hline, hinfo⟩ := b.opens
  exact FenceLine.ofLine?_of_run b.three_le hline hinfo

theorem ofLine?_closing : FenceLine.ofLine? b.closing.full = some b.closingFence := by
  obtain ⟨blanks, hline, hblanks, hhead⟩ := b.exists_closing_eq
  exact FenceLine.ofLine?_of_run b.three_le hline hhead

theorem isBlank_of_mem_behindRun {c : Char} (hc : c ∈ b.closing.behindRun) : isBlank c := by
  obtain ⟨blanks, hline, hblanks, hhead⟩ := b.exists_closing_eq
  rw [FenceLine.behindRun_of_run b.three_le hline hhead] at hc
  exact (List.mem_append.1 hc).elim (hblanks c) Ending.isBlank_of_mem

theorem closingFence_closes : b.closingFence.closes b.openingFence := by
  simp [FenceLine.closes, closingFence, openingFence]

theorem not_closes_of_mem_interior {l : EndedLine} (hl : l ∈ b.interior) {f : FenceLine}
    (hf : FenceLine.ofLine? l.full = some f) : ¬f.closes b.openingFence := by
  intro hcloses
  have hmark : f.mark = '\x60' ∧ b.length ≤ f.run.length := by
    simpa [FenceLine.closes, openingFence, length_marker] using hcloses
  have hprefix := FenceLine.replicate_prefix_of_full hf hmark.2
  rw [hmark.1] at hprefix
  exact b.stays_open l hl hprefix

/-- Looking ahead from the opening line finds the closing line. -/
theorem throughClosing?_block (s : Text) :
    throughClosing? b.openingFence (b.interior.flatMap EndedLine.full ++ (b.closing.full ++ s)) =
      some (b.interior.flatMap EndedLine.full ++ (b.closing.indent ++ marker b.length), b.closing.behindRun ++ s) := by
  have hinterior : ∀ l ∈ b.interior, ∀ f, FenceLine.ofLine? l.full = some f → ¬f.closes b.openingFence :=
    fun l hl f hf => b.not_closes_of_mem_interior hl hf
  generalize b.interior = interior at hinterior ⊢
  induction interior with
  | nil =>
      have hfirst : FenceLine.ofLine? (firstLine (b.closing.full ++ s)) = some b.closingFence := by
        rw [b.closing.firstLine_full_append, b.ofLine?_closing]
      rw [List.flatMap_nil, List.nil_append, throughClosing?_of_closes hfirst b.closingFence_closes,
        b.closing.otherLines_full_append]
      rfl
  | cons l ls ih =>
      rw [List.flatMap_cons, List.append_assoc, throughClosing?_of_not_closes, l.firstLine_full_append,
        l.otherLines_full_append, ih fun m hm => hinterior m (List.mem_cons_of_mem l hm), Option.map_some]
      · simp
      · rw [l.firstLine_full_append]
        exact hinterior l List.mem_cons_self

end FencedBlock

/-- A line that closes a block begins with its marker. -/
theorem marker_prefix_of_closes {l : Text} {k : Nat} (h : closes k l) : marker k <+: trimStart l := by
  obtain ⟨blanks, heq, -⟩ := exists_trimEnd (trimStart l)
  rw [closes, beq_iff_eq, trim] at h
  exact ⟨blanks, by rw [← h, ← heq]⟩

theorem ProseLine.opening?_eq_none (l : ProseLine) : opening? l.text = none := by
  refine Option.eq_none_iff_forall_ne_some.2 fun k hk => l.no_backticks ?_
  obtain ⟨hlength, info, hline, -⟩ := opening?_eq_some_iff.1 hk
  have hmarker : marker k = marker 3 ++ marker (k - 3) := by
    rw [marker, marker, marker, List.replicate_append_replicate, Nat.add_sub_cancel' hlength]
  exact ⟨marker (k - 3) ++ info, by rw [hline, hmarker, List.append_assoc]⟩

namespace FencedBlock

variable (b : FencedBlock)

theorem opening?_opening : opening? b.opening.text = some b.length :=
  opening?_eq_some_iff.2 ⟨b.three_le, b.opens⟩

theorem closes_interior : ∀ d ∈ b.interior.map EndedLine.text, closes b.length d = false := by
  intro d hd
  obtain ⟨l, hl, rfl⟩ := List.mem_map.1 hd
  exact Bool.eq_false_iff.2 fun h => b.stays_open l hl (marker_prefix_of_closes h)

end FencedBlock

namespace Part

open Code

theorem textOf_cons (p : Part) (ps : List Part) :
    textOf (p :: ps) = p.lines.flatMap EndedLine.full ++ textOf ps := by
  rw [textOf, List.flatMap_cons, List.flatMap_append, ← textOf]

theorem fencedParts_of_not_fence {s : Text} (h : FenceLine.ofLine? (firstLine s) = none) :
    fencedParts s = (firstLine s).map .plain ++ fencedParts (otherLines s) := by
  refine fencedParts_of_loose fun k hk => ?_
  rw [fence?, h] at hk
  cases hk

/-- What follows a block on its last line is not code. -/
theorem fencedParts_behindRun (b : FencedBlock) (s : Text) :
    fencedParts (b.closing.behindRun ++ s) = b.closing.behindRun.map .plain ++ fencedParts s := by
  have hclosing : FenceLine.ofLine? (firstLine (b.closing.full ++ s)) = some b.closingFence := by
    rw [b.closing.firstLine_full_append, b.ofLine?_closing]
  have hother : otherLines (b.closing.behindRun ++ s) = s := by
    have hrest := FenceLine.otherLines_rest hclosing
    rwa [b.closing.otherLines_full_append] at hrest
  have hfirst : firstLine (b.closing.behindRun ++ s) = b.closing.behindRun := by
    have hsplit := firstLine_append_otherLines (b.closing.behindRun ++ s)
    rw [hother] at hsplit
    exact List.append_cancel_right hsplit
  have hline : FenceLine.ofLine? (firstLine (b.closing.behindRun ++ s)) = none := by
    rw [hfirst]
    exact FenceLine.ofLine?_of_isBlank fun c hc => b.isBlank_of_mem_behindRun hc
  rw [fencedParts_of_not_fence hline, hfirst, hother]

/-- Taking the blocks out of the text of some parts finds the blocks among them. -/
theorem fencedParts_textOf (ps : List Part) : fencedParts (textOf ps) = ps.flatMap segments := by
  induction ps with
  | nil => rw [textOf, List.flatMap_nil, List.flatMap_nil, fencedParts]; rfl
  | cons p ps ih =>
      rw [textOf_cons, List.flatMap_cons, ← ih]
      generalize textOf ps = rest
      cases p with
      | prose l =>
          have hfirst := l.firstLine_full_append rest
          have hother := l.otherLines_full_append rest
          have hline : FenceLine.ofLine? (firstLine (l.full ++ rest)) = none := by
            rw [hfirst, FenceLine.ofLine?_prose]
          have htext : (prose l).lines.flatMap EndedLine.full ++ rest = l.full ++ rest := by simp [lines]
          rw [htext, fencedParts_of_not_fence hline, hfirst, hother]
          rfl
      | block b =>
          have htext : (block b).lines.flatMap EndedLine.full ++ rest =
              b.opening.full ++ (b.interior.flatMap EndedLine.full ++ (b.closing.full ++ rest)) := by
            simp [lines]
          have hfirst := b.opening.firstLine_full_append
            (b.interior.flatMap EndedLine.full ++ (b.closing.full ++ rest))
          have hother := b.opening.otherLines_full_append
            (b.interior.flatMap EndedLine.full ++ (b.closing.full ++ rest))
          rw [htext, fencedParts_of_opens (by rw [hfirst, b.ofLine?_opening]) (by rw [hother, b.throughClosing?_block]),
            fencedParts_behindRun]
          simp [segments, FencedBlock.code, FencedBlock.openingFence]

/-- Reading the text of some parts line by line finds the prose lines among them. -/
theorem proseFrom_textOf (n : Nat) (ps : List Part) :
    MarkdownLinks.proseFrom .outside (numberFrom n ((ps.flatMap lines).map EndedLine.text)) = proseFrom n ps := by
  induction ps generalizing n with
  | nil => rfl
  | cons p ps ih =>
      rw [List.flatMap_cons, List.map_append]
      cases p with
      | prose l =>
          rw [proseFrom, ← ih]
          exact proseFrom_of_plain l.opening?_eq_none n _
      | block b =>
          have hlines : (block b).lines.map EndedLine.text ++ (ps.flatMap lines).map EndedLine.text =
              b.opening.text :: (b.interior.map EndedLine.text ++
                b.closing.text :: (ps.flatMap lines).map EndedLine.text) := by
            simp [lines]
          rw [hlines, proseFrom_of_closed b.opening?_opening b.closes_interior (beq_iff_eq.2 b.ends),
            List.length_map, proseFrom, ih]

theorem codes_segments (ps : List Part) :
    codes (ps.flatMap segments) = (ps.filterMap block?).map FencedBlock.code := by
  induction ps with
  | nil => rfl
  | cons p ps ih => cases p <;> simp [segments, block?, List.filterMap_cons, ih]

/-- Both readers agree on documents of prose lines and blocks. -/
theorem proseLines_textOf (ps : List Part) :
    proseLines .respect (textOf ps) = proseFrom 1 ps ∧
      (hide (textOf ps)).2.fenced = (ps.filterMap block?).map FencedBlock.code ∧
      fencedParts (textOf ps) = ps.flatMap segments := by
  refine ⟨?_, ?_, fencedParts_textOf ps⟩
  · rw [proseLines_respect_eq, textOf, EndedLine.lines_flatMap_full]
    exact proseFrom_textOf 1 ps
  · rw [← codes_segments, ← fencedParts_textOf]
    rfl

-- A block that shows a shorter fence and tildes, behind a prose line.
example :
    textOf
        [.prose ⟨⟨"a".toList, .returnLineFeed, by decide, by decide⟩, by decide, by decide⟩,
          .block ⟨4, ⟨"  \x60\x60\x60\x60x".toList, .lineFeed, by decide, by decide⟩,
            [⟨"\x60\x60\x60".toList, .lineFeed, by decide, by decide⟩, ⟨"~~~".toList, .lineFeed, by decide, by decide⟩],
            ⟨"\x60\x60\x60\x60 ".toList, .returnLineFeed, by decide, by decide⟩,
            by decide, ⟨['x'], by decide, by decide⟩, by decide, by decide⟩] =
      "a\r\n  \x60\x60\x60\x60x\n\x60\x60\x60\n~~~\n\x60\x60\x60\x60 \r\n".toList := by
  decide

end Part

end MarkdownLinks
