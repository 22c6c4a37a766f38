import MarkdownLinks.Proofs.Code.SettledEdit
import MarkdownLinks.Proofs.SourceHost.Revision

/-! Publishing keeps the blocks. The edits of a link are made one after the other, each behind a settled
place: that of the opening parenthesis behind the closing bracket, and those of the target behind the
opening parenthesis, or behind a span of the target that has a line feed in it. So the blocks stay what
they are, if none stands in a target outside a span: behind an escaped line feed it would no longer
begin on a line of its own. -/

namespace MarkdownLinks

open Code Code.Outline

/-- Whether an outline has slots where the blocks of what it is written as are. -/
def KeepsBlocks (text : Text) (o : Outline) : Prop :=
  fencedParts (segmentsText (o.map (blockPart text))) = o.map (blockPart text)

theorem keepsBlocks_blockOutline (text : Text) : KeepsBlocks text (blockOutline text) := by
  rw [KeepsBlocks, map_blockPart_blockOutline, segmentsText_fencedParts]

theorem inert_encodeChar {c : Char} (hc : ¬Percent.isPlain c) : Inert (Percent.encodeChar c) := by
  obtain ⟨s, hs⟩ := Percent.exists_encodeChar_eq_cons hc
  refine ⟨⟨'%', s, hs, by decide⟩, fun h => ?_⟩
  rcases Percent.mem_encodeChar hc h with h | h <;> exact absurd h (by decide)

section
variable {text : Text}

theorem map_blockPart_ofText (s : Text) : (ofText s).map (blockPart text) = s.map .plain := List.map_map

/-- An edit behind a settled place keeps the blocks. -/
theorem KeepsBlocks.edit {front behind : Outline} {c : Char} {into : Text}
    (h : KeepsBlocks text (front ++ .char c :: behind)) (hinto : Inert into)
    (hfront : SettledBehind (front.map (blockPart text)) (some c))
    (hshield : c = '\n' → Shielded (behind.map (blockPart text))) :
    KeepsBlocks text (front ++ (ofText into ++ behind)) := by
  have hedit := fencedParts_edit hinto (h.trans List.map_append) hfront hshield
  rw [KeepsBlocks, List.map_append, List.map_append, map_blockPart_ofText, segmentsText_append, segmentsText_append,
    segmentsText_map_plain]
  exact hedit

section
variable {target behind : Outline} (hpart : target ++ .char ')' :: behind <:+ outline text)
  (htarget : ∀ n, .fenced n ∉ slots target)
include hpart htarget

/-- No block begins in what is left of a target: its closing parenthesis stands before the next one, if
not a span does. -/
theorem shielded_target : Shielded ((opened text (target ++ .char ')' :: behind)).map (blockPart text)) := by
  induction target with
  | nil => exact Shielded.cons (Or.inl (by decide))
  | cons p target ih =>
      cases p with
      | char c => exact Shielded.cons (Or.inr (ih ((List.suffix_cons _ _).trans hpart) htarget))
      | item slot =>
          cases slot with
          | fenced n => exact absurd List.mem_cons_self (htarget n)
          | inline n =>
              obtain ⟨⟨p, hp, htick⟩, -⟩ := ticked_contents_of_mem_outline text (hpart.subset List.mem_cons_self)
              obtain rfl := eq_of_isTickPiece htick
              obtain ⟨code, hcode⟩ := List.head?_eq_some_iff.1 hp
              rw [List.cons_append, opened_inline, hcode]
              exact Shielded.cons (Or.inl (by decide))

omit hpart htarget in
/-- Behind a span the place is settled: no tick follows on its last one. -/
theorem settledBehind_span {n : Nat} {rest : Outline} (hspan : .item (.inline n) :: rest <:+ outline text)
    (front : Outline) {d : Char} (hd : .char d ∈ (opened text rest).head?) :
    SettledBehind ((front ++ contents text (.inline n)).map (blockPart text)) (some d) := by
  obtain ⟨-, p, hp, htick⟩ := ticked_contents_of_mem_outline text (hspan.subset List.mem_cons_self)
  obtain rfl := eq_of_isTickPiece htick
  obtain ⟨code, hcode⟩ := List.getLast?_eq_some_iff.1 hp
  have hbehind : isTickPiece (.char d) = false := unticked_behind_span text hspan _ hd
  rw [hcode, ← List.append_assoc, List.map_append]
  apply settledBehind_concat _ (by decide)
  intro _ htick
  cases htick
  cases hbehind

/-- Encoding a target keeps the blocks. -/
theorem KeepsBlocks.encode {front : Outline}
    (hfront : ∀ c, Piece.char c ∈ (target ++ [Piece.char ')']).head? →
      SettledBehind (front.map (blockPart text)) (some c))
    (h : KeepsBlocks text (front ++ opened text (target ++ .char ')' :: behind))) :
    KeepsBlocks text (front ++ (opened text (afterAll (target.map Edit.encode)) ++
      opened text (.char ')' :: behind))) := by
  -- By induction on the target; what is in front is encoded already, and settled up to the next character.
  induction target generalizing front with
  | nil => exact h
  | cons p target ih =>
      have hpart' := (List.suffix_cons p _).trans hpart
      cases p with
      | char c =>
          have hc := hfront c rfl
          have hchar : KeepsBlocks text (front ++ .char c :: opened text (target ++ .char ')' :: behind)) := h
          by_cases hplain : Percent.isPlain c
          · have hnl : '\n' ∉ [c] := by
              rintro hmem
              rw [← List.mem_singleton.1 hmem] at hplain
              exact absurd hplain (by decide)
            have hnext : ∀ next, SettledBehind ((front ++ [Piece.char c]).map (blockPart text)) next := fun next => by
              rw [List.map_append]
              exact hc.extend (List.cons_ne_nil c []) hnl next
            have hkept : KeepsBlocks text (front ++ [.char c] ++ opened text (target ++ .char ')' :: behind)) := by
              simpa using hchar
            have hrest := ih hpart' htarget (fun d _ => hnext (some d)) hkept
            simpa [Edit.encode, hplain] using hrest
          · have hinto := inert_encodeChar hplain
            have hnext : ∀ next, SettledBehind ((front ++ ofText (Percent.encodeChar c)).map (blockPart text)) next :=
              fun next => by
                rw [List.map_append, map_blockPart_ofText]
                exact (hc.inert hinto).extend hinto.ne_nil hinto.2 next
            have hedit := hchar.edit hinto hc fun _ => shielded_target hpart' htarget
            rw [← List.append_assoc] at hedit
            have hrest := ih hpart' htarget (fun d _ => hnext (some d)) hedit
            simpa [Edit.encode, hplain] using hrest
      | item slot =>
          cases slot with
          | fenced n => exact absurd List.mem_cons_self (htarget n)
          | inline n =>
              have hnext : ∀ d, Piece.char d ∈ (target ++ [Piece.char ')']).head? →
                  SettledBehind ((front ++ contents text (.inline n)).map (blockPart text)) (some d) := by
                intro d hd
                apply settledBehind_span hpart front
                cases target with
                | nil => exact hd
                | cons q target =>
                    cases hd
                    rfl
              have htarget' : ∀ m, .fenced m ∉ slots target := fun m hm => htarget m (List.mem_cons_of_mem _ hm)
              have hrest := ih hpart' htarget' hnext (by simpa using h)
              simpa [Edit.encode] using hrest

end

end

namespace SourceHost

variable {host : SourceHost} (hrepository : '\n' ∉ host.repository) (hbranch : '\n' ∉ host.branch)
include hrepository hbranch

theorem inert_urlFront (path : Text) : Inert ('(' :: host.urlFront path) := by
  refine ⟨⟨'(', _, rfl, by decide⟩, fun h => ?_⟩
  rcases List.mem_cons.1 h with h | h
  · cases h
  · exact not_mem_urlFront (by decide) hrepository hbranch path h

/-- Replacing a link keeps the blocks. -/
theorem keepsBlocks_link {text : Text} {label target behind front : Outline}
    (hpart : linkOutline label target ++ behind <:+ outline text) (htarget : ∀ n, .fenced n ∉ slots target)
    (h : KeepsBlocks text (front ++ opened text (linkOutline label target ++ behind))) :
    KeepsBlocks text (front ++ (opened text (afterAll (host.linkEdits label target)) ++ opened text behind)) := by
  have hinto := inert_urlFront hrepository hbranch target.written
  have hsettled : SettledBehind ((front ++ opened text (.char '[' :: (label ++ [.char ']']))).map (blockPart text))
      (some '(') := by
    have hlabel : opened text (.char '[' :: (label ++ [.char ']'])) =
        .char '[' :: opened text label ++ [.char ']'] := by
      simp
    rw [hlabel, ← List.append_assoc, List.map_append]
    exact settledBehind_concat _ (by decide) fun hmark => absurd hmark (by decide)
  have hlink : linkOutline label target ++ behind =
      .char '[' :: (label ++ [.char ']']) ++ .char '(' :: (target ++ .char ')' :: behind) := by
    simp [linkOutline]
  rw [hlink, opened_append, opened_char, ← List.append_assoc] at h
  have hfront := h.edit hinto hsettled fun hc => absurd hc (by decide)
  rw [← List.append_assoc] at hfront
  have hencoded := KeepsBlocks.encode (List.IsSuffix.trans ?_ hpart) htarget (fun c _ => ?_) hfront
  · simpa [linkEdits] using hencoded
  · rw [hlink]
    exact (List.suffix_cons _ _).trans (List.suffix_append _ _)
  · rw [List.map_append, map_blockPart_ofText]
    exact (hsettled.inert hinto).extend hinto.ne_nil hinto.2 _

/-- Replacing links whose targets have no blocks outside spans keeps the blocks. -/
theorem keepsBlocks_relinking {text : Text} {edits : List Edit}
    (hedits : Relinking host (fun target => ∀ n, .fenced n ∉ slots target) edits) {front : Outline}
    (hpart : beforeAll edits <:+ outline text) (h : KeepsBlocks text (front ++ opened text (beforeAll edits))) :
    KeepsBlocks text (front ++ opened text (afterAll edits)) := by
  induction hedits generalizing front with
  | done => exact h
  | @keep p edits hedits ih =>
      have hcons : ∀ o, opened text (p :: o) = opened text [p] ++ opened text o := fun o => opened_append text [p] o
      rw [afterAll_keep, hcons, ← List.append_assoc]
      apply ih ((List.suffix_cons _ _).trans hpart)
      rw [List.append_assoc, ← hcons]
      exact h
  | @link label target edits htarget hedits ih =>
      rw [beforeAll_append, beforeAll_linkEdits] at hpart h
      have hlink := keepsBlocks_link hrepository hbranch hpart htarget h
      rw [← List.append_assoc] at hlink
      rw [afterAll_append, opened_append, ← List.append_assoc]
      exact ih ((List.suffix_append _ _).trans hpart) hlink

end SourceHost

end MarkdownLinks
