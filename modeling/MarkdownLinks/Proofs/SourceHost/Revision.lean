import MarkdownLinks.Proofs.Code.Words
import MarkdownLinks.Proofs.Link.Enclosed
import MarkdownLinks.Proofs.Text.Percent
import MarkdownLinks.SourceHost

/-! Replacing links as a list of edits. Every piece of an outline stays as it is, or it is a character
that other text takes the place of: in a link to a source the opening parenthesis, behind which the
front of the URL is put, and the characters of the target that have to be escaped. Slots stay, because
placeholders have no brackets and no characters to escape. -/

namespace MarkdownLinks

open Code Code.Outline

/-- What becomes of one piece of an outline. -/
inductive Edit where
  | keep (p : Piece Slot)
  | change (c : Char) (into : Text)

namespace Edit

/-- The piece that is edited. -/
def before : Edit → Piece Slot
  | keep p => p
  | change c _ => .char c

/-- What stands in its place. -/
def after : Edit → Outline
  | keep p => [p]
  | change _ into => ofText into

/-- The edit of a piece of a path when the path is encoded. -/
def encode : Piece Slot → Edit
  | .char c => if Percent.isPlain c then keep (.char c) else change c (Percent.encodeChar c)
  | .item slot => keep (.item slot)

end Edit

/-- The outline that some edits are made in. -/
def beforeAll (edits : List Edit) : Outline := edits.map Edit.before

/-- The outline that some edits make. -/
def afterAll (edits : List Edit) : Outline := edits.flatMap Edit.after

namespace SourceHost

/-- The URL of a source up to its path. -/
def urlFront (host : SourceHost) (path : Text) : Text :=
  host.base ++ '/' :: ((PathShape.ofPath path).urlSegment ++ '/' :: (host.branch ++ ['/']))

theorem url_eq (host : SourceHost) (path : Text) : host.url path = host.urlFront path ++ Percent.encodePath path := by
  simp [url, urlFront]

theorem base_prefix (host : SourceHost) : host.base <+: host.repository := by
  have hsuffix := List.dropWhile_suffix (l := host.repository.reverse) (· == '/')
  rw [← List.reverse_reverse host.repository]
  exact List.reverse_prefix.2 hsuffix

/-- A character that would have to be escaped stands in the front of a URL only if it stands in the URL
of the repository or the name of the branch. -/
theorem not_mem_urlFront {host : SourceHost} {c : Char} (hc : ¬Percent.isPlain c) (hrepository : c ∉ host.repository)
    (hbranch : c ∉ host.branch) (path : Text) : c ∉ host.urlFront path := by
  have hslash : c ≠ '/' := by
    rintro rfl
    exact hc (by decide)
  have hplain : (PathShape.ofPath path).urlSegment.all Percent.isPlain := by
    cases PathShape.ofPath path <;> decide
  have hsegment : c ∉ (PathShape.ofPath path).urlSegment := fun h => hc (List.all_eq_true.1 hplain c h)
  have hbase : c ∉ host.base := fun h => hrepository (host.base_prefix.subset h)
  simp [urlFront, hslash, hsegment, hbase, hbranch]

/-- The edits of a link with its text and its target. -/
def linkEdits (host : SourceHost) (text target : Outline) : List Edit :=
  .keep (.char '[') :: (text.map .keep ++ .keep (.char ']') ::
    .change '(' ('(' :: host.urlFront target.written) :: (target.map Edit.encode ++ [.keep (.char ')')]))

/-- Edits that replace some links to sources whose targets have a property, and keep all else. -/
inductive Relinking (host : SourceHost) (P : Outline → Prop) : List Edit → Prop where
  | done : Relinking host P []
  | keep (p : Piece Slot) {edits : List Edit} (h : Relinking host P edits) : Relinking host P (.keep p :: edits)
  | link (text : Outline) {target : Outline} {edits : List Edit} (htarget : P target)
      (h : Relinking host P edits) : Relinking host P (host.linkEdits text target ++ edits)

/-- Only an opening parenthesis and characters that have to be escaped are edited. -/
theorem Relinking.of_mem {host : SourceHost} {P : Outline → Prop} {edits : List Edit} (h : Relinking host P edits)
    {c : Char} {into : Text} (hmem : .change c into ∈ edits) :
    (c = '(' ∧ ∃ path, into = '(' :: host.urlFront path) ∨ ¬Percent.isPlain c ∧ into = Percent.encodeChar c := by
  induction h with
  | done => exact absurd hmem List.not_mem_nil
  | keep p h ih =>
      rcases List.mem_cons.1 hmem with heq | hmem
      · cases heq
      · exact ih hmem
  | @link text target edits htarget h ih =>
      rcases List.mem_append.1 hmem with hmem | hmem
      · simp only [linkEdits, List.mem_cons, List.mem_append, List.mem_map, reduceCtorEq, and_false, exists_false,
          false_or, List.not_mem_nil, or_false, Edit.change.injEq] at hmem
        rcases hmem with ⟨rfl, rfl⟩ | ⟨p, -, hp⟩
        · exact Or.inl ⟨rfl, _, rfl⟩
        · cases p with
          | char d =>
              rw [Edit.encode] at hp
              split at hp
              · cases hp
              · rename_i hd
                cases hp
                exact Or.inr ⟨hd, rfl⟩
          | item slot => cases hp
      · exact ih hmem

theorem Relinking.keepAll {host : SourceHost} {P : Outline → Prop} (o : Outline) {edits : List Edit}
    (h : Relinking host P edits) : Relinking host P (o.map .keep ++ edits) := by
  induction o with
  | nil => exact h
  | cons p o ih => exact Relinking.keep p ih

end SourceHost

section

@[simp] theorem beforeAll_nil : beforeAll [] = [] := rfl

@[simp] theorem beforeAll_cons (e : Edit) (edits : List Edit) :
    beforeAll (e :: edits) = e.before :: beforeAll edits := rfl

@[simp] theorem beforeAll_append (edits more : List Edit) :
    beforeAll (edits ++ more) = beforeAll edits ++ beforeAll more := List.map_append

@[simp] theorem afterAll_nil : afterAll [] = [] := rfl

@[simp] theorem afterAll_keep (p : Piece Slot) (edits : List Edit) :
    afterAll (.keep p :: edits) = p :: afterAll edits := rfl

@[simp] theorem afterAll_change (c : Char) (into : Text) (edits : List Edit) :
    afterAll (.change c into :: edits) = ofText into ++ afterAll edits := rfl

@[simp] theorem afterAll_append (edits more : List Edit) :
    afterAll (edits ++ more) = afterAll edits ++ afterAll more := List.flatMap_append

@[simp] theorem beforeAll_map_keep (o : Outline) : beforeAll (o.map .keep) = o := by
  induction o with
  | nil => rfl
  | cons p o ih => exact congrArg (p :: ·) ih

@[simp] theorem afterAll_map_keep (o : Outline) : afterAll (o.map .keep) = o := by
  induction o with
  | nil => rfl
  | cons p o ih => exact congrArg (p :: ·) ih

@[simp] theorem beforeAll_map_encode (o : Outline) : beforeAll (o.map Edit.encode) = o := by
  induction o with
  | nil => rfl
  | cons p o ih =>
      rw [List.map_cons, beforeAll_cons, ih]
      cases p with
      | char c =>
          rw [Edit.encode]
          split <;> rfl
      | item slot => rfl

end

theorem isPlain_of_mem_placeholder {slot : Slot} {c : Char} (h : c ∈ slot.placeholder) : Percent.isPlain c := by
  rcases Slot.mem_placeholder h with h | h
  · simp [Percent.isPlain, h]
  · rw [h]
    decide

/-- A path is encoded piece by piece, and its placeholders stay. -/
theorem written_afterAll_map_encode (o : Outline) :
    (afterAll (o.map Edit.encode)).written = Percent.encodePath o.written := by
  induction o with
  | nil => rfl
  | cons p o ih =>
      have happend : ∀ s t, Percent.encodePath (s ++ t) = Percent.encodePath s ++ Percent.encodePath t :=
        fun s t => List.flatMap_append
      rw [List.map_cons, written_cons, happend, ← ih]
      cases p with
      | char c =>
          have hc : Percent.encodePath (Piece.render Slot.placeholder (.char c)) = Percent.encodeChar c :=
            List.append_nil _
          rw [hc, Edit.encode]
          split
          · rename_i h
            rw [afterAll_keep, written_char, Percent.encodeChar, if_pos h]
            rfl
          · rw [afterAll_change, written_append, written_ofText]
      | item slot =>
          have hslot : Percent.encodePath (Piece.render Slot.placeholder (.item slot)) = slot.placeholder :=
            Percent.encodePath_of_isPlain fun c => isPlain_of_mem_placeholder
          rw [hslot]
          rfl

/-- A character that placeholders do not have stands in an outline where it stands in the outline
written out. -/
theorem exists_eq_append_of_written {c : Char} (hc : ∀ slot : Slot, c ∉ slot.placeholder) {o : Outline} {a b : Text}
    (h : o.written = a ++ c :: b) :
    ∃ before after : Outline, o = before ++ .char c :: after ∧ before.written = a ∧ after.written = b := by
  induction o generalizing a with
  | nil => cases a <;> cases h
  | cons p o ih =>
      cases p with
      | char d =>
          rw [written_char] at h
          cases a with
          | nil =>
              cases h
              exact ⟨[], o, rfl, rfl, rfl⟩
          | cons e a =>
              obtain ⟨rfl, hrest⟩ := List.cons.inj h
              obtain ⟨before, after, rfl, rfl, rfl⟩ := ih hrest
              exact ⟨.char d :: before, after, rfl, rfl, rfl⟩
      | item slot =>
          rw [written_item] at h
          rcases List.append_eq_append_iff.1 h with ⟨a', rfl, hrest⟩ | ⟨b', hslot, hb⟩
          · obtain ⟨before, after, rfl, rfl, rfl⟩ := ih hrest
            exact ⟨.item slot :: before, after, rfl, rfl, rfl⟩
          · cases b' with
            | nil =>
                obtain ⟨before, after, rfl, hbefore, rfl⟩ := ih (a := []) hb.symm
                rw [List.append_nil] at hslot
                exact ⟨.item slot :: before, after, rfl, by rw [written_item, hbefore, hslot, List.append_nil], rfl⟩
            | cons e b' =>
                obtain ⟨rfl, -⟩ := List.cons.inj hb
                exact absurd (hslot ▸ List.mem_append_right a List.mem_cons_self) (hc slot)

theorem eq_nil_of_written_eq_nil {o : Outline} (h : o.written = []) : o = [] := by
  cases o with
  | nil => rfl
  | cons p o =>
      cases p with
      | char c => cases h
      | item slot =>
          obtain ⟨t, ht⟩ := Slot.exists_placeholder_eq_cons slot
          rw [written_item, ht] at h
          cases h

/-- A link as an outline, with its text and its target. -/
def linkOutline (text target : Outline) : Outline :=
  .char '[' :: (text ++ .char ']' :: .char '(' :: (target ++ [.char ')']))

/-- A link at the front of an outline written out is a link at the front of the outline. -/
theorem exists_linkOutline_of_read {o : Outline} {link : Link} {rest : Text}
    (h : Link.enclosed.read o.written = some (link, rest)) :
    ∃ text target behind : Outline, o = linkOutline text target ++ behind ∧
      link = ⟨text.written, target.written⟩ ∧ behind.written = rest := by
  obtain ⟨hwritten, -⟩ := Link.enclosed_read_eq_some_iff.1 h
  have hlink : o.written = [] ++ '[' :: (link.text ++ ']' :: '(' :: (link.target ++ ')' :: rest)) := by
    rw [hwritten]
    simp [Link.write]
  obtain ⟨empty, inner, rfl, hempty, htext⟩ := exists_eq_append_of_written
    (Slot.not_mem_placeholder (c := '[') (by decide) (by decide)) hlink
  obtain ⟨text, inner, rfl, htext', hparen⟩ := exists_eq_append_of_written
    (Slot.not_mem_placeholder (c := ']') (by decide) (by decide)) htext
  obtain ⟨empty', inner, rfl, hempty', htarget⟩ := exists_eq_append_of_written (a := [])
    (Slot.not_mem_placeholder (c := '(') (by decide) (by decide)) hparen
  obtain ⟨target, behind, rfl, htarget', hrest⟩ := exists_eq_append_of_written
    (Slot.not_mem_placeholder (c := ')') (by decide) (by decide)) htarget
  obtain rfl := eq_nil_of_written_eq_nil hempty
  obtain rfl := eq_nil_of_written_eq_nil hempty'
  refine ⟨text, target, behind, ?_, by rw [htext', htarget'], hrest⟩
  simp [linkOutline]

namespace SourceHost

theorem beforeAll_linkEdits (host : SourceHost) (text target : Outline) :
    beforeAll (host.linkEdits text target) = linkOutline text target := by
  simp [linkEdits, linkOutline, Edit.before]

theorem relink_of_isSource (host : SourceHost) {text target : Outline} (h : host.isSource target.written) :
    (host.relink ⟨text.written, target.written⟩).write = (afterAll (host.linkEdits text target)).written := by
  rw [relink, if_pos h, linkEdits, Link.write, url_eq, ← written_afterAll_map_encode]
  simp

theorem relink_of_not_isSource (host : SourceHost) {link : Link} (h : ¬host.isSource link.target) :
    host.relink link = link := by
  rw [relink, if_neg h]

theorem write_eq_written_linkOutline (text target : Outline) :
    Link.write ⟨text.written, target.written⟩ = (linkOutline text target).written := by
  simp [Link.write, linkOutline]

/-- Replacing the links of an outline written out is a list of edits of the outline. -/
theorem exists_relinking (host : SourceHost) {P : Outline → Prop} (o : Outline)
    (hP : ∀ text target : Outline, ⟨text.written, target.written⟩ ∈ Link.enclosed.items o.written →
      host.isSource target.written → P target) :
    ∃ edits, beforeAll edits = o ∧ Relinking host P edits ∧
      host.relinkAll o.written = (afterAll edits).written := by
  induction hn : o.length using Nat.strongRecOn generalizing o with
  | ind n ih =>
      cases o with
      | nil => exact ⟨[], rfl, Relinking.done, Reader.replace_nil _⟩
      | cons p o =>
          -- A piece that begins no link stays.
          have hkept : host.relinkAll (written (p :: o)) = p.render Slot.placeholder ++ host.relinkAll (written o) →
              Link.enclosed.items (written (p :: o)) = Link.enclosed.items (written o) →
              ∃ edits, beforeAll edits = p :: o ∧ Relinking host P edits ∧
                host.relinkAll (written (p :: o)) = (afterAll edits).written := by
            intro hwritten hitems
            rw [hitems] at hP
            obtain ⟨edits, hbefore, hedits, hafter⟩ := ih o.length (by rw [← hn]; exact Nat.lt_succ_self _) o hP rfl
            refine ⟨.keep p :: edits, by rw [beforeAll_cons, hbefore]; rfl, Relinking.keep p hedits, ?_⟩
            rw [hwritten, hafter, afterAll_keep, written_cons]
          cases p with
          | item slot =>
              have hfree : '[' ∉ slot.placeholder := Slot.not_mem_placeholder (by decide) (by decide) slot
              exact hkept (Link.replace_enclosed_append hfree _ _) (Link.items_enclosed_append hfree _)
          | char c =>
              rcases hread : Link.enclosed.read (written (.char c :: o)) with _ | ⟨link, rest⟩
              · exact hkept (Reader.replace_of_read_eq_none _ hread) (Reader.items_of_read_eq_none _ hread)
              · obtain ⟨text, target, behind, ho, rfl, rfl⟩ := exists_linkOutline_of_read hread
                have hitems := Reader.items_of_read _ hread
                have hlength : behind.length < n := by
                  rw [← hn, ho, List.length_append, linkOutline, List.length_cons]
                  omega
                obtain ⟨edits, hbefore, hedits, hafter⟩ := ih _ hlength behind
                  (fun text' target' hmem => hP text' target' (by rw [hitems]; exact List.mem_cons_of_mem _ hmem)) rfl
                by_cases hsource : host.isSource target.written
                · have htarget := hP text target (by rw [hitems]; exact List.mem_cons_self) hsource
                  refine ⟨host.linkEdits text target ++ edits, ?_, Relinking.link text htarget hedits, ?_⟩
                  · rw [beforeAll_append, hbefore, beforeAll_linkEdits, ho]
                  · rw [relinkAll, Reader.replace_of_read _ hread, ← relinkAll, hafter,
                      host.relink_of_isSource hsource, afterAll_append, written_append]
                · refine ⟨(linkOutline text target).map .keep ++ edits, ?_, Relinking.keepAll _ hedits, ?_⟩
                  · rw [beforeAll_append, hbefore, beforeAll_map_keep, ho]
                  · rw [relinkAll, Reader.replace_of_read _ hread, ← relinkAll, hafter,
                      host.relink_of_not_isSource hsource, afterAll_append, written_append, afterAll_map_keep,
                      write_eq_written_linkOutline]

end SourceHost

end MarkdownLinks
