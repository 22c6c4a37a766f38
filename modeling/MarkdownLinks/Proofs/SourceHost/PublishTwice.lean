import MarkdownLinks.Proofs.SourceHost.KeptSpans
import MarkdownLinks.Proofs.SourceHost.MappedLinks
import MarkdownLinks.Proofs.SourceHost.Publish

/-! Publishing twice. A published text is published already exactly if no link to a source is left in it
outside code. None is left as long as the published text has the code that the text had; a fenced block
in a target can be lost, because the line feed that it begins behind is escaped, and then links that
were code are links. -/

namespace MarkdownLinks

open Code Code.Outline

theorem length_writtenWith_afterAll (f g : Slot → Text) (edits : List Edit) :
    ((afterAll edits).writtenWith f).length + ((beforeAll edits).writtenWith g).length =
      ((afterAll edits).writtenWith g).length + ((beforeAll edits).writtenWith f).length := by
  induction edits with
  | nil => rfl
  | cons e edits ih =>
      cases e with
      | keep p => cases p <;> simp [Edit.before] <;> omega
      | change c into => simp [Edit.before]; omega

namespace SourceHost

variable {host : SourceHost}

theorem length_write_relink {link : Link} (h : host.isSource link.target) :
    link.write.length < (host.relink link).write.length := by
  have hurl := length_lt_length_url host link.target
  rw [relink, if_pos h]
  simp [Link.write]
  omega

/-- Replacing links makes a text longer, unless it has no links to sources. -/
theorem length_relinkAll (host : SourceHost) (s : Text) :
    s.length ≤ (host.relinkAll s).length ∧
      ((host.relinkAll s).length = s.length → ∀ link ∈ Link.enclosed.items s, ¬host.isSource link.target) := by
  induction s using Reader.induction Link.enclosed with
  | nil =>
      rw [Reader.items_nil]
      exact ⟨Nat.zero_le _, fun _ link h => absurd h List.not_mem_nil⟩
  | char c s hread ih =>
      have hrelinked : host.relinkAll (c :: s) = c :: host.relinkAll s := Reader.replace_of_read_eq_none _ hread
      rw [hrelinked, Reader.items_of_read_eq_none _ hread]
      exact ⟨Nat.succ_le_succ ih.1, fun h => ih.2 (Nat.succ.inj h)⟩
  | item s link rest hread ih =>
      have hrelinked : host.relinkAll s = (host.relink link).write ++ host.relinkAll rest :=
        Reader.replace_of_read _ hread
      have hs : s.length = link.write.length + rest.length := by
        rw [(Link.enclosed_read_eq_some_iff.1 hread).1, List.length_append]
      rw [hrelinked, List.length_append, Reader.items_of_read _ hread, hs]
      obtain ⟨hrest, hitems⟩ := ih
      by_cases hsource : host.isSource link.target
      · have hlink := length_write_relink hsource
        exact ⟨by omega, fun h => by omega⟩
      · rw [host.relink_of_not_isSource hsource]
        refine ⟨by omega, fun h other hother => ?_⟩
        rcases List.mem_cons.1 hother with rfl | hother
        · exact hsource
        · exact hitems (by omega) other hother

theorem relinkAll_eq_self {s : Text} (h : ∀ link ∈ Link.enclosed.items s, ¬host.isSource link.target) :
    host.relinkAll s = s := by
  induction s using Reader.induction Link.enclosed with
  | nil => exact Reader.replace_nil _
  | char c s hread ih =>
      rw [Reader.items_of_read_eq_none _ hread] at h
      have hrelinked : host.relinkAll (c :: s) = c :: host.relinkAll s := Reader.replace_of_read_eq_none _ hread
      rw [hrelinked, ih h]
  | item s link rest hread ih =>
      rw [Reader.items_of_read _ hread] at h
      have hrelinked : host.relinkAll s = (host.relink link).write ++ host.relinkAll rest :=
        Reader.replace_of_read _ hread
      rw [hrelinked, host.relink_of_not_isSource (h link List.mem_cons_self),
        ih fun other hother => h other (List.mem_cons_of_mem link hother), (Link.enclosed_read_eq_some_iff.1 hread).1]

/-- Links that are replaced already are not replaced again. -/
theorem relinkAll_relinkAll (hrepository : ')' ∉ host.repository) (hbranch : ')' ∉ host.branch)
    (hurl : ∀ path, ¬host.isSource (host.url path)) (s : Text) :
    host.relinkAll (host.relinkAll s) = host.relinkAll s := by
  refine Link.replace_replace_enclosed host.text_relink (target_relink hrepository hbranch) (fun link => ?_) s
  by_cases h : host.isSource link.target
  · have hrelinked : host.relink link = ⟨link.text, host.url link.target⟩ := by rw [relink, if_pos h]
    rw [hrelinked]
    exact host.relink_of_not_isSource (hurl link.target)
  · rw [host.relink_of_not_isSource h, host.relink_of_not_isSource h]

section
variable {text : Text} (hrepository : WordFree host.repository) (hbranch : WordFree host.branch)
include hrepository hbranch

/-- A clean text is published already exactly if it has no links to sources outside code. -/
theorem publish_eq_self_iff (htext : Clean (ofText text)) :
    host.publish text = text ↔ ∀ link ∈ Link.enclosed.items (hide text).1, ¬host.isSource link.target := by
  constructor
  · intro h
    obtain ⟨edits, hbefore, hwritten, -, -, hpublish⟩ := exists_published hrepository hbranch htext
    apply (length_relinkAll host _).2
    -- Between masked and unmasked text, publishing makes the same difference in length.
    have hlength := length_writtenWith_afterAll (codeAt text) Slot.placeholder edits
    rw [hbefore, writtenWith_outline, ← hpublish, h, Nat.add_comm, Nat.add_right_cancel_iff] at hlength
    rw [hide_eq, hwritten]
    exact hlength.symm
  · intro h
    rw [publish, editAround, relinkAll_eq_self h, restore_hide htext]

end

section
variable {text : Text} {edits : List Edit}
  (hedits : Relinking host (fun target => ∀ n, .fenced n ∉ slots target) edits)
  (hbefore : beforeAll edits = outline text) (hfree : ∀ c ∈ ['\n', '\x60'], c ∉ host.repository ∧ c ∉ host.branch)
include hedits hbefore hfree

/-- If no target has a block outside spans, hiding the code of the published text hides the code of the
text. -/
theorem hide_of_relinking :
    hide ((afterAll edits).writtenWith (codeAt text)) = ((afterAll edits).written, (hide text).2) := by
  have hline := hfree '\n' List.mem_cons_self
  have htick := hfree '\x60' (List.mem_cons_of_mem _ List.mem_cons_self)
  have hunedited : KeepsBlocks text ([] ++ opened text (beforeAll edits)) := by
    rw [hbefore, opened_outline]
    exact keepsBlocks_blockOutline text
  have hkept : KeepsBlocks text (opened text (afterAll edits)) :=
    keepsBlocks_relinking hline.1 hline.2 hedits (hbefore ▸ List.suffix_refl _) hunedited
  have hparts : fencedParts ((afterAll edits).writtenWith (codeAt text)) =
      (opened text (afterAll edits)).map (blockPart text) := by
    rw [← writtenWith_opened, ← segmentsText_map_blockPart]
    exact hkept
  have hslots : slots (opened text (afterAll edits)) = blockSlots text := by
    calc slots (opened text (afterAll edits))
        = slots (opened text (beforeAll edits)) := by rw [slots_opened, slots_afterAll, ← slots_opened]
      _ = slots (blockOutline text) := by rw [hbefore, opened_outline]
      _ = blockSlots text := slots_blockOutline text
  obtain ⟨hblocks, hfenced⟩ := blockOutline_eq text hparts hslots
  obtain ⟨houtline, hspans⟩ := outline_of_relinking htick.1 htick.2 hedits hbefore hblocks
  rw [hide_eq, hide_eq text, houtline, hfenced, hspans]

end

/-- Publishing twice is publishing once exactly if no link to a source is left outside code. This holds
if no block stands in the target of such a link in the text, outside the spans of the target. -/
theorem publish_publish (host : SourceHost) (text : Text) (htext : WordFree text)
    (hrepository : WordFree host.repository) (hbranch : WordFree host.branch)
    (hfree : ∀ c ∈ [')', '\n', '\x60'], c ∉ host.repository ∧ c ∉ host.branch)
    (hurl : ∀ path, ¬host.isSource (host.url path)) :
    (host.publish (host.publish text) = host.publish text ↔
      ∀ link ∈ Link.enclosed.items (hide (host.publish text)).1, ¬host.isSource link.target) ∧
    ((∀ link ∈ Link.enclosed.items (hide text).1, host.isSource link.target →
        ∀ n, ¬fencedPlaceholder n <:+: link.target) →
      host.publish (host.publish text) = host.publish text) := by
  obtain ⟨-, -, -, -, hclean, -⟩ := exists_published hrepository hbranch htext.clean
  refine ⟨publish_eq_self_iff hrepository hbranch hclean, fun h => ?_⟩
  obtain ⟨hparen, hrest⟩ := List.forall_mem_cons.1 hfree
  rw [hide_eq] at h
  have htarget : ∀ label target : Outline,
      ⟨label.written, target.written⟩ ∈ Link.enclosed.items (outline text).written → host.isSource target.written →
        ∀ n, .fenced n ∉ slots target := by
    intro label target hlink hsource n hslot
    have hpart : (Slot.fenced n).placeholder <:+: target.written := placeholder_part_of_mem_slots hslot
    exact h _ hlink hsource n hpart
  obtain ⟨edits, hbefore, hedits, hwritten⟩ := host.exists_relinking (outline text) htarget
  obtain ⟨-, -, hpublish⟩ := publish_eq_of_relinking hrepository hbranch hedits htext.clean hbefore hwritten
  have hhide := hide_of_relinking hedits hbefore hrest
  rw [← hpublish, ← hwritten] at hhide
  calc host.publish (host.publish text)
      = (hide text).2.restore (host.relinkAll (host.relinkAll (outline text).written)) := by
        rw [publish, editAround, hhide]
    _ = (hide text).2.restore (host.relinkAll (outline text).written) := by
        rw [relinkAll_relinkAll hparen.1 hparen.2 hurl]
    _ = host.publish text := by
        rw [publish, editAround, hide_eq]

/-- A span with a block in it in the target of a link, and a link behind it. -/
theorem publish_publish_of_block_in_span :
    let text := "[a](Runtime/\n\x60~~~\n[b](Runtime/x)\n~~~\x60\n)[c](Runtime/y)".toList
    let host : SourceHost := {}
    host.publish text ≠ text ∧ host.publish (host.publish text) = host.publish text := by
  intro text host
  refine ⟨by decide +kernel, ?_⟩
  have hurl : ∀ path, host.isSource (host.url path) = false := by
    intro path
    have hbase : host.base = "https://github.com/wallstop/DxMessaging".toList := by decide +kernel
    rw [isSource, url, hbase]
    rfl
  have hfree : ∀ c ∈ [')', '\n', '\x60'], c ∉ host.repository ∧ c ∉ host.branch := by simp [host]
  refine (publish_publish host text (by decide +kernel) (by decide +kernel) (by decide +kernel) hfree
    fun path => Bool.eq_false_iff.1 (hurl path)).2 fun link hlink _ n hpart => ?_
  have hletter : 'F' ∈ "__FENCED_CODE_BLOCK_".toList := by decide +kernel
  have htarget : ∀ link ∈ Link.enclosed.items (hide text).1, 'F' ∉ link.target := by decide +kernel
  exact htarget link hlink (hpart.subset (List.mem_append_left _ (List.mem_append_left _ hletter)))

/-- The block in the target of the first link is lost, and with it the second link is no longer code. -/
theorem publish_publish_ne :
    let text := "[a](Runtime/\n~~~\n)[b](Runtime/x)\n~~~\n)".toList
    let host : SourceHost := {}
    host.publish (host.publish text) ≠ host.publish text := by
  decide +kernel

end SourceHost

end MarkdownLinks
