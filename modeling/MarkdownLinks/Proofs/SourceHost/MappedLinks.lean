import MarkdownLinks.Proofs.Code.Exhaustive
import MarkdownLinks.Proofs.SourceHost.Revision

/-! Publishing a text without code as a map of its links. A link with another target is a link still,
because a URL is not empty and has no closing parenthesis: the path in it is escaped. So every link of
the published text comes from the link of the text in the same place, and all else is as it was. -/

namespace MarkdownLinks.SourceHost

variable (host : SourceHost)

theorem length_lt_length_url (path : Text) : path.length < (host.url path).length := by
  have hpath := Percent.length_le_encodePath path
  rw [url_eq, List.length_append, urlFront, List.length_append, List.length_cons]
  omega

theorem text_relink (link : Link) : (host.relink link).text = link.text := by
  rw [relink]
  split <;> rfl

section
variable {host} (hrepository : ')' ∉ host.repository) (hbranch : ')' ∉ host.branch)
include hrepository hbranch

theorem not_mem_url (path : Text) : ')' ∉ host.url path := by
  rw [url_eq, List.mem_append, not_or]
  refine ⟨not_mem_urlFront (by decide) hrepository hbranch path, fun hmem => ?_⟩
  rcases Percent.mem_encodePath hmem with h | h <;> exact absurd h (by decide)

/-- A link that is written so that it can be read is so with its new target. -/
theorem target_relink (link : Link) (hne : link.target ≠ []) (hclosed : ')' ∉ link.target) :
    (host.relink link).target ≠ [] ∧ ')' ∉ (host.relink link).target := by
  rw [relink]
  split
  · refine ⟨fun hnil => ?_, not_mem_url hrepository hbranch link.target⟩
    have hlength := host.length_lt_length_url link.target
    have hzero : (host.url link.target).length = 0 := congrArg List.length hnil
    omega
  · exact ⟨hne, hclosed⟩

end

/-- The links of a published text without code are those of the text, each with its new target, and
what stands between them is the same. -/
theorem publish_maps_links (text : Text) (hcode : (Code.hide text).2 = ⟨[], []⟩)
    (hrepository : ')' ∉ host.repository) (hbranch : ')' ∉ host.branch) :
    text = (Link.enclosed.pieces text).flatMap (Piece.render Link.write) ∧
    host.publish text = (Link.enclosed.pieces text).flatMap (Piece.render fun link => (host.relink link).write) ∧
    Link.enclosed.pieces (host.publish text) = (Link.enclosed.pieces text).map (Piece.map host.relink) ∧
    Link.enclosed.items (host.publish text) = (Link.enclosed.items text).map host.relink := by
  have hpublish : host.publish text = host.relinkAll text := by
    rw [publish, Code.editAround, Code.hide_of_snd_eq hcode]
    rfl
  have hpieces : Link.enclosed.pieces (host.relinkAll text) = (Link.enclosed.pieces text).map (Piece.map host.relink) :=
    Link.pieces_replace_enclosed host.text_relink (target_relink hrepository hbranch) text
  refine ⟨(Link.flatMap_pieces_enclosed text).symm, ?_, ?_, ?_⟩
  · rw [hpublish, relinkAll, Reader.replace_eq]
  · rw [hpublish, hpieces]
  · rw [hpublish, Reader.items_eq, hpieces, Piece.filterMap_item?_map, ← Reader.items_eq]

/-- Brackets and line feeds in the targets, brackets that do not match, and a link to no source. -/
theorem links_publish_of_brackets :
    let text := "](x) [a[b](Runtime/([c]\n) [d](e [f](Tests/g.cs)".toList
    let host : SourceHost := { repository := "r/".toList, branch := "(m".toList }
    host.publish text = "](x) [a[b](r/tree/(m/Runtime/%28%5Bc%5D%0A) [d](e [f](Tests/g.cs)".toList ∧
      Link.enclosed.items (host.publish text) =
        [⟨"a[b".toList, "r/tree/(m/Runtime/%28%5Bc%5D%0A".toList⟩, ⟨"d".toList, "e [f](Tests/g.cs".toList⟩] := by
  intro text host
  obtain ⟨-, hpublish, -, hitems⟩ :=
    host.publish_maps_links text (by decide +kernel) (by decide +kernel) (by decide +kernel)
  rw [hitems, hpublish]
  decide +kernel

end MarkdownLinks.SourceHost
