import MarkdownLinks.Proofs.Code.Exhaustive
import MarkdownLinks.Proofs.Link.Titled
import MarkdownLinks.Proofs.SourceHost.Revision

/-! Publishing a link with a title. The readers of the checks take the path for the target of the link and leave
the title out; publishing takes the title for a part of the path, and encodes it with the path. So a title never
survives. It also has a say in whether the path names a file: a dot in the title is a dot in the last segment. -/

namespace MarkdownLinks

open Link

namespace Link.TitledLink

variable (l : TitledLink)

theorem hide_written : Code.hide l.written = (l.written, ⟨[], []⟩) := by
  have hfree : ∀ c ∈ l.written, c ≠ '\n' ∧ c ≠ '\x60' := fun c hc => by
    simp only [written, write, target, List.mem_cons, List.mem_append, List.not_mem_nil, or_false] at hc
    rcases hc with rfl | hc | rfl | rfl | (hc | hc) | rfl
    · decide
    · exact (l.text_free c hc).2.symm
    · decide
    · decide
    · refine ⟨?_, (l.path_free c hc).2.2⟩
      rintro rfl
      exact absurd (l.path_free _ hc).1 (by decide)
    · exact (l.title_free c hc).2.symm
    · decide
  exact Code.hide_of_line (fun h => (hfree _ h).1 rfl) fun h => (hfree _ h).2 rfl

end Link.TitledLink

namespace SourceHost

variable (host : SourceHost)

theorem isSource_append {path : Text} (h : host.isSource path) (s : Text) : host.isSource (path ++ s) := by
  obtain ⟨root, hroot, hprefix⟩ := List.any_eq_true.1 h
  refine List.any_eq_true.2 ⟨root, hroot, List.isPrefixOf_iff_prefix.2 ?_⟩
  exact (List.isPrefixOf_iff_prefix.1 hprefix).trans (List.prefix_append path s)

/-- No URL ends with a double quote, so none ends with a title. -/
theorem url_ne_append_text {target : Text} (hne : target ≠ []) (t : Title quotedTitleEnd?) (s : Text) :
    host.url target ≠ s ++ t.text := by
  intro h
  have hclosing : t.text.getLast? = some '"' := by
    rw [t.getLast?_text, (eq_quote_of_quotedTitleEnd? t.delimiters).2]
  have htext : t.text ≠ [] := fun hnil => by
    rw [hnil] at hclosing
    cases hclosing
  have hlast : (Percent.encodePath target).getLast? = some '"' :=
    calc (Percent.encodePath target).getLast?
        = (host.url target).getLast? := by
          rw [url_eq, List.getLast?_append_of_ne_nil _ (Percent.encodePath_ne_nil hne)]
      _ = (s ++ t.text).getLast? := congrArg List.getLast? h
      _ = t.text.getLast? := List.getLast?_append_of_ne_nil s htext
      _ = some '"' := hclosing
  exact Percent.not_mem_encodePath (by decide) (by decide) target (List.mem_of_getLast? hlast)

theorem publish_written (l : TitledLink) (hsource : host.isSource l.path) :
    host.publish l.written = write ⟨l.text, host.url l.target⟩ := by
  have hrelink : host.relink ⟨l.text, l.target⟩ = ⟨l.text, host.url l.target⟩ :=
    if_pos (host.isSource_append hsource (titleText l.title))
  calc host.publish l.written
      = host.relinkAll l.written := by
        rw [publish, Code.editAround, l.hide_written]
        rfl
    _ = (host.relink ⟨l.text, l.target⟩).write := by
        rw [relinkAll, Reader.replace_of_read _ l.enclosed_read_written, Reader.replace_nil, List.append_nil]
    _ = write ⟨l.text, host.url l.target⟩ := by rw [hrelink]

/-- The checks take the path for the target of a link, and publishing takes the path and the title. So the link is
published with the URL of the path and the title as it was exactly if there is no title. -/
theorem publish_titledLink (l : TitledLink) (hsource : host.isSource l.path) :
    (l.path ≠ [] → tokenLinks l.written = [⟨trim l.text, l.path⟩] ∧ spaced.items l.written = [⟨l.text, l.path⟩]) ∧
      enclosed.items l.written = [⟨l.text, l.path ++ titleText l.title⟩] ∧
      host.publish l.written = write ⟨l.text, host.url (l.path ++ titleText l.title)⟩ ∧
      (host.publish l.written = write ⟨l.text, host.url l.path ++ titleText l.title⟩ ↔ l.title = none) := by
  have hpublish := host.publish_written l hsource
  refine ⟨fun hpath => ⟨l.tokenLinks_written hpath, l.items_spaced_written hpath⟩, ?_, hpublish, ?_⟩
  · rw [enclosed.items_of_read l.enclosed_read_written, enclosed.items_nil, TitledLink.target]
  · have hwrite : ∀ s, write ⟨l.text, host.url l.target⟩ = write ⟨l.text, s⟩ ↔ host.url l.target = s := fun s => by
      simp [write]
    rw [hpublish, hwrite, TitledLink.target]
    cases htitle : l.title with
    | none => simp [titleText]
    | some t =>
        have hne : l.path ++ titleText (some t) ≠ [] := htitle ▸ l.target_ne_nil
        exact iff_of_false (host.url_ne_append_text hne t (host.url l.path)) (Option.some_ne_none t)

/-- A link to a file, with a title. -/
theorem publish_titledLink_of_file :
    let host : SourceHost := {}
    let title : Title quotedTitleEnd? := ⟨[' '], '"', ['t'], '"', by decide, by simp [isBlank], rfl, by decide⟩
    let l : TitledLink := ⟨['a'], "Runtime/x.cs".toList, some title, by decide, by decide +kernel, by simp,
      by simp [isBlank], by simp [title, titleText, Title.text]⟩
    l.written = "[a](Runtime/x.cs \"t\")".toList ∧ host.isSource l.path ∧ l.path ≠ [] ∧
      tokenLinks l.written = [⟨['a'], l.path⟩] ∧ spaced.items l.written = [⟨['a'], l.path⟩] ∧
      enclosed.items l.written = [⟨['a'], "Runtime/x.cs \"t\"".toList⟩] ∧
      host.publish l.written =
        "[a](https://github.com/wallstop/DxMessaging/blob/master/Runtime/x.cs%20%22t%22)".toList := by
  intro host title l
  have hsource : host.isSource l.path := by decide +kernel
  have hpath : l.path ≠ [] := by decide +kernel
  obtain ⟨htargets, henclosed, hpublish, -⟩ := host.publish_titledLink l hsource
  obtain ⟨htoken, hspaced⟩ := htargets hpath
  refine ⟨by decide +kernel, hsource, hpath, htoken, hspaced, henclosed, ?_⟩
  rw [hpublish]
  decide +kernel

/-- The title is lost. -/
theorem publish_titledLink_ne :
    let host : SourceHost := {}
    let path := "Runtime/x.cs".toList
    let title := " \"t\"".toList
    host.isSource path ∧
      host.publish (write ⟨['a'], path ++ title⟩) ≠ write ⟨['a'], host.url path ++ title⟩ := by
  decide +kernel

-- a dot in the title makes a file of a directory
example :
    let host : SourceHost := {}
    host.publish "[a](Runtime/Core \"v1.2\")".toList =
        "[a](https://github.com/wallstop/DxMessaging/blob/master/Runtime/Core%20%22v1.2%22)".toList ∧
      host.url "Runtime/Core".toList = "https://github.com/wallstop/DxMessaging/tree/master/Runtime/Core".toList := by
  decide +kernel

end SourceHost

end MarkdownLinks
