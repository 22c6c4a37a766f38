import MarkdownLinks.Proofs.FileTree.Removal
import MarkdownLinks.Proofs.Lint.Reading

/-! What cannot be read has no influence on the rest of a run, in a tree without links. Without a file that no
path of the search leads to, a run finds the same documents but those that lead to the file; and if none of
these was read, it reads the same texts, and reports the same but for the skips of the file. -/

namespace MarkdownLinks.FileTree

open MarkdownLinks.Path

section
variable {t : FileTree} {search : Search} {path : Text} {location gone : Location} {bytes : ByteArray}

/-- A walk from a place that a tree keeps. -/
theorem walk_remove (ht : t.WellFormed) (hfree : t.LinkFree) (hgone : t.entry? gone = some (.file bytes))
    (options : WalkOptions) {e : Entry} (hstatus : t.status path = .ok (location, e)) (hne : location ≠ gone) :
    (t.remove gone).walk options path = (t.walk options path).filter (t.avoids gone) := by
  obtain ⟨hpath, hplace, he⟩ := place?_of_status hstatus
  rw [walk, walk, status_remove hfree hgone hplace hne, hstatus]
  cases e with
  | directory =>
      exact walkDirectory_remove ht hfree hgone options options.maxDepth [] hpath hplace (isDirectory_iff.2 he)
  | file _ =>
      have havoids : t.avoids gone (.file path) = true := by
        rw [avoids, hplace]
        simpa using hne
      dsimp only
      rw [List.filter_cons_of_pos havoids, List.filter_nil]
  | link target => cases isLink_of_status ht hstatus

theorem exists_status_of_pathExists (h : t.pathExists path = true) :
    ∃ location e, t.status path = .ok (location, e) ∧ t.place? path = some location := by
  rw [pathExists] at h
  cases hstatus : t.status path with
  | error fault =>
      rw [hstatus] at h
      cases h
  | ok result => exact ⟨result.1, result.2, rfl, (place?_of_status hstatus).2.1⟩

theorem pathExists_remove (hfree : t.LinkFree) (hgone : t.entry? gone = some (.file bytes))
    (hexists : t.pathExists path = true) (hplace : t.place? path ≠ some gone) :
    (t.remove gone).pathExists path = true := by
  obtain ⟨location, e, hstatus, hlocation⟩ := exists_status_of_pathExists hexists
  rw [hlocation, Ne, Option.some.injEq] at hplace
  rw [pathExists, status_remove hfree hgone hlocation hplace, hstatus]
  rfl

theorem readDocument_remove (ht : t.WellFormed) (hfree : t.LinkFree) (hgone : t.entry? gone = some (.file bytes))
    (hp : path ∈ t.documents search) (hplace : t.place? path ≠ some gone) :
    (t.remove gone).readDocument search.maxFileSize path = t.readDocument search.maxFileSize path := by
  obtain ⟨-, location, -, hlocation, -⟩ := exists_place_of_mem_documents ht hfree hp
  have helsewhere : location ≠ gone := by
    rintro rfl
    exact hplace hlocation
  rw [readDocument, readDocument, fileAt, fileAt, status_remove hfree hgone hlocation helsewhere]
  rfl

section
variable (ht : t.WellFormed) (hfree : t.LinkFree) (hgone : t.entry? gone = some (.file bytes))
  (hroots : ∀ root ∈ search.paths, t.pathExists root = true ∧ t.place? root ≠ some gone)
include ht hfree hgone hroots

/-- Roots that a tree keeps are walked from as before. -/
theorem visits_remove : (t.remove gone).visits search = (t.visits search).filter (t.avoids gone) := by
  rw [visits, visits, List.filter_flatMap]
  refine List.flatMap_congr fun root hroot => ?_
  obtain ⟨hexists, hplace⟩ := hroots root hroot
  obtain ⟨location, e, hstatus, hlocation⟩ := exists_status_of_pathExists hexists
  rw [hlocation, Ne, Option.some.injEq] at hplace
  exact walk_remove ht hfree hgone search.walkOptions hstatus hplace

theorem documents_remove :
    (t.remove gone).documents search = (t.documents search).filter fun p => t.place? p ≠ some gone := by
  rw [documents, documents, visits_remove ht hfree hgone hroots, ← sortPaths_filter]
  · congr 1
    rw [List.filter_filterMap, List.filterMap_filter]
    congr 1
    funext v
    cases v with
    | file p =>
        dsimp only [avoids]
        cases search.selects p with
        | true => by_cases hp : t.place? p = some gone <;> simp [hp, Option.filter]
        | false => by_cases hp : t.place? p = some gone <;> simp [hp]
    | fault p fault => rfl
  · intro p hp q hq hcomponents
    obtain ⟨-, l, -, hl, -⟩ := exists_place_of_mem_visits ht hfree (mem_candidates_iff.1 hp).1
    obtain ⟨-, m, -, hm, -⟩ := exists_place_of_mem_visits ht hfree (mem_candidates_iff.1 hq).1
    rw [hl, hm, place?_eq_of_components hfree hl hm hcomponents]

theorem unvisited_remove : (t.remove gone).unvisited search = t.unvisited search := by
  rw [unvisited, unvisited, visits_remove ht hfree hgone hroots, List.filterMap_filter]
  congr 2
  funext v
  cases v with
  | file p => dsimp only; split <;> rfl
  | fault p fault => rfl

/-- What is read does not change with a file that nothing reads. -/
theorem scanned_remove (hunread : ∀ p text, (p, text) ∈ t.scanned search → t.place? p ≠ some gone) :
    (t.remove gone).scanned search = t.scanned search := by
  rw [scanned, scanned, documents_remove ht hfree hgone hroots, List.filterMap_filter]
  refine List.filterMap_congr fun p hp => ?_
  by_cases hplace : t.place? p = some gone
  · rw [if_neg (by simpa using hplace)]
    cases hread : t.readDocument search.maxFileSize p with
    | ok text => exact absurd hplace (hunread p text (mem_scanned_iff.2 ⟨hp, hread⟩))
    | error fault => rfl
  · rw [if_pos (by simpa using hplace), readDocument_remove ht hfree hgone hp hplace]

theorem unread_remove :
    (t.remove gone).unread search = (t.unread search).filter fun s => t.place? s.file ≠ some gone := by
  rw [unread, unread, documents_remove ht hfree hgone hroots, List.filterMap_filter, List.filter_filterMap]
  refine List.filterMap_congr fun p hp => ?_
  by_cases hplace : t.place? p = some gone
  · rw [if_neg (by simpa using hplace)]
    cases t.readDocument search.maxFileSize p <;> simp [hplace, Option.filter]
  · rw [if_pos (by simpa using hplace), readDocument_remove ht hfree hgone hp hplace]
    cases t.readDocument search.maxFileSize p <;> simp [hplace, Option.filter]

/-- The skips of a run without a file: all but those of the documents that lead to the file. -/
theorem skipped_remove :
    (t.remove gone).unvisited search ++ (t.remove gone).unread search =
      (t.unvisited search ++ t.unread search).filter fun s =>
        ¬(s.isUnread = true ∧ t.place? s.file = some gone) := by
  rw [List.filter_append, unvisited_remove ht hfree hgone hroots, unread_remove ht hfree hgone hroots]
  congr 1
  · refine (List.filter_eq_self.2 fun s hs => ?_).symm
    simp [isUnread_eq_false_of_mem_unvisited hs]
  · refine List.filter_congr fun s hs => ?_
    simp [isUnread_of_mem_unread hs]

end

/-- In a tree without links a document is read exactly if the system has nothing against it, its file keeps the limit
and the bytes are UTF-8. The system has something against a path that is too long, and nothing else where it refuses
nothing. A document that it has something against is skipped as unreadable, with the fault; any other over the limit
as too large, whatever its bytes are. The run counts every document once, and its issues are those of the texts it
reads, in their order. A file that no document reads and no path of the search leads to may as well not be there:
without it the run reports the same but for the skips of the documents that lead to it. -/
theorem lint_reads_documents (ht : t.WellFormed) (hfree : t.LinkFree) {checks : Checks} {r : Report}
    (h : t.lint search checks = .ok r) :
    r.scannedFiles + r.skippedFiles = (t.documents search).length ∧
      r.scannedFiles = (t.scanned search).length ∧
      ((t.scanned search).map Prod.fst).Sublist (t.documents search) ∧
      (∀ path ∈ t.documents search, ∃ location bytes,
        t.place? path = some location ∧ t.entry? location = some (.file bytes) ∧
        (∀ text, (path, text) ∈ t.scanned search ↔ (∀ fault, ¬t.ReadRefused search.maxFileSize path fault) ∧
          bytes.size ≤ search.maxFileSize ∧ Utf8.decode? bytes = some text) ∧
        (∀ fault, t.ReadRefused search.maxFileSize path fault →
          ⟨path, .unreadable, "Failed to read file: ".toList ++ fault.message⟩ ∈ r.skipped) ∧
        ((∀ fault, ¬t.ReadRefused search.maxFileSize path fault) → search.maxFileSize < bytes.size →
          ⟨path, .tooLarge, (ReadFault.tooLarge search.maxFileSize).message⟩ ∈ r.skipped) ∧
        ((∀ fault, ¬t.ReadRefused search.maxFileSize path fault) → bytes.size ≤ search.maxFileSize →
          Utf8.decode? bytes = none → ⟨path, .notUtf8, ReadFault.notUtf8.message⟩ ∈ r.skipped) ∧
        (exceeds maxPathBytes path = true → t.ReadRefused search.maxFileSize path .nameTooLong) ∧
        (t.RefusesNothing → exceeds maxPathBytes path = false →
          ∀ fault, ¬t.ReadRefused search.maxFileSize path fault)) ∧
      r.issues = (t.scanned search).flatMap (fun (path, text) => checks.issues path text) ∧
      (r.ok = true ↔ r.issues = []) ∧
      ∀ gone bytes, t.entry? gone = some (.file bytes) → (∀ root ∈ search.paths, t.place? root ≠ some gone) →
        (∀ path text, (path, text) ∈ t.scanned search → t.place? path ≠ some gone) →
        ∃ r', (t.remove gone).lint search checks = .ok r' ∧ r'.scannedFiles = r.scannedFiles ∧
          r'.issues = r.issues ∧ r'.ok = r.ok ∧ r'.exitCode = r.exitCode ∧
          r'.skipped = r.skipped.filter fun s => ¬(s.isUnread = true ∧ t.place? s.file = some gone) := by
  obtain ⟨hpaths, hexist, rfl⟩ := lint_eq_ok_iff.1 h
  refine ⟨length_scanned_add_length_unread t search, rfl, map_fst_scanned_sublist t search, fun path hp => ?_, rfl,
    List.isEmpty_iff, fun gone bytes hgone hroots hunread => ?_⟩
  · obtain ⟨hne, location, bytes, hplace, hfile⟩ := exists_place_of_mem_documents ht hfree hp
    have hunread : ∀ {fault : ReadFault}, t.readDocument search.maxFileSize path = .error fault →
        ⟨path, fault.reason, fault.message⟩ ∈ (t.report search checks).skipped := fun hread =>
      List.mem_append_right _ (mem_unread_of_error hp hread)
    refine ⟨location, bytes, hplace, hfile, fun text => ?_, fun fault hrefused => ?_, fun hnone hlarge => ?_,
      fun hnone hlimit hdecode => ?_, fun hlong => readRefused_of_exceeds hne hlong, fun hnothing hshort => ?_⟩
    · rw [mem_scanned_iff, readDocument_eq_ok_iff ht hplace hfile, and_iff_right hp]
    · exact hunread (readDocument_of_readRefused ht hrefused)
    · have hread := readDocument_of_not_readRefused ht hplace hfile hnone
      rw [if_pos hlarge] at hread
      exact hunread hread
    · have hread := readDocument_of_not_readRefused ht hplace hfile hnone
      rw [if_neg (Nat.not_lt.2 hlimit), hdecode] at hread
      exact hunread hread
    · exact hnothing.not_readRefused hne hshort hplace
  · have hkept : ∀ root ∈ search.paths, t.pathExists root = true ∧ t.place? root ≠ some gone :=
      fun root hroot => ⟨hexist root hroot, hroots root hroot⟩
    have hscanned := scanned_remove ht hfree hgone hkept hunread
    have hissues : ((t.remove gone).report search checks).issues = (t.report search checks).issues := by
      simp only [report, hscanned]
    have hok : ((t.remove gone).report search checks).ok = (t.report search checks).ok :=
      congrArg List.isEmpty hissues
    refine ⟨(t.remove gone).report search checks, lint_eq_ok_iff.2 ⟨hpaths, fun root hroot => ?_, rfl⟩,
      congrArg List.length hscanned, hissues, hok, ?_, skipped_remove ht hfree hgone hkept⟩
    · exact pathExists_remove hfree hgone (hexist root hroot) (hroots root hroot)
    · rw [Report.exitCode, Report.exitCode, hok]

end

/-- A document that is read, one that is too large, with the limit inside a character, one that is not UTF-8 and
goes, and one that may not be read. -/
theorem lint_reads_documents_of_directory :
    ∃ (t : FileTree) (search : Search) (r r' : Report) (gone : Location) (bytes : ByteArray) (fault : Fault),
      t.WellFormed ∧ t.LinkFree ∧ t.lint search {} = .ok r ∧
        t.documents search =
          ["docs/a.md".toList, "docs/b.md".toList, "docs/c.md".toList, "docs/d.md".toList] ∧
        t.scanned search = [("docs/a.md".toList, "ok\n".toList)] ∧ r.scannedFiles + r.skippedFiles = 4 ∧
        t.ReadRefused search.maxFileSize "docs/d.md".toList fault ∧
        r.skipped =
          [⟨"docs/b.md".toList, .tooLarge, "File exceeds maximum size of 4 bytes".toList⟩,
            ⟨"docs/c.md".toList, .notUtf8, "File is not valid UTF-8".toList⟩,
            ⟨"docs/d.md".toList, .unreadable, "Failed to read file: ".toList ++ fault.message⟩] ∧
        t.place? "docs/c.md".toList = some gone ∧ t.entry? gone = some (.file bytes) ∧
        (t.remove gone).lint search {} = .ok r' ∧ r'.scannedFiles = 1 ∧ r'.issues = r.issues ∧
        r'.skipped =
          [⟨"docs/b.md".toList, .tooLarge, "File exceeds maximum size of 4 bytes".toList⟩,
            ⟨"docs/d.md".toList, .unreadable, "Failed to read file: ".toList ++ fault.message⟩] := by
  let fault : Fault := .refused "Permission denied (os error 13)".toList
  let t : FileTree :=
    { entries :=
        [(["docs".toList], .directory), (["docs".toList, "a.md".toList], .file ⟨#[111, 107, 10]⟩),
          (["docs".toList, "b.md".toList], .file ⟨#[195, 169, 195, 169, 195, 169]⟩),
          (["docs".toList, "c.md".toList], .file ⟨#[255]⟩), (["docs".toList, "d.md".toList], .file ⟨#[111]⟩)]
      nodup := by decide
      refusals := fun l => if l = ["docs".toList, "d.md".toList] then { read := some (0, fault) } else {} }
  let search : Search := { paths := ["docs".toList], maxFileSize := 4 }
  have ht : t.WellFormed := by decide +kernel
  have hfree : t.LinkFree := by decide
  have hlint : t.lint search {} = .ok (t.report search {}) :=
    lint_eq_ok_iff.2 ⟨by decide, by decide +kernel, rfl⟩
  have hdocuments : t.documents search =
      ["docs/a.md".toList, "docs/b.md".toList, "docs/c.md".toList, "docs/d.md".toList] := by
    have hvisits : t.visits search =
        ["docs/a.md".toList, "docs/b.md".toList, "docs/c.md".toList, "docs/d.md".toList].map .file := by
      decide +kernel
    exact documents_of_selected hvisits (by decide +kernel)
      (sortPaths_eq (by decide +kernel) (by decide +kernel) (by decide +kernel))
  have hc : t.place? "docs/c.md".toList = some ["docs".toList, "c.md".toList] := by decide +kernel
  have hread : t.readDocument 4 "docs/a.md".toList = .ok "ok\n".toList := by decide +kernel
  have hlarge : t.readDocument 4 "docs/b.md".toList = .error (.tooLarge 4) := by decide +kernel
  have hnotUtf8 : t.readDocument 4 "docs/c.md".toList = .error .notUtf8 := by decide +kernel
  have hd : t.resolve .find "docs/d.md".toList = .ok ["docs".toList, "d.md".toList] := by decide +kernel
  have hrefused : t.ReadRefused 4 "docs/d.md".toList fault := .bytes hd rfl rfl (by decide) (by decide)
  have hunreadable := readDocument_of_readRefused ht hrefused
  have hscanned : t.scanned search = [("docs/a.md".toList, "ok\n".toList)] := by
    simp only [scanned, hdocuments, List.filterMap_cons, List.filterMap_nil, search, hread, hlarge, hnotUtf8,
      hunreadable]
  have hskipped : (t.report search {}).skipped =
      [⟨"docs/b.md".toList, .tooLarge, "File exceeds maximum size of 4 bytes".toList⟩,
        ⟨"docs/c.md".toList, .notUtf8, "File is not valid UTF-8".toList⟩,
        ⟨"docs/d.md".toList, .unreadable, "Failed to read file: ".toList ++ fault.message⟩] := by
    have hunvisited : t.unvisited search = [] := by decide +kernel
    simp only [report, hunvisited, unread, hdocuments, List.filterMap_cons, List.filterMap_nil, search, hread, hlarge,
      hnotUtf8, hunreadable]
    decide +kernel
  obtain ⟨hcount, hlength, -, -, -, -, hremove⟩ := lint_reads_documents ht hfree hlint
  obtain ⟨r', hlint', hscanned', hissues, -, -, hskipped'⟩ :=
    hremove ["docs".toList, "c.md".toList] ⟨#[255]⟩ rfl (by decide +kernel) fun path text hmem => by
      rw [hscanned] at hmem
      cases List.mem_singleton.1 hmem
      decide +kernel
  refine ⟨t, search, _, r', _, ⟨#[255]⟩, fault, ht, hfree, hlint, hdocuments, hscanned, ?_, hrefused, hskipped, hc, rfl,
    hlint', ?_, hissues, ?_⟩
  · rw [hcount, hdocuments]
    rfl
  · rw [hscanned', hlength, hscanned]
    rfl
  · rw [hskipped', hskipped]
    decide +kernel

/-- A document of three bytes below a root of as many bytes as a path may have: what is found has more bytes, and
no system opens it. -/
theorem lint_skips_document_below_long_root :
    ∃ (t : FileTree) (search : Search) (r : Report) (path : Text) (location : Location) (bytes : ByteArray),
      search.paths = ['.' :: List.replicate 4094 '/'] ∧ t.WellFormed ∧ t.LinkFree ∧ t.lint search {} = .ok r ∧
        path ∈ t.documents search ∧ t.place? path = some location ∧ t.entry? location = some (.file bytes) ∧
        bytes.size ≤ search.maxFileSize ∧ Utf8.decode? bytes = some "ok\n".toList ∧ r.scannedFiles = 0 ∧
        r.skipped = [⟨path, .unreadable, "Failed to read file: File name too long (os error 36)".toList⟩] := by
  -- The number of slashes stays a variable, so that no step looks at the path as a list of so many characters.
  obtain ⟨n, hn⟩ : ∃ n, n + 1 = 4094 := ⟨4093, rfl⟩
  rw [← hn]
  let root : Text := '.' :: List.replicate (n + 1) '/'
  let path : Text := join root "a.md".toList
  let search : Search := .ofRoot root
  let bytes : ByteArray := ⟨#[111, 107, 10]⟩
  let t : FileTree := { entries := [(["a.md".toList], .file bytes)], nodup := by decide }
  have ht : t.WellFormed := by decide +kernel
  have hfree : t.LinkFree := by decide
  have hroot : ∀ c ∈ root, c.utf8Size = 1 := by
    intro c hc
    rcases List.mem_cons.1 hc with rfl | hc
    · rfl
    · rw [List.eq_of_mem_replicate hc]
      rfl
  have hshort : exceeds maxPathBytes root = false := by
    rw [exceeds_of_one_byte hroot, List.length_cons, List.length_replicate, hn]
    rfl
  have hlong : exceeds maxPathBytes path = true := by
    have hslash : root.getLast? = some '/' :=
      List.getLast?_eq_some_iff.2 ⟨'.' :: List.replicate n '/', by rw [List.cons_append, ← List.replicate_succ']⟩
    have hpath : path = root ++ "a.md".toList := if_pos hslash
    have hname : "a.md".toList.all (fun c => c.utf8Size = 1) = true := by decide
    have hbytes : ∀ c ∈ root ++ "a.md".toList, c.utf8Size = 1 := by
      intro c hc
      rcases List.mem_append.1 hc with hc | hc
      · exact hroot c hc
      · exact of_decide_eq_true (List.all_eq_true.1 hname c hc)
    rw [hpath, exceeds_of_one_byte hbytes, List.length_append, List.length_cons, List.length_replicate, hn]
    rfl
  have hfile : t.entry? ["a.md".toList] = some (.file bytes) := rfl
  have hworking : t.place? root = some [] := place?_dot_slashes hfree rfl n
  have hplace : t.place? path = some ["a.md".toList] :=
    place?_join ht hfree (List.cons_ne_nil _ _) hworking rfl hfile
  have hopen : t.Open := fun _ => rfl
  have hstatus : t.status root = .ok ([], .directory) :=
    status_of_place? hopen (List.cons_ne_nil _ _) hshort hworking rfl
  have hlist : t.listFault? root [] = none := by
    rw [listFault?, (status_eq_ok_iff.1 hstatus).1]
  have hvisits : t.visits search = [.file path] := by
    have hchildren : t.children [] = [("a.md".toList, .file bytes)] := rfl
    have hwalk : t.visits search = t.walk search.walkOptions root := List.append_nil _
    rw [hwalk, walk, hstatus]
    dsimp only [Search.walkOptions, search, Search.ofRoot]
    rw [walkDirectory, hlist, hchildren]
    rfl
  have hselects : search.selects path = true := by
    rw [Search.selects, isMarkdown, fileName?_join (List.cons_ne_nil _ _) (by decide)]
    rfl
  have hdocuments : t.documents search = [path] := documents_of_visits hvisits hselects
  have hread : t.readDocument search.maxFileSize path = .error (.system Fault.nameTooLong.message) :=
    readDocument_of_readRefused ht (readRefused_of_exceeds (join_ne_nil _ _) hlong)
  have hscanned : t.scanned search = [] := by
    rw [scanned, hdocuments, List.filterMap_cons, hread]
    rfl
  have hunread : t.unread search =
      [⟨path, .unreadable, "Failed to read file: File name too long (os error 36)".toList⟩] := by
    rw [unread, hdocuments, List.filterMap_cons, hread]
    rfl
  have hskipped : t.unvisited search ++ t.unread search =
      [⟨path, .unreadable, "Failed to read file: File name too long (os error 36)".toList⟩] := by
    rw [unvisited, hvisits, hunread]
    rfl
  have hsize : bytes.size ≤ 10485760 := by decide
  refine ⟨t, search, t.report search {}, path, ["a.md".toList], bytes, rfl, ht, hfree, ?_, ?_, hplace, hfile,
    hsize, Utf8.decode?_eq_some_iff.2 rfl, congrArg List.length hscanned, hskipped⟩
  · refine lint_eq_ok_iff.2 ⟨List.cons_ne_nil _ _, fun p hp => ?_, rfl⟩
    rw [List.mem_singleton.1 hp, pathExists, hstatus]
    rfl
  · rw [hdocuments]
    exact List.mem_singleton_self _

end MarkdownLinks.FileTree
