import MarkdownLinks.Proofs.FileTree.LeadingDot
import MarkdownLinks.Proofs.Lint.Checks

/-! A run over a directory whose path is given with a dot in front or without. Either run finds the same files,
below the path as it was given, and leaves out those that an exclude pattern accepts by that path. So the two
reports agree, up to the dot in front of the paths, if no pattern and no limit on the length of paths tells the two
ways to write a path apart; the patterns can do so. -/

namespace MarkdownLinks

open MarkdownLinks.Path

/-- A report on a document under another path is the report with the path put into it. -/
theorem Checks.issues_mapFile (checks : Checks) (f : Text → Text) (file content : Text) :
    checks.issues (f file) content = (checks.issues file content).map fun i => { i with file := f i.file } := by
  have htexts : Check.rawTextIssues (f file) content =
      (Check.rawTextIssues file content).map fun i => { i with file := f i.file } := by
    rw [Check.rawTextIssues, Check.rawTextIssues, List.map_flatMap]
    refine List.flatMap_congr fun line _ => ?_
    rw [List.map_map]
    rfl
  have htargets : Check.unescapedIssues checks.targetFences (f file) content =
      (Check.unescapedIssues checks.targetFences file content).map fun i => { i with file := f i.file } := by
    rw [Check.unescapedIssues, Check.unescapedIssues, List.map_flatMap]
    refine List.flatMap_congr fun line _ => ?_
    rw [Check.unescapedIssuesOfLine, Check.unescapedIssuesOfLine, List.map_append, List.map_map, List.map_map]
    rfl
  rw [issues, issues, List.map_append, htexts, htargets]
  cases checks.texts <;> cases checks.targets <;> rfl

namespace FileTree

/-- The path of a file that was come across. -/
def Visit.file? : Visit → Option Text
  | .file path => some path
  | .fault .. => none

section
variable {t : FileTree} {search : Search} {d path : Text} {location : Location}

theorem documents_eq (t : FileTree) (search : Search) :
    t.documents search = sortPaths (((t.visits search).filterMap Visit.file?).filter search.selects) := by
  rw [documents, List.filter_filterMap]
  congr 2
  funext v
  cases v with
  | file path => simp [Visit.file?, Option.filter]
  | fault path cause => rfl

theorem filterMap_file?_mapPath (f : Text → Text) (vs : List Visit) :
    (vs.map (Visit.mapPath f)).filterMap Visit.file? = (vs.filterMap Visit.file?).map f := by
  rw [List.filterMap_map, List.map_filterMap]
  congr 1
  funext v
  cases v <;> rfl

/-- The markdown files of a search, those that an exclude pattern leaves out among them. -/
def found (t : FileTree) (search : Search) : List Text :=
  ((t.visits search).filterMap Visit.file?).filter isMarkdown

theorem documents_eq_found (t : FileTree) (search : Search) :
    t.documents search = sortPaths ((t.found search).filter fun p => !search.excludes p) := by
  rw [documents_eq, found, List.filter_filter]
  congr 2
  funext p
  rw [Search.selects, Bool.and_comm]

theorem documents_of_no_exclude (t : FileTree) (search : Search) :
    t.documents { search with exclude := [] } = sortPaths (t.found search) := by
  rw [documents_eq_found]
  exact congrArg sortPaths (List.filter_eq_self.2 fun p _ => rfl)

theorem mem_found_of_mem_documents (h : path ∈ t.documents search) : path ∈ t.found search := by
  rw [documents_eq_found] at h
  exact (List.mem_filter.1 (mem_of_mem_sortPaths h)).1

section
variable (ht : t.WellFormed) (hfree : t.LinkFree) (hpaths : search.paths = [d])
  (hd : t.status d = .ok (location, .directory))

include ht hfree hpaths hd

/-- What is found below one path is told by the names behind it. -/
theorem exists_names_of_mem_found (h : path ∈ t.found search) :
    ∃ names bytes, (∀ n ∈ names, IsName n) ∧ path = joinAll d names ∧ t.place? path = some (location ++ names) ∧
      t.entry? (location ++ names) = some (.file bytes) := by
  obtain ⟨v, hv, hfile⟩ := List.mem_filterMap.1 (List.mem_filter.1 h).1
  cases v with
  | fault p cause => cases hfile
  | file p =>
      obtain rfl := Option.some.inj hfile
      rw [visits, hpaths, List.flatMap_singleton] at hv
      obtain ⟨l, e, names, bytes, hl, hnames, hpath, hplace, hentry⟩ :=
        (foundFrom_of_mem_walk ht (fun _ => hfree) hv).exists_names ht hfree
      cases hd.symm.trans hl
      exact ⟨names, bytes, hnames, hpath, hplace, hentry⟩

/-- Below one path, paths are equal as paths only if they are equal. -/
theorem eq_of_mem_found {p q : Text} (hp : p ∈ t.found search) (hq : q ∈ t.found search)
    (h : components p = components q) : p = q := by
  obtain ⟨hne, -, -⟩ := place?_of_status hd
  obtain ⟨names, -, hnames, rfl, -⟩ := exists_names_of_mem_found ht hfree hpaths hd hp
  obtain ⟨more, -, hmore, rfl, -⟩ := exists_names_of_mem_found ht hfree hpaths hd hq
  rw [eq_of_components_joinAll hne hnames hmore h]

/-- The documents below one path are those without the exclude patterns, less the ones that these accept. -/
theorem documents_eq_filter :
    t.documents search =
      (t.documents { search with exclude := [] }).filter fun p => !search.excludes p := by
  rw [documents_of_no_exclude, documents_eq_found]
  refine sortPaths_filter fun p hp q hq h => ?_
  rw [eq_of_mem_found ht hfree hpaths hd hp hq h]

variable (hrelative : d.head? ≠ some '/') (hfits : t.FitsFromHere d location)

include hrelative hfits

omit ht in
/-- With a dot in front of the path the same files are found. -/
theorem found_fromHere :
    t.found { search with paths := [fromHere d] } = (t.found search).map fromHere := by
  have hwalk := (walk_fromHere hfree search.walkOptions hrelative hd hfits).2
  have hvisits : t.visits { search with paths := [fromHere d] } = (t.visits search).map (Visit.mapPath fromHere) := by
    rw [visits, visits, hpaths, List.flatMap_singleton, List.flatMap_singleton]
    exact hwalk
  rw [found, found, hvisits, filterMap_file?_mapPath, List.filter_map]
  congr 2
  funext p
  exact isMarkdown_fromHere p

theorem documents_fromHere :
    t.documents { search with paths := [fromHere d] } =
      ((t.documents { search with exclude := [] }).filter fun p => !search.excludes (fromHere p)).map fromHere := by
  obtain ⟨hne, -, -⟩ := place?_of_status hd
  rw [documents_eq_found, found_fromHere hfree hpaths hd hrelative hfits, documents_of_no_exclude, List.filter_map,
    sortPaths_map, ← sortPaths_filter]
  · rfl
  · intro p hp q hq h
    rw [eq_of_mem_found ht hfree hpaths hd hp hq h]
  · intro p hp q hq
    obtain ⟨names, -, hnames, rfl, -⟩ := exists_names_of_mem_found ht hfree hpaths hd (List.mem_filter.1 hp).1
    obtain ⟨more, -, hmore, rfl, -⟩ := exists_names_of_mem_found ht hfree hpaths hd (List.mem_filter.1 hq).1
    exact le_fromHere hne hnames hmore

theorem readDocument_fromHere (h : path ∈ t.found search) (limit : Nat) :
    t.readDocument limit (fromHere path) = t.readDocument limit path := by
  obtain ⟨hne, -, -⟩ := place?_of_status hd
  obtain ⟨names, bytes, -, rfl, hplace, hfile⟩ := exists_names_of_mem_found ht hfree hpaths hd h
  have hlength := hfits names (by rw [hfile]; exact Option.some_ne_none _)
  rw [readDocument, readDocument, fileAt, fileAt,
    status_fromHere (joinAll_ne_nil hne names) (by rwa [head?_joinAll hne]) hlength]

variable (hpatterns : ∀ p ∈ t.documents { search with exclude := [] },
  search.excludes (fromHere p) = search.excludes p)

include hpatterns

/-- If the patterns leave out the same files, the documents are the same. -/
theorem documents_fromHere_of_patterns :
    t.documents { search with paths := [fromHere d] } = (t.documents search).map fromHere := by
  rw [documents_fromHere ht hfree hpaths hd hrelative hfits, documents_eq_filter ht hfree hpaths hd]
  congr 1
  refine List.filter_congr fun p hp => ?_
  rw [hpatterns p hp]

theorem scanned_fromHere :
    t.scanned { search with paths := [fromHere d] } =
      (t.scanned search).map fun (path, text) => (fromHere path, text) := by
  rw [scanned, scanned, documents_fromHere_of_patterns ht hfree hpaths hd hrelative hfits hpatterns,
    List.filterMap_map, List.map_filterMap]
  refine List.filterMap_congr fun p hp => ?_
  have hread := readDocument_fromHere ht hfree hpaths hd hrelative hfits (mem_found_of_mem_documents hp)
    search.maxFileSize
  rw [Function.comp_apply, hread]
  cases t.readDocument search.maxFileSize p <;> rfl

theorem unread_fromHere :
    t.unread { search with paths := [fromHere d] } =
      (t.unread search).map fun s => { s with file := fromHere s.file } := by
  rw [unread, unread, documents_fromHere_of_patterns ht hfree hpaths hd hrelative hfits hpatterns,
    List.filterMap_map, List.map_filterMap]
  refine List.filterMap_congr fun p hp => ?_
  have hread := readDocument_fromHere ht hfree hpaths hd hrelative hfits (mem_found_of_mem_documents hp)
    search.maxFileSize
  rw [Function.comp_apply, hread]
  cases t.readDocument search.maxFileSize p <;> rfl

end

/-- A directory in a tree without links, by a relative path, as the only path of a search; and the same path with a
dot in front. If the system takes the paths of what is in the directory either way or neither way, then of the same
markdown files each of the two runs leaves out those that an exclude pattern accepts by the path as it is written
or by the name. And if the patterns leave out the same ones, the reports agree up to the dot. -/
theorem lint_fromHere (ht : t.WellFormed) (hfree : t.LinkFree) (checks : Checks) (hpaths : search.paths = [d])
    (hrelative : d.head? ≠ some '/') (hd : t.status d = .ok (location, .directory))
    (hfits : t.FitsFromHere d location) :
    let all := t.documents { search with exclude := [] }
    t.documents search = all.filter (fun p => !search.excludes p) ∧
      t.documents { search with paths := [fromHere d] } =
        (all.filter fun p => !search.excludes (fromHere p)).map fromHere ∧
      ((∀ p ∈ all, search.excludes (fromHere p) = search.excludes p) →
        ∃ r r', t.lint search checks = .ok r ∧ t.lint { search with paths := [fromHere d] } checks = .ok r' ∧
          r'.scannedFiles = r.scannedFiles ∧ r'.skippedFiles = r.skippedFiles ∧
          r'.issues = r.issues.map fun i => { i with file := fromHere i.file }) := by
  refine ⟨documents_eq_filter ht hfree hpaths hd, documents_fromHere ht hfree hpaths hd hrelative hfits,
    fun hpatterns => ?_⟩
  have hscanned := scanned_fromHere ht hfree hpaths hd hrelative hfits hpatterns
  have hunread := unread_fromHere ht hfree hpaths hd hrelative hfits hpatterns
  have hfrom := (walk_fromHere hfree search.walkOptions hrelative hd hfits).1
  refine ⟨t.report search checks, t.report { search with paths := [fromHere d] } checks, ?_, ?_, ?_, ?_, ?_⟩
  · refine lint_eq_ok_iff.2 ⟨by rw [hpaths]; exact List.cons_ne_nil _ _, fun root hroot => ?_, rfl⟩
    rw [hpaths, List.mem_singleton] at hroot
    rw [hroot, pathExists, hd]
    rfl
  · refine lint_eq_ok_iff.2 ⟨List.cons_ne_nil _ _, fun root hroot => ?_, rfl⟩
    rw [List.mem_singleton.1 hroot, pathExists, hfrom]
    rfl
  · dsimp only [report]
    rw [hscanned, List.length_map]
  · dsimp only [report]
    rw [hunread, List.length_map]
  · dsimp only [report]
    rw [hscanned, List.flatMap_map, List.map_flatMap]
    refine List.flatMap_congr fun e _ => ?_
    exact checks.issues_mapFile fromHere e.1 e.2

end

/-- A document below a directory. One pattern leaves out the other document by its name, either way. -/
theorem lint_fromHere_of_directory :
    ∃ (t : FileTree) (search : Search) (location : Location) (r r' : Report),
      t.WellFormed ∧ t.LinkFree ∧ search.paths = ["docs".toList] ∧
        t.status "docs".toList = .ok (location, .directory) ∧ t.FitsFromHere "docs".toList location ∧
        t.documents search = ["docs/a.md".toList] ∧
        t.documents { search with paths := ["./docs".toList] } = ["./docs/a.md".toList] ∧
        t.lint search {} = .ok r ∧ t.lint { search with paths := ["./docs".toList] } {} = .ok r' ∧
        r.scannedFiles = 1 ∧ r'.scannedFiles = 1 ∧ r.issues.map Issue.file = ["docs/a.md".toList] ∧
        r'.issues.map Issue.file = ["./docs/a.md".toList] := by
  let text : Text := "[A.md](A.md)\n".toList
  let t : FileTree :=
    { entries :=
        [(["docs".toList], .directory), (["docs".toList, "b.md".toList], .file .empty),
          (["docs".toList, "a.md".toList], .file (Utf8.encode text).toByteArray)]
      nodup := by decide }
  let search : Search := { paths := ["docs".toList], exclude := ["b.*".toList] }
  have ht : t.WellFormed := by decide +kernel
  have hfree : t.LinkFree := by decide
  have hd : t.status "docs".toList = .ok (["docs".toList], .directory) :=
    status_eq_ok_iff.2 ⟨by decide +kernel, rfl⟩
  have hfits : t.FitsFromHere "docs".toList ["docs".toList] := by decide +kernel
  have hall : t.documents { search with exclude := [] } = ["docs/a.md".toList, "docs/b.md".toList] := by
    have hfound : t.found search = ["docs/b.md".toList, "docs/a.md".toList] := by decide +kernel
    rw [documents_of_no_exclude, hfound]
    exact sortPaths_eq (by decide +kernel) (by decide +kernel) (by decide +kernel)
  obtain ⟨hdocuments, hdocuments', hagree⟩ :=
    lint_fromHere ht hfree {} (rfl : search.paths = ["docs".toList]) (by decide) hd hfits
  rw [hall] at hdocuments hdocuments' hagree
  have hdocuments : t.documents search = ["docs/a.md".toList] := by
    rw [hdocuments]
    decide +kernel
  obtain ⟨r, r', hr, hr', hscanned', -, hissues⟩ := hagree (by decide +kernel)
  obtain rfl := (lint_eq_ok_iff.1 hr).2.2
  have hplace : t.place? "docs/a.md".toList = some ["docs".toList, "a.md".toList] := by decide +kernel
  have hread : t.readDocument search.maxFileSize "docs/a.md".toList = .ok text :=
    RefusesNothing.readDocument_eq_ok (fun _ => rfl) ht (by decide) (by decide) hplace rfl (by decide +kernel)
      (Utf8.decode?_encode _)
  have hscanned : t.scanned search = [("docs/a.md".toList, text)] := scanned_of_documents hdocuments hread
  have hone : (t.report search {}).scannedFiles = 1 := by
    rw [report, hscanned]
    rfl
  refine ⟨t, search, _, _, r', ht, hfree, rfl, hd, hfits, hdocuments, ?_, hr, hr', hone, hscanned'.trans hone, ?_, ?_⟩
  · refine Eq.trans hdocuments' ?_
    decide +kernel
  · rw [report, hscanned]
    decide +kernel
  · rw [hissues, report, hscanned]
    decide +kernel

/-- Whether two runs over a directory differ, one by a path of names and one by the same path with a dot in
front: in how many documents are read, or because one run fails. -/
def DiffersFromHere (t : FileTree) (search : Search) (d : Text) (scanned : Nat) (other : Except LintFault Nat) :
    Prop :=
  t.WellFormed ∧ t.LinkFree ∧ search.paths = [d] ∧ OfNames d ∧
    (∃ location, t.status d = .ok (location, .directory)) ∧
    (t.lint search {}).map Report.scannedFiles = .ok scanned ∧
    (t.lint { search with paths := [fromHere d] } {}).map Report.scannedFiles = other ∧ other ≠ .ok scanned

section
variable {t : FileTree} {search : Search} {path : Text}

theorem map_scannedFiles_lint (hpaths : search.paths = [path]) (hexists : t.pathExists path = true) :
    (t.lint search {}).map Report.scannedFiles = .ok (t.scanned search).length := by
  rw [lint_eq_ok_iff.2 ⟨by rw [hpaths]; exact List.cons_ne_nil _ _, fun root hroot => ?_, rfl⟩]
  · rfl
  · rw [hpaths] at hroot
    rwa [List.mem_singleton.1 hroot]

theorem scanned_of_found (h : (t.found search).filter (fun p => !search.excludes p) = []) : t.scanned search = [] := by
  rw [scanned, documents_eq_found, h, sortPaths, List.mergeSort_nil, dropRepeats, List.filterMap_nil]
  intro _ _ _ h
  cases h

end

/-- A pattern for the path of a document is not one for its path behind a dot. -/
theorem exists_pattern_differsFromHere : ∃ t search, DiffersFromHere t search "docs".toList 0 (.ok 1) := by
  let text : Text := "[A.md](A.md)\n".toList
  let t : FileTree :=
    { entries :=
        [(["docs".toList], .directory),
          (["docs".toList, "a.md".toList], .file (Utf8.encode text).toByteArray)]
      nodup := by decide }
  let search : Search := { paths := ["docs".toList], exclude := ["docs/a.md".toList] }
  have ht : t.WellFormed := by decide +kernel
  have hplace : t.place? "./docs/a.md".toList = some ["docs".toList, "a.md".toList] := by decide +kernel
  have hnone : t.scanned search = [] := scanned_of_found (by decide +kernel)
  have hone : t.scanned { search with paths := ["./docs".toList] } = [("./docs/a.md".toList, text)] := by
    refine scanned_of_documents (documents_of_visits (by decide +kernel) (by decide +kernel)) ?_
    exact RefusesNothing.readDocument_eq_ok (fun _ => rfl) ht (by decide) (by decide) hplace rfl (by decide +kernel)
      (Utf8.decode?_encode _)
  have hd : t.status "docs".toList = .ok (["docs".toList], .directory) :=
    status_eq_ok_iff.2 ⟨by decide +kernel, rfl⟩
  refine ⟨t, search, ht, by decide, rfl, by decide +kernel, ⟨_, hd⟩, ?_, ?_, by decide⟩
  · rw [map_scannedFiles_lint rfl (by decide +kernel), hnone]
    rfl
  · rw [map_scannedFiles_lint rfl (by decide +kernel)]
    exact congrArg (fun s => Except.ok s.length) hone

/-- A path may be as long as the system takes, and too long behind a dot. -/
theorem exists_length_differsFromHere : ∃ t search d fault, DiffersFromHere t search d 0 (.error fault) := by
  -- The number of slashes stays a variable, so that no step looks at the path as a list of so many characters.
  obtain ⟨n, hn⟩ : ∃ n, n + 1 = 4091 := ⟨4090, rfl⟩
  let d : Text := "docs".toList ++ List.replicate (n + 1) '/'
  let t : FileTree := { entries := [(["docs".toList], .directory)], nodup := by decide }
  let search : Search := .ofRoot d
  have hfree : t.LinkFree := by decide
  have hne : d ≠ [] := List.cons_ne_nil _ _
  have hnames : OfNames d := by
    intro c hc
    have hcomponents : components d = [.name "docs".toList] := components_append_slashes (by decide) n
    rw [hcomponents] at hc
    obtain rfl := List.mem_singleton.1 hc
    exact Option.some_ne_none _
  have hbytes : ∀ c ∈ d, c.utf8Size = 1 := by
    intro c hc
    rcases List.mem_append.1 hc with hc | hc
    · have hall : "docs".toList.all (fun c => c.utf8Size = 1) = true := by decide
      exact of_decide_eq_true (List.all_eq_true.1 hall c hc)
    · rw [List.eq_of_mem_replicate hc]
      rfl
  have hlength : d.length = 4095 := by
    rw [List.length_append, List.length_replicate, hn]
    rfl
  have hshort : exceeds maxPathBytes d = false := by
    rw [exceeds_of_one_byte hbytes, hlength]
    rfl
  have hlong : exceeds maxPathBytes (fromHere d) = true := by
    have hbytes : ∀ c ∈ fromHere d, c.utf8Size = 1 :=
      List.forall_mem_cons.2 ⟨rfl, List.forall_mem_cons.2 ⟨rfl, hbytes⟩⟩
    rw [exceeds_of_one_byte hbytes, fromHere, List.length_cons, List.length_cons, hlength]
    rfl
  have hplace : t.place? d = some ["docs".toList] :=
    place?_append_slashes hfree (by decide) (by decide +kernel) rfl n
  have hstatus : t.status d = .ok (["docs".toList], .directory) := status_of_place? (fun _ => rfl) hne hshort hplace rfl
  have hmissing : t.pathExists (fromHere d) = false := by
    rw [pathExists, status, resolve, if_neg (fromHere_ne_nil d), hlong]
    rfl
  have hnone : t.scanned search = [] := by
    refine scanned_of_found ?_
    have hvisits : t.visits search = [] := by
      have hchildren : t.children ["docs".toList] = [] := by decide +kernel
      have hlist : t.listFault? d ["docs".toList] = none := by
        rw [listFault?, (status_eq_ok_iff.1 hstatus).1]
      have hwalk : t.visits search = t.walk search.walkOptions d := List.append_nil _
      rw [hwalk, walk, hstatus]
      dsimp only [Search.walkOptions, search, Search.ofRoot]
      rw [walkDirectory, hlist, hchildren]
      rfl
    rw [found, hvisits]
    rfl
  refine ⟨t, search, d, .missing (fromHere d), by decide +kernel, hfree, rfl, hnames, ⟨_, hstatus⟩, ?_, ?_,
    fun h => by cases h⟩
  · rw [map_scannedFiles_lint rfl (by rw [pathExists, hstatus]; rfl), hnone]
    rfl
  · rw [lint, if_neg (List.cons_ne_nil _ _), List.find?_cons, hmissing]
    rfl

/-- Neither the patterns nor the limit on the length of paths can be left out of account. -/
theorem lint_fromHere_differs :
    (∃ t search, DiffersFromHere t search "docs".toList 0 (.ok 1)) ∧
      ∃ t search d fault, DiffersFromHere t search d 0 (.error fault) :=
  ⟨exists_pattern_differsFromHere, exists_length_differsFromHere⟩

end FileTree

end MarkdownLinks
