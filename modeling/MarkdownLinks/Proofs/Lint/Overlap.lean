import MarkdownLinks.Proofs.Lint.Checks
import Mathlib.Data.List.Nodup

/-! Roots of a search that lead to a common document. Documents are told apart as paths, so a file is a document once
for every way that its path is spelled, and a way to spell it is that of a root with the names behind it. So each
file is a document once at most, if of two roots that lead to a common document the inner one is spelled as the
outer one with the names between them; and only then. In particular that is so if the roots differ only in the
names behind a common front. -/

namespace MarkdownLinks.FileTree

open MarkdownLinks.Path

/-- Whether roots that lead to a common document are spelled alike: the inner one is, as a path, the outer one with
the names that lead from the one place to the other. -/
def SpelledAlike (t : FileTree) (search : Search) : Prop :=
  ∀ root ∈ search.paths, ∀ inner ∈ search.paths, ∀ location names e e',
    t.status root = .ok (location, e) → t.status inner = .ok (location ++ names, e') →
      (∃ more bytes, t.entry? (location ++ names ++ more) = some (.file bytes) ∧
        Found t search (joinAll root (names ++ more)) ∧ Found t search (joinAll inner more)) →
      components inner = components root ++ names.map .name

/-- Whether the paths of a search differ only in the names behind a common front. -/
def OneFront (search : Search) : Prop :=
  ∃ front : List Component, ∀ root ∈ search.paths, ∃ names : List Text, components root = front ++ names.map .name

section
variable {t : FileTree} {search : Search} {path root inner : Text} {location : Location} {names more : List Text}
  {e e' : Entry}

theorem foldl_placeBehind_names (location : Location) (names : List Text) :
    (names.map Component.name).foldl placeBehind location = location ++ names := by
  induction names generalizing location with
  | nil => exact (List.append_nil location).symm
  | cons name names ih =>
      rw [List.map_cons, List.foldl_cons, ih, placeBehind, List.append_assoc, List.singleton_append]

theorem place?_eq_foldl (hfree : t.LinkFree) (h : t.place? path = some location) :
    location = (components path).foldl placeBehind t.working := by
  rw [((place?_eq_some_iff hfree).1 h).eq_foldl, foldl_placeBehind_components]

/-- A path that is, as a path, another one with names behind it can lead nowhere but to the place behind the
names. -/
theorem eq_of_components_eq_joinAll (hfree : t.LinkFree) (hroot : t.status root = .ok (location, e))
    (hnames : ∀ n ∈ names, IsName n) (hcomponents : components path = components (joinAll root names)) {l : Location}
    (h : t.place? path = some l) : l = location ++ names := by
  obtain ⟨hne, hplace, -⟩ := place?_of_status hroot
  rw [place?_eq_foldl hfree h, hcomponents, components_joinAll hne hnames, List.foldl_append,
    ← place?_eq_foldl hfree hplace, foldl_placeBehind_names]

/-- With a common front, every root is spelled as the roots around it. -/
theorem OneFront.spelledAlike (hfree : t.LinkFree) (h : OneFront search) : t.SpelledAlike search := by
  obtain ⟨front, hfront⟩ := h
  have hplace : ∀ {root location e names}, components root = front ++ names.map .name →
      t.status root = .ok (location, e) → location = front.foldl placeBehind t.working ++ names := by
    intro root location e names hcomponents hstatus
    rw [place?_eq_foldl hfree (place?_of_status hstatus).2.1, hcomponents, List.foldl_append,
      foldl_placeBehind_names]
  intro root hroot inner hinner location names e e' hlocation hbelow _
  obtain ⟨rootNames, hrootNames⟩ := hfront root hroot
  obtain ⟨innerNames, hinnerNames⟩ := hfront inner hinner
  have hnames := hplace hinnerNames hbelow
  rw [hplace hrootNames hlocation, List.append_assoc] at hnames
  rw [hrootNames, hinnerNames, ← List.append_cancel_left hnames, List.map_append, List.append_assoc]

theorem exists_document_of_found (hfree : t.LinkFree) (hentered : ∀ p fault, .fault p fault ∉ t.visits search)
    (h : Found t search path) : ∃ p ∈ t.documents search, components p = components path :=
  exists_mem_sortPaths_iff.2
    ⟨path, mem_candidates_iff.2 (mem_candidates_of_found (fun _ => hfree) hentered h), rfl⟩

section
variable (ht : t.WellFormed) (hfree : t.LinkFree)

include ht hfree

omit hfree in
/-- Spelled alike, two roots spell a common document alike. -/
theorem SpelledAlike.components_joinAll_eq (halike : t.SpelledAlike search) (hroot : root ∈ search.paths)
    (hinner : inner ∈ search.paths) (hlocation : t.status root = .ok (location, e))
    (hbelow : t.status inner = .ok (location ++ names, e')) {bytes : ByteArray}
    (hfile : t.entry? (location ++ names ++ more) = some (.file bytes))
    (hrootFound : Found t search (joinAll root (names ++ more))) (hinnerFound : Found t search (joinAll inner more)) :
    components (joinAll root (names ++ more)) = components (joinAll inner more) := by
  have hisName : ∀ n ∈ names ++ more, IsName n := fun n hn => by
    rw [List.append_assoc] at hfile
    exact (ht.isName_of_entry hfile (List.mem_append_right _ hn)).1
  have hcomponents := halike root hroot inner hinner location names e e' hlocation hbelow
    ⟨more, bytes, hfile, hrootFound, hinnerFound⟩
  rw [components_joinAll (place?_of_status hlocation).1 hisName,
    components_joinAll (place?_of_status hbelow).1 fun n hn => hisName n (List.mem_append_right _ hn), hcomponents,
    List.map_append, List.append_assoc]

/-- Documents that lead to one file are equal, if roots that lead to a common document are spelled alike. -/
theorem SpelledAlike.eq_of_place?_eq (halike : t.SpelledAlike search) {p q : Text} (hp : p ∈ t.documents search)
    (hq : q ∈ t.documents search) (h : t.place? p = t.place? q) : p = q := by
  refine eq_of_mem_sortPaths hp hq ?_
  have hpFound := found_of_mem_documents ht (fun _ => hfree) hp
  have hqFound := found_of_mem_documents ht (fun _ => hfree) hq
  obtain ⟨root, hroot, hp⟩ := hpFound.exists_root
  obtain ⟨inner, hinner, hq⟩ := hqFound.exists_root
  obtain ⟨l, e, names, bytes, hl, -, rfl, hpPlace, hpFile⟩ := hp.exists_names ht hfree
  obtain ⟨l', e', names', bytes', hl', -, rfl, hqPlace, hqFile⟩ := hq.exists_names ht hfree
  rw [hpPlace, hqPlace, Option.some.injEq] at h
  rcases List.append_eq_append_iff.1 h with ⟨between, rfl, rfl⟩ | ⟨between, rfl, rfl⟩
  · exact halike.components_joinAll_eq ht hroot hinner hl hl' hqFile hpFound hqFound
  · exact (halike.components_joinAll_eq ht hinner hroot hl' hl hpFile hqFound hpFound).symm

/-- If no two documents lead to one file, roots that lead to a common document are spelled alike, as far as the walks
can enter the directories that they come to. -/
theorem spelledAlike_of_eq_of_place?_eq (hentered : ∀ p fault, .fault p fault ∉ t.visits search)
    (h : ∀ p ∈ t.documents search, ∀ q ∈ t.documents search, t.place? p = t.place? q → p = q) :
    t.SpelledAlike search := by
  intro root hroot inner hinner location names e e' hlocation hbelow
  rintro ⟨more, bytes, hfile, hrootFound, hinnerFound⟩
  rw [List.append_assoc] at hfile
  have hisName : ∀ n ∈ names ++ more, IsName n := fun n hn =>
    (ht.isName_of_entry hfile (List.mem_append_right _ hn)).1
  have hmore : ∀ n ∈ more, IsName n := fun n hn => hisName n (List.mem_append_right _ hn)
  obtain ⟨p, hp, hpComponents⟩ := exists_document_of_found hfree hentered hrootFound
  obtain ⟨q, hq, hqComponents⟩ := exists_document_of_found hfree hentered hinnerFound
  obtain ⟨-, l, -, hl, -⟩ := exists_place_of_mem_documents ht hfree hp
  obtain ⟨-, l', -, hl', -⟩ := exists_place_of_mem_documents ht hfree hq
  have hsame : t.place? p = t.place? q := by
    rw [hl, hl', eq_of_components_eq_joinAll hfree hlocation hisName hpComponents hl,
      eq_of_components_eq_joinAll hfree hbelow hmore hqComponents hl', List.append_assoc]
  rw [h p hp q hq hsame, hqComponents, components_joinAll (place?_of_status hlocation).1 hisName,
    components_joinAll (place?_of_status hbelow).1 hmore, List.map_append, ← List.append_assoc] at hpComponents
  exact List.append_cancel_right hpComponents

end

theorem nodup_place?_iff :
    ((t.documents search).map t.place?).Nodup ↔
      ∀ p ∈ t.documents search, ∀ q ∈ t.documents search, t.place? p = t.place? q → p = q :=
  ⟨fun h _ hp _ hq heq => List.inj_on_of_nodup_map h hp hq heq,
    fun h => (nodup_sortPaths _).map_on fun p hp q hq => h p hp q hq⟩

theorem nodup_place?_scanned (h : ((t.documents search).map t.place?).Nodup) :
    ((t.scanned search).map fun e => t.place? e.1).Nodup := by
  have hscanned := h.sublist ((map_fst_scanned_sublist t search).map t.place?)
  rwa [List.map_map] at hscanned

/-- If no two documents lead to one file, the issues of a file are those of the one text that was read there. -/
theorem issues_of_place (h : ((t.documents search).map t.place?).Nodup) (checks : Checks) {text : Text}
    (hread : (path, text) ∈ t.scanned search) :
    (t.report search checks).issues.filter (fun i => t.place? i.file = t.place? path) = checks.issues path text := by
  refine filter_flatMap_of_nodup (fun e _ i hi => ?_) (nodup_place?_scanned h) hread
  rw [checks.file_of_mem_issues hi]

end

/-- The documents of a search in a tree without links. No two of them are equal as paths, and each leads to a file.
No two of them lead to one file, if the roots that lead to a common document are spelled alike, as they are if they
differ only in the names behind a common front; and only then, as far as the walks can enter the directories that
they come to. And if no two of them do, a run reads every file once at most, and its issues in a file are those of
the text that it read there. -/
theorem documents_lead_to_distinct_files {t : FileTree} (ht : t.WellFormed) (hfree : t.LinkFree) (search : Search) :
    (t.documents search).Pairwise (fun p q => components p ≠ components q) ∧
      (∀ p ∈ t.documents search, ∃ location bytes,
        t.place? p = some location ∧ t.entry? location = some (.file bytes)) ∧
      (OneFront search → t.SpelledAlike search) ∧
      (t.SpelledAlike search → ((t.documents search).map t.place?).Nodup) ∧
      ((∀ p fault, .fault p fault ∉ t.visits search) → ((t.documents search).map t.place?).Nodup →
        t.SpelledAlike search) ∧
      ∀ checks r, t.lint search checks = .ok r → ((t.documents search).map t.place?).Nodup →
        r.scannedFiles = (t.scanned search).length ∧ ((t.scanned search).map fun e => t.place? e.1).Nodup ∧
          ∀ path text, (path, text) ∈ t.scanned search →
            r.issues.filter (fun i => t.place? i.file = t.place? path) = checks.issues path text := by
  refine ⟨?_, fun p hp => (exists_place_of_mem_documents ht hfree hp).2, OneFront.spelledAlike hfree,
    fun halike => ?_, fun hentered hnodup => ?_, fun checks r hlint hnodup => ?_⟩
  · refine (sortPaths_pairwise _).imp fun {p q} hlt heq => ?_
    rw [key_eq_iff.2 heq] at hlt
    exact lt_irrefl _ hlt
  · exact nodup_place?_iff.2 fun p hp q hq => halike.eq_of_place?_eq ht hfree hp hq
  · exact spelledAlike_of_eq_of_place?_eq ht hfree hentered (nodup_place?_iff.1 hnodup)
  · obtain ⟨-, -, rfl⟩ := lint_eq_ok_iff.1 hlint
    exact ⟨rfl, nodup_place?_scanned hnodup, fun path text => issues_of_place hnodup checks⟩

/-- Roots that overlap, lie in one another, are repeated and have slashes of all kinds: a directory, one below it and
a document in that. -/
theorem documents_lead_to_distinct_files_of_overlap :
    ∃ (t : FileTree) (search : Search) (r : Report) (text : Text), t.WellFormed ∧ t.LinkFree ∧
      search.paths = ["docs".toList, "docs//sub/".toList, "docs/sub/./a.md".toList, "docs".toList] ∧
      t.documents search = ["docs/sub/a.md".toList] ∧ t.lint search {} = .ok r ∧ r.scannedFiles = 1 ∧
      r.issues.filter (fun i => t.place? i.file = t.place? "docs/sub/a.md".toList) =
        Checks.issues {} "docs/sub/a.md".toList text ∧ r.issues.length = 1 := by
  let text : Text := "[A.md](A.md)\n".toList
  let t : FileTree :=
    { entries :=
        [(["docs".toList], .directory), (["docs".toList, "sub".toList], .directory),
          (["docs".toList, "sub".toList, "a.md".toList], .file (Utf8.encode text).toByteArray)]
      nodup := by decide }
  let search : Search :=
    { paths := ["docs".toList, "docs//sub/".toList, "docs/sub/./a.md".toList, "docs".toList] }
  have ht : t.WellFormed := by decide +kernel
  have hfree : t.LinkFree := by decide
  have hfront : OneFront search := by
    have hnames : ∀ root ∈ search.paths,
        components root = [] ++ ((components root).filterMap Component.name?).map .name := by
      decide +kernel
    exact ⟨[], fun root hroot => ⟨_, hnames root hroot⟩⟩
  have hdocuments : t.documents search = ["docs/sub/a.md".toList] := by
    have hvisits : t.visits search =
        ["docs/sub/a.md".toList, "docs//sub/a.md".toList, "docs/sub/./a.md".toList,
          "docs/sub/a.md".toList].map .file := by
      decide +kernel
    exact documents_of_selected hvisits (by decide +kernel)
      (sortPaths_eq (by decide +kernel) (by decide +kernel) (by decide +kernel))
  have hread : t.readDocument search.maxFileSize "docs/sub/a.md".toList = .ok text := by
    have hplace : t.place? "docs/sub/a.md".toList = some ["docs".toList, "sub".toList, "a.md".toList] := by
      decide +kernel
    exact RefusesNothing.readDocument_eq_ok (fun _ => rfl) ht (by decide) (by decide) hplace rfl (by decide +kernel)
      (Utf8.decode?_encode _)
  have hscanned : t.scanned search = [("docs/sub/a.md".toList, text)] := scanned_of_documents hdocuments hread
  have hlint : t.lint search {} = .ok (t.report search {}) :=
    lint_eq_ok_iff.2 ⟨by decide, by decide +kernel, rfl⟩
  obtain ⟨-, -, halike, hnodup, -, hreport⟩ := documents_lead_to_distinct_files ht hfree search
  obtain ⟨hcount, -, hissues⟩ := hreport {} _ hlint (hnodup (halike hfront))
  refine ⟨t, search, _, text, ht, hfree, rfl, hdocuments, hlint, ?_, hissues _ _ ?_, ?_⟩
  · rw [hcount, hscanned]
    rfl
  · rw [hscanned]
    exact List.mem_singleton_self _
  · rw [report, hscanned]
    decide +kernel

/-- One document, given as a root in two ways. -/
theorem documents_lead_to_one_file :
    ∃ (t : FileTree) (search : Search) (location : Location) (r : Report), t.WellFormed ∧ t.LinkFree ∧
      t.entries.length = 1 ∧ search.paths = ["a.md".toList, "./a.md".toList] ∧
      (∀ root ∈ search.paths, t.pathExists root = true ∧ t.place? root = some location) ∧
      t.documents search = ["./a.md".toList, "a.md".toList] ∧ t.lint search {} = .ok r ∧ r.scannedFiles = 2 ∧
      r.issues.map Issue.file = ["./a.md".toList, "a.md".toList] := by
  let text : Text := "[A.md](A.md)\n".toList
  let t : FileTree :=
    { entries := [(["a.md".toList], .file (Utf8.encode text).toByteArray)]
      nodup := by decide }
  let search : Search := { paths := ["a.md".toList, "./a.md".toList] }
  have ht : t.WellFormed := by decide +kernel
  have hplaces : ∀ root ∈ search.paths, t.pathExists root = true ∧ t.place? root = some ["a.md".toList] := by
    decide +kernel
  have hdocuments : t.documents search = ["./a.md".toList, "a.md".toList] := by
    have hvisits : t.visits search = ["a.md".toList, "./a.md".toList].map .file := by decide +kernel
    exact documents_of_selected hvisits (by decide +kernel)
      (sortPaths_eq (by decide +kernel) (by decide +kernel) (by decide +kernel))
  have hread : ∀ root ∈ search.paths, t.readDocument search.maxFileSize root = .ok text := by
    have hshort : ∀ root ∈ search.paths, root ≠ [] ∧ exceeds maxPathBytes root = false := by decide
    exact fun root hroot => RefusesNothing.readDocument_eq_ok (fun _ => rfl) ht (hshort root hroot).1
      (hshort root hroot).2 (hplaces root hroot).2 rfl (by decide +kernel) (Utf8.decode?_encode _)
  have hscanned : t.scanned search = [("./a.md".toList, text), ("a.md".toList, text)] := by
    rw [scanned, hdocuments, List.filterMap_cons, hread _ (by decide), List.filterMap_cons, hread _ (by decide)]
    rfl
  refine ⟨t, search, ["a.md".toList], t.report search {}, ht, by decide, rfl, rfl, hplaces, hdocuments,
    lint_eq_ok_iff.2 ⟨by decide, fun root hroot => (hplaces root hroot).1, rfl⟩, ?_, ?_⟩
  · rw [report, hscanned]
    rfl
  · rw [report, hscanned]
    decide +kernel

end MarkdownLinks.FileTree
