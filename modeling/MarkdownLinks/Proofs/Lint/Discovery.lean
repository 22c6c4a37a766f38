import MarkdownLinks.Proofs.FileTree.Resolve
import MarkdownLinks.Proofs.Lint.SortedPaths

/-! Which documents a search finds. A path is found from a root if it is the root itself, a file, or the root
joined with the names of a descent that is not deeper than the search goes; it is found by the search if it has
the markdown extension besides and no exclude pattern stands for it. As long as the walks of the search can
enter the directories they come to, the documents are, up to equality of paths, exactly the paths that are
found, in strictly increasing order. What a walk finds lies behind no link but one at the root itself. -/

namespace MarkdownLinks.FileTree

open MarkdownLinks.Path

/-- The paths that are found from a root: the root if it is a file, or else the ends of the descents below it,
down to a depth. The root may be a link, and its own name is not looked at. -/
inductive FoundFrom (t : FileTree) (search : Search) (root : Text) : Text → Prop
  | root {location : Location} {bytes : ByteArray} (h : t.status root = .ok (location, .file bytes)) :
      FoundFrom t search root root
  | below {location : Location} {names : List Text} (h : t.status root = .ok (location, .directory))
      (hlength : names.length ≤ search.maxDepth) (hdescent : Descent t search.skipDirs location names) :
      FoundFrom t search root (joinAll root names)

/-- A path that a search finds, as it is written. -/
structure Found (t : FileTree) (search : Search) (path : Text) : Prop where
  exists_root : ∃ root ∈ search.paths, FoundFrom t search root path
  isMarkdown : Path.isMarkdown path = true
  not_excluded : ∀ s ∈ search.exclude, ∀ pattern, Glob.parse s = .ok pattern →
    pattern.accepts (Native.display path) = false ∧
      ∀ name ∈ fileName? path, pattern.accepts (Native.display name) = false

section
variable {t : FileTree} {search : Search} {root path : Text}

theorem excludes_eq_false_iff :
    search.excludes path = false ↔ ∀ s ∈ search.exclude, ∀ pattern, Glob.parse s = .ok pattern →
      pattern.accepts (Native.display path) = false ∧
        ∀ name ∈ fileName? path, pattern.accepts (Native.display name) = false := by
  have hparse : ∀ (s : Text) (pattern : Glob.Pattern),
      (Glob.parse s).toOption = some pattern ↔ Glob.parse s = .ok pattern := fun s pattern => by
    cases Glob.parse s <;> simp [Except.toOption]
  simp only [Search.excludes, Search.patterns, List.any_eq_false, List.mem_filterMap, hparse, Bool.or_eq_true,
    not_or, Bool.not_eq_true, forall_exists_index, and_imp]
  constructor
  · intro h s hs pattern hpattern
    obtain ⟨hpath, hname⟩ := h pattern s hs hpattern
    refine ⟨hpath, fun name hmem => ?_⟩
    rw [Option.mem_def.1 hmem] at hname
    exact hname
  · intro h pattern s hs hpattern
    obtain ⟨hpath, hname⟩ := h s hs pattern hpattern
    refine ⟨hpath, ?_⟩
    cases hfile : fileName? path with
    | none => rfl
    | some name => exact hname name hfile

/-- What a walk that follows no links finds. -/
theorem foundFrom_of_mem_walk (ht : t.WellFormed) (hlinks : search.followLinks = true → t.LinkFree)
    (h : .file path ∈ t.walk search.walkOptions root) : FoundFrom t search root path := by
  rw [walk] at h
  split at h
  · cases List.mem_singleton.1 h
  · rename_i location hstatus
    obtain ⟨names, hlength, hdescent, rfl⟩ := exists_descent_of_mem_walkDirectory hlinks h
    exact .below hstatus hlength hdescent
  · rename_i result hnot hstatus
    obtain ⟨location, e⟩ := result
    cases List.mem_singleton.1 h
    cases e with
    | file bytes => exact .root hstatus
    | directory => exact absurd rfl (hnot location)
    | link target => cases isLink_of_status ht hstatus

/-- A walk that can enter every directory finds all there is. -/
theorem mem_walk_of_foundFrom (hlinks : search.followLinks = true → t.LinkFree) (h : FoundFrom t search root path)
    (hentered : ∀ p fault, .fault p fault ∉ t.walk search.walkOptions root) :
    .file path ∈ t.walk search.walkOptions root := by
  cases h with
  | root hstatus =>
      rw [walk, hstatus]
      exact List.mem_singleton_self _
  | below hstatus hlength hdescent =>
      rw [walk, hstatus] at hentered ⊢
      exact mem_walkDirectory_of_descent hlinks hdescent hlength hentered

theorem mem_candidates_iff :
    path ∈ ((t.visits search).filterMap fun
        | .file path => if search.selects path then some path else none
        | .fault .. => none) ↔ .file path ∈ t.visits search ∧ search.selects path = true := by
  rw [List.mem_filterMap]
  constructor
  · rintro ⟨v, hv, h⟩
    cases v with
    | file p =>
        dsimp only at h
        split at h
        · rename_i hselects
          cases h
          exact ⟨hv, hselects⟩
        · cases h
    | fault p fault => cases h
  · rintro ⟨hv, hselects⟩
    exact ⟨.file path, hv, if_pos hselects⟩

theorem found_of_mem_candidates (ht : t.WellFormed) (hlinks : search.followLinks = true → t.LinkFree)
    (hvisit : .file path ∈ t.visits search) (hselects : search.selects path = true) : Found t search path := by
  obtain ⟨root, hroot, hwalk⟩ := List.mem_flatMap.1 hvisit
  obtain ⟨hmarkdown, hexcludes⟩ := Bool.and_eq_true_iff.1 hselects
  refine ⟨⟨root, hroot, foundFrom_of_mem_walk ht hlinks hwalk⟩, hmarkdown, excludes_eq_false_iff.1 ?_⟩
  simpa using hexcludes

theorem mem_candidates_of_found (hlinks : search.followLinks = true → t.LinkFree)
    (hentered : ∀ p fault, .fault p fault ∉ t.visits search) (h : Found t search path) :
    .file path ∈ t.visits search ∧ search.selects path = true := by
  obtain ⟨root, hroot, hfound⟩ := h.exists_root
  refine ⟨List.mem_flatMap.2 ⟨root, hroot, mem_walk_of_foundFrom hlinks hfound fun p fault hfault => ?_⟩, ?_⟩
  · exact hentered p fault (List.mem_flatMap.2 ⟨root, hroot, hfault⟩)
  · rw [Search.selects, h.isMarkdown, excludes_eq_false_iff.2 h.not_excluded]
    rfl

theorem found_of_mem_documents (ht : t.WellFormed) (hlinks : search.followLinks = true → t.LinkFree)
    (h : path ∈ t.documents search) : Found t search path := by
  obtain ⟨hvisit, hselects⟩ := mem_candidates_iff.1 (mem_of_mem_sortPaths h)
  exact found_of_mem_candidates ht hlinks hvisit hselects

/-- The names on the way to what a walk finds are those of a descent, and a descent meets no link. -/
theorem components_ne_of_link (ht : t.WellFormed) (hlinks : search.followLinks = false) {location : Location}
    (hroot : t.status root = .ok (location, .directory)) {names : List Text} {target : Text}
    (hlink : t.entry? (location ++ names) = some (.link target)) {more : List Text}
    (hmore : ∀ n ∈ more, IsName n) (h : .file path ∈ t.walk search.walkOptions root) :
    components path ≠ components (joinAll root (names ++ more)) := by
  have hunfollowed : search.followLinks = true → t.LinkFree := fun hfollow => by
    rw [hlinks] at hfollow
    cases hfollow
  obtain ⟨hne, -, hdirectory⟩ := place?_of_status hroot
  have hnames : names ≠ [] := by
    rintro rfl
    rw [List.append_nil, hdirectory] at hlink
    cases hlink
  have hisName : ∀ n ∈ names ++ more, IsName n := fun n hn => by
    rcases List.mem_append.1 hn with hn | hn
    · exact (ht.isName_of_entry hlink (List.mem_append_right _ hn)).1
    · exact hmore n hn
  intro hcomponents
  cases foundFrom_of_mem_walk ht hunfollowed h with
  | root hstatus => cases hroot.symm.trans hstatus
  | below hstatus _ hdescent =>
      cases hroot.symm.trans hstatus
      have heq := eq_of_components_joinAll hne (fun n hn => (hdescent.isName ht n hn).1) hisName hcomponents
      exact hdescent.not_link (heq ▸ List.prefix_append names more) hnames hlink

/-- The documents of a search that follows no links are exactly the paths that it finds, up to equality of
paths, if its walks can enter every directory that they come to: every document is found as it is written, the
documents strictly increase in the order of paths, and no walk gives a path that leads to a link below its root
or through one. -/
theorem documents_iff_found (ht : t.WellFormed) (hlinks : search.followLinks = false)
    (hentered : ∀ p fault, .fault p fault ∉ t.visits search) :
    (∀ path, (∃ p ∈ t.documents search, components p = components path) ↔
        ∃ p, Found t search p ∧ components p = components path) ∧
      (∀ p ∈ t.documents search, Found t search p) ∧
      (t.documents search).Pairwise (fun p q => key p < key q) ∧
      ∀ root ∈ search.paths, ∀ location, t.status root = .ok (location, .directory) →
        ∀ names target, t.entry? (location ++ names) = some (.link target) →
          ∀ more, (∀ n ∈ more, IsName n) → ∀ p, .file p ∈ t.walk search.walkOptions root →
            components p ≠ components (joinAll root (names ++ more)) := by
  have hunfollowed : search.followLinks = true → t.LinkFree := fun hfollow => by
    rw [hlinks] at hfollow
    cases hfollow
  refine ⟨fun path => ?_, fun p => found_of_mem_documents ht hunfollowed, sortPaths_pairwise _, ?_⟩
  · rw [documents, exists_mem_sortPaths_iff]
    constructor
    · rintro ⟨p, hp, hpath⟩
      obtain ⟨hvisit, hselects⟩ := mem_candidates_iff.1 hp
      exact ⟨p, found_of_mem_candidates ht hunfollowed hvisit hselects, hpath⟩
    · rintro ⟨p, hfound, hpath⟩
      exact ⟨p, mem_candidates_iff.2 (mem_candidates_of_found hunfollowed hentered hfound), hpath⟩
  · intro root _ location hroot names target hlink more hmore p hp
    exact components_ne_of_link ht hlinks hroot hlink hmore hp

end

/-- A root that is a link to a directory with a name to be skipped. Below it are a document in capitals, one
that is excluded by its name, a link to a document and one to the directory above, a directory to be skipped,
and a document that lies too deep; another one is found twice. -/
theorem documents_iff_found_linked_root :
    ∃ (t : FileTree) (search : Search), t.WellFormed ∧ search.followLinks = false ∧
      search.paths = ["docs".toList, "docs/sub/.//b.md".toList] ∧
      t.documents search = ["docs/A.MD".toList, "docs/sub/b.md".toList] ∧
      (∃ location, t.status "docs".toList = .ok (location, .directory) ∧
        ∃ name ∈ location, name ∈ search.skipDirs) ∧
      Found t search "docs/A.MD".toList ∧ Found t search "docs/sub/b.md".toList ∧
      (∃ p, Found t search p ∧ components p = components "docs//sub/b.md".toList) ∧
      (¬∃ p, Found t search p ∧ components p = components "docs/out.md".toList) ∧
      ¬∃ p, Found t search p ∧ components p = components "docs/sub/deep/d.md".toList := by
  let t : FileTree :=
    { entries :=
        [(["docs".toList], .link "Temp".toList), (["Temp".toList], .directory),
          (["Temp".toList, "A.MD".toList], .file .empty), (["Temp".toList, "draft.md".toList], .file .empty),
          (["Temp".toList, "out.md".toList], .link "A.MD".toList),
          (["Temp".toList, "up".toList], .link "..".toList), (["Temp".toList, "Library".toList], .directory),
          (["Temp".toList, "Library".toList, "c.md".toList], .file .empty),
          (["Temp".toList, "sub".toList], .directory),
          (["Temp".toList, "sub".toList, "b.md".toList], .file .empty),
          (["Temp".toList, "sub".toList, "deep".toList], .directory),
          (["Temp".toList, "sub".toList, "deep".toList, "d.md".toList], .file .empty)]
      nodup := by decide }
  let search : Search :=
    { paths := ["docs".toList, "docs/sub/.//b.md".toList], exclude := ["draft.*".toList], maxDepth := 2 }
  have ht : t.WellFormed := by decide +kernel
  have hvisits : t.visits search =
      [.file "docs/A.MD".toList, .file "docs/draft.md".toList, .file "docs/sub/b.md".toList,
        .file "docs/sub/.//b.md".toList] := by
    decide +kernel
  have hentered : ∀ p fault, .fault p fault ∉ t.visits search := by simp [hvisits]
  have hdocuments : t.documents search = ["docs/A.MD".toList, "docs/sub/b.md".toList] := by
    have hsort : sortPaths ["docs/A.MD".toList, "docs/sub/b.md".toList, "docs/sub/.//b.md".toList] =
        ["docs/A.MD".toList, "docs/sub/b.md".toList] :=
      sortPaths_eq (by decide +kernel) (by decide +kernel) (by decide +kernel)
    rw [documents, hvisits, ← hsort]
    exact congrArg sortPaths (by decide +kernel)
  obtain ⟨hiff, hfound, -, -⟩ := documents_iff_found ht (rfl : search.followLinks = false) hentered
  rw [hdocuments] at hiff hfound
  have hroot : t.status "docs".toList = .ok (["Temp".toList], .directory) :=
    status_eq_ok_iff.2 ⟨by decide +kernel, rfl⟩
  refine ⟨t, search, ht, rfl, rfl, hdocuments, ⟨["Temp".toList], hroot, by decide⟩,
    hfound _ (by decide), hfound _ (by decide), (hiff _).1 (by decide +kernel), fun h => ?_, fun h => ?_⟩
  · exact absurd ((hiff _).2 h) (by decide +kernel)
  · exact absurd ((hiff _).2 h) (by decide +kernel)

end MarkdownLinks.FileTree
