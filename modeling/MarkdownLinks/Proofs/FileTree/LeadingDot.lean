import MarkdownLinks.Proofs.FileTree.PathOrder
import MarkdownLinks.Proofs.FileTree.Resolve

/-! A dot in front of a relative path. The path leads where it led without the dot, as long as it is not too long
for that; it ends in the same name, and what is joined to it is joined behind the dot. So a walk from there comes
across the same places, and calls them by the same paths with the dot in front. -/

namespace MarkdownLinks

namespace Path

/-- A path with a dot and a slash in front of it. -/
def fromHere (path : Text) : Text := '.' :: '/' :: path

section
variable {path name : Text} {names more : List Text}

theorem fromHere_ne_nil (path : Text) : fromHere path ≠ [] := List.cons_ne_nil _ _

theorem splitOn_fromHere (path : Text) : (fromHere path).splitOn '/' = ['.'] :: path.splitOn '/' :=
  List.splitOn_append_cons_self ['.'] path

/-- A relative path begins with a name. -/
theorem exists_splitOn_of_relative (hpath : path ≠ []) (hrelative : path.head? ≠ some '/') :
    ∃ name names, name ≠ [] ∧ path.splitOn '/' = name :: names := by
  obtain ⟨c, path, rfl⟩ := List.exists_cons_of_ne_nil hpath
  have hc : c ≠ '/' := fun hc => hrelative (congrArg some hc)
  obtain ⟨name, names, hsplit⟩ := List.exists_cons_of_ne_nil (List.splitOn_ne_nil '/' path)
  refine ⟨c :: name, names, List.cons_ne_nil _ _, ?_⟩
  rw [List.splitOn_cons_eq_if_modifyHead, if_neg (by simpa using hc), hsplit]
  rfl

theorem join_fromHere (hpath : path ≠ []) (name : Text) : join (fromHere path) name = fromHere (join path name) := by
  have hlast : (fromHere path).getLast? = path.getLast? := by
    obtain ⟨c, path, rfl⟩ := List.exists_cons_of_ne_nil hpath
    rfl
  rw [join, join, hlast]
  split <;> rfl

theorem joinAll_fromHere (hpath : path ≠ []) (names : List Text) :
    joinAll (fromHere path) names = fromHere (joinAll path names) := by
  induction names generalizing path with
  | nil => rfl
  | cons name names ih => rw [joinAll_cons, joinAll_cons, join_fromHere hpath, ih (join_ne_nil path name)]

/-- The components of a path behind the one that it begins with, if that is special. -/
theorem components_eq (path : Text) :
    (components path = (path.splitOn '/').filterMap Component.ofText? ∨
      ∃ c, c.name? = none ∧ components path = c :: (path.splitOn '/').filterMap Component.ofText?) ∧
      components (fromHere path) = .here :: (path.splitOn '/').filterMap Component.ofText? := by
  constructor
  · rw [components]
    split
    · exact Or.inr ⟨.root, rfl, rfl⟩
    · split
      · exact Or.inr ⟨.here, rfl, rfl⟩
      · exact Or.inl rfl
  · rw [components, splitOn_fromHere]
    rfl

theorem head?_joinAll (hpath : path ≠ []) (names : List Text) : (joinAll path names).head? = path.head? := by
  induction names generalizing path with
  | nil => rfl
  | cons name names ih => rw [joinAll_cons, ih (join_ne_nil path name), head?_join hpath]

theorem fileName?_fromHere (path : Text) : fileName? (fromHere path) = fileName? path := by
  obtain ⟨hpath, hfrom⟩ := components_eq path
  rw [fileName?, fileName?, hfrom]
  generalize (path.splitOn '/').filterMap Component.ofText? = read at hpath
  have hcons : ∀ c : Component, c.name? = none → (c :: read).getLast?.bind Component.name? =
      read.getLast?.bind Component.name? := by
    intro c hc
    cases read with
    | nil => exact hc
    | cons d read => rfl
  rw [hcons .here rfl]
  rcases hpath with hpath | ⟨c, hc, hpath⟩
  · rw [hpath]
  · rw [hpath, hcons c hc]

theorem isMarkdown_fromHere (path : Text) : isMarkdown (fromHere path) = isMarkdown path := by
  rw [isMarkdown, isMarkdown, fileName?_fromHere]

theorem key_joinAll (hpath : path ≠ []) (hnames : ∀ n ∈ names, IsName n) :
    key (joinAll path names) = key path ++ (names.map .name).map Component.key := by
  rw [key, components_joinAll hpath hnames, List.map_append]
  rfl

/-- Below one path, the order of paths is that of the names behind it. -/
theorem le_joinAll_iff (hpath : path ≠ []) (hnames : ∀ n ∈ names, IsName n) (hmore : ∀ n ∈ more, IsName n) :
    le (joinAll path names) (joinAll path more) = true ↔
      (names.map Component.name).map Component.key ≤ (more.map Component.name).map Component.key := by
  rw [le_iff_key_le, key_joinAll hpath hnames, key_joinAll hpath hmore]
  constructor
  · intro h
    by_contra hnot
    exact absurd h (not_le.2 (List.append_left_lt (not_le.1 hnot)))
  · intro h
    rcases h.lt_or_eq with hlt | heq
    · exact (List.append_left_lt hlt).le
    · rw [heq]

theorem le_fromHere (hpath : path ≠ []) (hnames : ∀ n ∈ names, IsName n) (hmore : ∀ n ∈ more, IsName n) :
    le (fromHere (joinAll path names)) (fromHere (joinAll path more)) =
      le (joinAll path names) (joinAll path more) := by
  rw [← joinAll_fromHere hpath, ← joinAll_fromHere hpath, Bool.eq_iff_iff,
    le_joinAll_iff (fromHere_ne_nil path) hnames hmore, le_joinAll_iff hpath hnames hmore]

end

end Path

namespace FileTree

open MarkdownLinks.Path

section
variable {t : FileTree} {path : Text} {location : Location}

theorem start_of_relative (hrelative : path.head? ≠ some '/') (here : Location) : start path here = here :=
  if_neg hrelative

/-- A relative path begins with a name, so the dot in front of it is looked up exactly if the path is. -/
theorem follow_fromHere {purpose : Purpose} {links : Nat} (hne : path ≠ []) (hrelative : path.head? ≠ some '/')
    (here : Location) :
    t.follow purpose links here ((fromHere path).splitOn '/') = t.follow purpose links here (path.splitOn '/') := by
  obtain ⟨name, names, hname, hsplit⟩ := exists_splitOn_of_relative hne hrelative
  have hrefusal : t.refusal? here ['.'] = t.refusal? here name := by
    rw [refusal?, refusal?, if_neg (List.cons_ne_nil _ _), if_neg hname]
  rw [splitOn_fromHere, hsplit]
  cases hopen : t.refusal? here name with
  | some fault =>
      cases links <;>
        exact (followNames_of_refusal (hrefusal.trans hopen)).trans (followNames_of_refusal hopen).symm
  | none => cases links <;> exact followNames_of_stay (hrefusal.trans hopen) rfl

theorem place?_fromHere (hne : path ≠ []) (hrelative : path.head? ≠ some '/') :
    t.place? (fromHere path) = t.place? path := by
  rw [place?, place?, start_of_relative hrelative]
  exact congrArg Except.toOption (follow_fromHere hne hrelative _)

/-- With a dot in front a path leads where it led, if the system takes both paths or neither. -/
theorem resolve_fromHere (hne : path ≠ []) (hrelative : path.head? ≠ some '/')
    (hlength : exceeds maxPathBytes (fromHere path) = exceeds maxPathBytes path) (purpose : Purpose) :
    t.resolve purpose (fromHere path) = t.resolve purpose path := by
  rw [resolve, resolve, if_neg (fromHere_ne_nil path), if_neg hne, hlength, start_of_relative hrelative,
    ← follow_fromHere hne hrelative]
  rfl

theorem status_fromHere (hne : path ≠ []) (hrelative : path.head? ≠ some '/')
    (hlength : exceeds maxPathBytes (fromHere path) = exceeds maxPathBytes path) :
    t.status (fromHere path) = t.status path := by
  rw [status, status, resolve_fromHere hne hrelative hlength]

/-- What is come across, by another path. -/
def Visit.mapPath (f : Text → Text) : Visit → Visit
  | .file path => .file (f path)
  | .fault path cause => .fault (f path) cause

/-- Whether the system takes every path of an entry of a directory both with a dot in front and without, or takes
it neither way. -/
def FitsFromHere (t : FileTree) (path : Text) (location : Location) : Prop :=
  ∀ names, t.entry? (location ++ names) ≠ none →
    exceeds maxPathBytes (fromHere (joinAll path names)) = exceeds maxPathBytes (joinAll path names)

instance (t : FileTree) (path : Text) (location : Location) : Decidable (t.FitsFromHere path location) :=
  decidable_of_iff
    (∀ l ∈ location :: t.entries.map Prod.fst, location.isPrefixOf l = true → t.entry? l ≠ none →
      exceeds maxPathBytes (fromHere (joinAll path (l.drop location.length))) =
        exceeds maxPathBytes (joinAll path (l.drop location.length))) <| by
    constructor
    · intro h names hentry
      have hmem : location ++ names ∈ location :: t.entries.map Prod.fst := by
        by_cases hnil : location ++ names = []
        · rw [hnil, (List.append_eq_nil_iff.1 hnil).1]
          exact List.mem_cons_self
        · obtain ⟨e, he⟩ := Option.ne_none_iff_exists'.1 hentry
          exact List.mem_cons_of_mem _ (List.mem_map_of_mem (mem_entries_of_eq_some hnil he))
      have hfits := h _ hmem (List.isPrefixOf_iff_prefix.2 (List.prefix_append _ _)) hentry
      rwa [List.drop_left] at hfits
    · intro h l _ hpre hentry
      obtain ⟨names, rfl⟩ := List.isPrefixOf_iff_prefix.1 hpre
      rw [List.drop_left]
      exact h names hentry

theorem FitsFromHere.join (h : t.FitsFromHere path location) (name : Text) :
    t.FitsFromHere (Path.join path name) (location ++ [name]) := by
  intro names hentry
  rw [List.append_assoc] at hentry
  exact h (name :: names) hentry

/-- A walk from a path with a dot in front. -/
theorem walkDirectory_fromHere (hfree : t.LinkFree) (options : WalkOptions) (depth : Nat) (outer outer' : Ancestors)
    (hne : path ≠ []) (hrelative : path.head? ≠ some '/') (hdirectory : t.isDirectory location = true)
    (hfits : t.FitsFromHere path location) :
    t.walkDirectory options depth outer (fromHere path) location =
      (t.walkDirectory options depth outer' path location).map (Visit.mapPath fromHere) := by
  induction depth generalizing outer outer' path location with
  | zero => rfl
  | succ depth ih =>
      have hlength : exceeds maxPathBytes (fromHere path) = exceeds maxPathBytes path := by
        refine hfits [] ?_
        rw [List.append_nil, isDirectory_iff.1 hdirectory]
        exact Option.some_ne_none _
      have hlist : t.listFault? (fromHere path) location = t.listFault? path location := by
        rw [listFault?, listFault?, resolve_fromHere hne hrelative hlength]
      rw [walkDirectory, walkDirectory, hlist]
      split
      · rfl
      dsimp only
      rw [List.map_flatMap]
      refine List.flatMap_congr fun child hchild => ?_
      obtain ⟨name, e⟩ := child
      have he := mem_children_iff.1 hchild
      cases e with
      | file bytes =>
          dsimp only
          rw [join_fromHere hne]
          rfl
      | directory =>
          dsimp only
          split
          · rfl
          · rw [join_fromHere hne]
            exact ih _ _ (join_ne_nil path name) (by rwa [head?_join hne]) (isDirectory_iff.2 he) (hfits.join name)
      | link target => cases hfree.isLink_eq_false he

theorem walk_fromHere (hfree : t.LinkFree) (options : WalkOptions) (hrelative : path.head? ≠ some '/')
    (hpath : t.status path = .ok (location, .directory)) (hfits : t.FitsFromHere path location) :
    t.status (fromHere path) = .ok (location, .directory) ∧
      t.walk options (fromHere path) = (t.walk options path).map (Visit.mapPath fromHere) := by
  obtain ⟨hne, -, hentry⟩ := place?_of_status hpath
  have hlength : exceeds maxPathBytes (fromHere path) = exceeds maxPathBytes path := by
    refine hfits [] ?_
    rw [List.append_nil, hentry]
    exact Option.some_ne_none _
  have hstatus : t.status (fromHere path) = t.status path := status_fromHere hne hrelative hlength
  rw [hpath] at hstatus
  refine ⟨hstatus, ?_⟩
  rw [walk, walk, hstatus, hpath]
  exact walkDirectory_fromHere hfree options _ _ _ hne hrelative (isDirectory_iff.2 hentry) hfits

end

end FileTree

end MarkdownLinks
