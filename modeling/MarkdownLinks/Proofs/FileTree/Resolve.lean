import MarkdownLinks.Proofs.FileTree.Walk

/-! Where paths lead. A path never leads to a link, since links are followed. In a tree without links a path
that leads somewhere leads there name by name, so the place it leads to is told by its components alone, and a
name behind it leads one level further down. The place of a path is where it would lead if it were not too long
and the system let every name be looked up; a path that leads somewhere leads to its place. -/

namespace MarkdownLinks.FileTree

open MarkdownLinks.Path

section
variable {t : FileTree} {onLink : Location → List Text → Except Fault Location} {here location : Location}
  {purpose : Purpose} {name : Text} {names : List Text}

/-- A name is looked up in a directory that the system lets it be looked up in; the empty one is not looked up. -/
theorem refusal?_eq_none_iff :
    t.refusal? here name = none ↔ t.isDirectory here = true ∧ (name = [] ∨ (t.refusals here).lookUp = none) := by
  rw [refusal?]
  cases t.isDirectory here with
  | false => simp
  | true => by_cases hname : name = [] <;> simp [hname]

/-- What following a name and what comes behind it takes, if it leads somewhere. Only a last name may be new. -/
theorem followNames_cons_eq_ok (h : followNames t purpose onLink here (name :: names) = .ok location) :
    t.refusal? here name = none ∧
      (Component.ofText? name = none ∧ followNames t purpose onLink here names = .ok location ∨
        Component.ofText? name = some .parent ∧
          followNames t purpose onLink here.dropLast names = .ok location ∨
        Component.ofText? name = some (.name name) ∧ exceeds maxNameBytes name = false ∧
          ((purpose = .create ∧ names = [] ∧ t.entry? (here ++ [name]) = none ∧ location = here ++ [name]) ∨
            (∃ target, target ≠ [] ∧ t.entry? (here ++ [name]) = some (.link target) ∧
              onLink (start target here) (target.splitOn '/' ++ names) = .ok location) ∨
            ∃ e, t.entry? (here ++ [name]) = some e ∧ e.isLink = false ∧
              followNames t purpose onLink (here ++ [name]) names = .ok location)) := by
  rw [followNames] at h
  split at h
  · cases h
  rename_i hopen
  refine ⟨hopen, ?_⟩
  rw [Component.ofText?]
  split at h
  · rename_i hstay
    exact Or.inl ⟨if_pos hstay, h⟩
  rename_i hstay
  rw [if_neg hstay]
  split at h
  · rename_i hparent
    exact Or.inr (Or.inl ⟨if_pos hparent, h⟩)
  rename_i hparent
  rw [if_neg hparent]
  split at h
  · cases h
  split at h
  · cases h
  rename_i hshort
  refine Or.inr (Or.inr ⟨rfl, Bool.eq_false_iff.2 hshort, ?_⟩)
  cases he : t.entry? (here ++ [name]) with
  | none =>
      simp only [he] at h
      split at h
      · rename_i hnew
        exact Or.inl ⟨hnew.1, hnew.2, rfl, (Except.ok.inj h).symm⟩
      · cases h
  | some e =>
      cases e with
      | link target =>
          simp only [he] at h
          split at h
          · cases h
          · rename_i htarget
            exact Or.inr (Or.inl ⟨target, htarget, rfl, h⟩)
      | file bytes => exact Or.inr (Or.inr ⟨_, rfl, rfl, by simpa only [he] using h⟩)
      | directory => exact Or.inr (Or.inr ⟨_, rfl, rfl, by simpa only [he] using h⟩)

theorem isDirectory_dropLast (ht : t.WellFormed) (h : t.isDirectory location = true) :
    t.isDirectory location.dropLast = true := by
  by_cases hnil : location = []
  · rw [hnil] at h ⊢
    exact h
  · exact ht.inDirectory _ (mem_entries_of_eq_some hnil (isDirectory_iff.1 h))

theorem ne_link_of_isDirectory (h : t.isDirectory location = true) (target : Text) :
    t.entry? location ≠ some (.link target) := by
  rw [isDirectory_iff.1 h]
  exact fun heq => Entry.noConfusion (Option.some.inj heq)

theorem isDirectory_start (h : t.isDirectory here = true) (path : Text) :
    t.isDirectory (start path here) = true := by
  rw [start]
  split
  · exact isDirectory_iff.2 rfl
  · exact h

/-- Following names ends at no link, if following what links lead to does not. -/
theorem ne_link_of_followNames (ht : t.WellFormed)
    (honLink : ∀ here names location, t.isDirectory here = true → onLink here names = .ok location →
      ∀ target, t.entry? location ≠ some (.link target))
    (hhere : ∀ target, t.entry? here ≠ some (.link target))
    (h : followNames t purpose onLink here names = .ok location) (target : Text) :
    t.entry? location ≠ some (.link target) := by
  induction names generalizing here with
  | nil =>
      cases h
      exact hhere target
  | cons name names ih =>
      obtain ⟨hopen, ⟨-, h⟩ | ⟨-, h⟩ | ⟨-, -, ⟨-, -, hnew, rfl⟩ | ⟨link, -, -, h⟩ | ⟨e, he, hlink, h⟩⟩⟩ :=
        followNames_cons_eq_ok h
      all_goals obtain ⟨hdirectory, -⟩ := refusal?_eq_none_iff.1 hopen
      · exact ih hhere h
      · exact ih (ne_link_of_isDirectory (isDirectory_dropLast ht hdirectory)) h
      · rw [hnew]
        exact fun heq => nomatch heq
      · exact honLink _ _ _ (isDirectory_start hdirectory link) h target
      · refine ih (fun link heq => ?_) h
        rw [he, Option.some.injEq] at heq
        rw [heq] at hlink
        cases hlink

theorem ne_link_of_follow (ht : t.WellFormed) {links : Nat} (hhere : t.isDirectory here = true)
    (h : t.follow purpose links here names = .ok location) (target : Text) :
    t.entry? location ≠ some (.link target) := by
  induction links generalizing here names location target with
  | zero => exact ne_link_of_followNames ht (fun _ _ _ _ h => by cases h) (ne_link_of_isDirectory hhere) h target
  | succ links ih =>
      exact ne_link_of_followNames ht (fun _ _ _ hhere h => ih hhere h) (ne_link_of_isDirectory hhere) h target

end

section
variable {t : FileTree} {purpose : Purpose} {path : Text} {location : Location} {e : Entry}

theorem status_eq_ok_iff :
    t.status path = .ok (location, e) ↔ t.resolve .find path = .ok location ∧ t.entry? location = some e := by
  rw [status]
  split
  · rename_i hresolve
    simp [hresolve]
  · rename_i hresolve
    rw [hresolve]
    split
    · rename_i he
      simp only [Except.ok.injEq, Prod.mk.injEq]
      refine and_congr_right fun hlocation => ?_
      rw [← hlocation, he, Option.some.injEq]
    · rename_i he
      simp only [reduceCtorEq, Except.ok.injEq, false_iff, not_and]
      rintro rfl
      simp [he]

theorem resolve_eq_ok_iff :
    t.resolve purpose path = .ok location ↔ path ≠ [] ∧ exceeds maxPathBytes path = false ∧
      t.follow purpose maxLinks (start path t.working) (path.splitOn '/') = .ok location := by
  rw [resolve]
  split
  · simp_all
  split
  · simp_all
  · simp_all

/-- A path that leads somewhere starts from a directory. -/
theorem isDirectory_start_of_follow {links : Nat} {here : Location}
    (h : t.follow purpose links here (path.splitOn '/') = .ok location) : t.isDirectory here = true := by
  obtain ⟨name, names, hsplit⟩ := List.exists_cons_of_ne_nil (List.splitOn_ne_nil '/' path)
  rw [hsplit] at h
  cases links <;> exact (refusal?_eq_none_iff.1 (followNames_cons_eq_ok h).1).1

/-- A path leads to no link. -/
theorem isLink_of_status (ht : t.WellFormed) (h : t.status path = .ok (location, e)) : e.isLink = false := by
  obtain ⟨hresolve, he⟩ := status_eq_ok_iff.1 h
  obtain ⟨-, -, hfollow⟩ := resolve_eq_ok_iff.1 hresolve
  cases e with
  | link target => exact absurd he (ne_link_of_follow ht (isDirectory_start_of_follow hfollow) hfollow target)
  | _ => rfl

end

/-- The place that a component leads to. -/
def placeBehind (here : Location) : Component → Location
  | .root => []
  | .here => here
  | .parent => here.dropLast
  | .name s => here ++ [s]

/-- Names that lead from one place to another through a tree without meeting a link. -/
inductive Leads (t : FileTree) : Location → List Text → Location → Prop
  | nil {here : Location} : Leads t here [] here
  | stay {here location : Location} {name : Text} {names : List Text} (hdirectory : t.isDirectory here = true)
      (hname : Component.ofText? name = none) (h : Leads t here names location) :
      Leads t here (name :: names) location
  | parent {here location : Location} {name : Text} {names : List Text} (hdirectory : t.isDirectory here = true)
      (hname : Component.ofText? name = some .parent) (h : Leads t here.dropLast names location) :
      Leads t here (name :: names) location
  | name {here location : Location} {name : Text} {names : List Text} {e : Entry}
      (hdirectory : t.isDirectory here = true) (hname : Component.ofText? name = some (.name name))
      (hshort : exceeds maxNameBytes name = false) (he : t.entry? (here ++ [name]) = some e)
      (hlink : e.isLink = false) (h : Leads t (here ++ [name]) names location) :
      Leads t here (name :: names) location

namespace Leads

variable {t : FileTree} {here location : Location} {name : Text} {names more : List Text} {e : Entry}

theorem append {middle : Location} (h : Leads t here names middle) (hmore : Leads t middle more location) :
    Leads t here (names ++ more) location := by
  induction h with
  | nil => exact hmore
  | stay hdirectory hname _ ih => exact .stay hdirectory hname (ih hmore)
  | parent hdirectory hname _ ih => exact .parent hdirectory hname (ih hmore)
  | name hdirectory hname hshort he hlink _ ih => exact .name hdirectory hname hshort he hlink (ih hmore)

theorem of_append (h : Leads t here (names ++ more) location) :
    ∃ middle, Leads t here names middle ∧ Leads t middle more location := by
  induction names generalizing here with
  | nil => exact ⟨here, .nil, h⟩
  | cons name names ih =>
      cases h with
      | stay hdirectory hname h =>
          obtain ⟨middle, hnames, hmore⟩ := ih h
          exact ⟨middle, .stay hdirectory hname hnames, hmore⟩
      | parent hdirectory hname h =>
          obtain ⟨middle, hnames, hmore⟩ := ih h
          exact ⟨middle, .parent hdirectory hname hnames, hmore⟩
      | name hdirectory hname hshort he hlink h =>
          obtain ⟨middle, hnames, hmore⟩ := ih h
          exact ⟨middle, .name hdirectory hname hshort he hlink hnames, hmore⟩

/-- Names that stand for the directory they are looked up in lead nowhere else. -/
theorem self (hdirectory : t.isDirectory here = true)
    (hnames : ∀ name ∈ names, Component.ofText? name = none) : Leads t here names here := by
  induction names with
  | nil => exact .nil
  | cons name names ih =>
      exact .stay hdirectory (hnames name List.mem_cons_self) (ih fun n hn => hnames n (List.mem_cons_of_mem _ hn))

/-- The place that names lead to is told by what they stand for. -/
theorem eq_foldl (h : Leads t here names location) :
    location = (names.filterMap Component.ofText?).foldl placeBehind here := by
  induction h with
  | nil => rfl
  | stay _ hname _ ih => rwa [List.filterMap_cons_none hname]
  | parent _ hname _ ih => rwa [List.filterMap_cons_some hname, List.foldl_cons]
  | name _ hname _ _ _ _ ih => rwa [List.filterMap_cons_some hname, List.foldl_cons]

end Leads

section
variable {t : FileTree} {onLink : Location → List Text → Except Fault Location} {here location : Location}
  {purpose : Purpose} {name path : Text} {names : List Text} {e : Entry}

theorem ofText?_eq_none_iff : Component.ofText? name = none ↔ name = [] ∨ name = ['.'] := by
  rw [Component.ofText?]
  split
  · simp_all
  · split <;> simp_all

theorem ofText?_eq_parent_iff : Component.ofText? name = some .parent ↔ name = ['.', '.'] := by
  rw [Component.ofText?]
  split
  · rename_i h
    rcases h with rfl | rfl <;> simp
  · split <;> simp_all

theorem followNames_of_refusal {fault : Fault} (h : t.refusal? here name = some fault) :
    followNames t purpose onLink here (name :: names) = .error fault := by rw [followNames, h]

/-- In two trees a name is followed alike, if it is refused in both alike, and followed alike where it is not. -/
theorem followNames_congr {t' : FileTree} {onLink' : Location → List Text → Except Fault Location} {here' : Location}
    (hrefusal : t'.refusal? here' name = t.refusal? here name)
    (h : t'.refusal? here' name = none → t.refusal? here name = none →
      followNames t' purpose onLink' here' (name :: names) = followNames t purpose onLink here (name :: names)) :
    followNames t' purpose onLink' here' (name :: names) = followNames t purpose onLink here (name :: names) := by
  cases hopen : t.refusal? here name with
  | some fault => rw [followNames_of_refusal hopen, followNames_of_refusal (hrefusal.trans hopen)]
  | none => exact h (hrefusal.trans hopen) hopen

theorem followNames_of_stay (hopen : t.refusal? here name = none) (hname : Component.ofText? name = none) :
    followNames t purpose onLink here (name :: names) = followNames t purpose onLink here names := by
  rw [followNames, hopen]
  exact if_pos (ofText?_eq_none_iff.1 hname)

theorem followNames_of_parent (hopen : t.refusal? here name = none)
    (hname : Component.ofText? name = some .parent) :
    followNames t purpose onLink here (name :: names) = followNames t purpose onLink here.dropLast names := by
  obtain rfl := ofText?_eq_parent_iff.1 hname
  rw [followNames, hopen]
  dsimp only
  rw [if_neg (by decide), if_pos rfl]

theorem followNames_of_name (hopen : t.refusal? here name = none)
    (hname : Component.ofText? name = some (.name name)) (hshort : exceeds maxNameBytes name = false) :
    followNames t .find onLink here (name :: names) =
      match t.entry? (here ++ [name]) with
      | none => .error .notFound
      | some (.link target) =>
          if target = [] then .error .notFound else onLink (start target here) (target.splitOn '/' ++ names)
      | some _ => followNames t .find onLink (here ++ [name]) names := by
  have hstay : ¬(name = [] ∨ name = ['.']) := fun h => by
    rw [ofText?_eq_none_iff.2 h] at hname
    cases hname
  have hparent : name ≠ ['.', '.'] := fun h => by
    rw [ofText?_eq_parent_iff.2 h] at hname
    cases hname
  have hfind : ¬(Purpose.find = Purpose.create ∧ names ≠ [] ∧ ∀ n ∈ names, n = []) := fun h =>
    Purpose.noConfusion h.1
  rw [followNames, hopen]
  dsimp only
  rw [if_neg hstay, if_neg hparent, if_neg hfind, hshort, if_neg (by decide)]
  split <;> simp_all

theorem LinkFree.isLink_eq_false (ht : t.LinkFree) (he : t.entry? location = some e) : e.isLink = false := by
  by_cases hnil : location = []
  · rw [hnil, entry?, if_pos rfl, Option.some.injEq] at he
    rw [← he]
    rfl
  · exact ht _ (mem_entries_of_eq_some hnil he)

/-- The tree as it would be if the system refused nothing. -/
def unrefused (t : FileTree) : FileTree := { t with refusals := fun _ => {} }

theorem refusal?_unrefused (hdirectory : t.isDirectory here = true) (name : Text) :
    t.unrefused.refusal? here name = none :=
  refusal?_eq_none_iff.2 ⟨hdirectory, Or.inr rfl⟩

/-- A path that leads somewhere leads there still if the system refuses less. -/
theorem followNames_unrefused {onLink' : Location → List Text → Except Fault Location}
    (honLink : ∀ here names, onLink here names = .ok location → onLink' here names = .ok location)
    (h : followNames t .find onLink here names = .ok location) :
    followNames t.unrefused .find onLink' here names = .ok location := by
  induction names generalizing here with
  | nil => exact h
  | cons name names ih =>
      obtain ⟨hopen, ⟨hname, h⟩ | ⟨hname, h⟩ | ⟨hname, hshort, hentry⟩⟩ := followNames_cons_eq_ok h
      all_goals replace hopen := t.refusal?_unrefused (refusal?_eq_none_iff.1 hopen).1 name
      · rw [followNames_of_stay hopen hname, ih h]
      · rw [followNames_of_parent hopen hname, ih h]
      · have hsame : t.unrefused.entry? (here ++ [name]) = t.entry? (here ++ [name]) := rfl
        rw [followNames_of_name hopen hname hshort, hsame]
        obtain ⟨hpurpose, -⟩ | ⟨target, htarget, he, h⟩ | ⟨e, he, hlink, h⟩ := hentry
        · cases hpurpose
        · rw [he]
          exact (if_neg htarget).trans (honLink _ _ h)
        · rw [he]
          cases e with
          | link target => cases hlink
          | _ => exact ih h

theorem follow_unrefused {links : Nat} (h : t.follow .find links here names = .ok location) :
    t.unrefused.follow .find links here names = .ok location := by
  induction links generalizing here names with
  | zero => exact followNames_unrefused (fun _ _ h => by cases h) h
  | succ links ih => exact followNames_unrefused (fun _ _ => ih) h

/-- Without links, following is going from name to name, where the system refuses nothing. -/
theorem followNames_eq_ok_iff (ht : t.LinkFree) :
    followNames t.unrefused .find onLink here names = .ok location ↔ Leads t here names location := by
  refine ⟨fun h => ?_, fun h => ?_⟩
  · induction names generalizing here with
    | nil =>
        cases h
        exact .nil
    | cons name names ih =>
        obtain ⟨hopen, ⟨hname, h⟩ | ⟨hname, h⟩ | ⟨hname, hshort, hentry⟩⟩ := followNames_cons_eq_ok h
        all_goals have hdirectory : t.isDirectory here = true := (refusal?_eq_none_iff.1 hopen).1
        · exact .stay hdirectory hname (ih h)
        · exact .parent hdirectory hname (ih h)
        · obtain ⟨hpurpose, -⟩ | ⟨target, -, he, -⟩ | ⟨e, he, hlink, h⟩ := hentry
          · cases hpurpose
          · cases ht.isLink_eq_false he
          · exact .name hdirectory hname hshort he hlink (ih h)
  · induction h with
    | nil => rw [followNames]
    | stay hdirectory hname _ ih => rw [followNames_of_stay (refusal?_unrefused hdirectory _) hname, ih]
    | parent hdirectory hname _ ih => rw [followNames_of_parent (refusal?_unrefused hdirectory _) hname, ih]
    | @name here location name names e hdirectory hname hshort he hlink _ ih =>
        have hsame : t.unrefused.entry? (here ++ [name]) = some e := he
        rw [followNames_of_name (refusal?_unrefused hdirectory _) hname hshort, hsame]
        cases e with
        | link target => cases hlink
        | _ => exact ih

theorem follow_eq_ok_iff (ht : t.LinkFree) (links : Nat) :
    t.unrefused.follow .find links here names = .ok location ↔ Leads t here names location := by
  cases links <;> exact followNames_eq_ok_iff ht

/-- The place that a path leads to, however long the path is and whatever the system refuses. -/
def place? (t : FileTree) (path : Text) : Option Location :=
  (t.unrefused.follow .find maxLinks (start path t.working) (path.splitOn '/')).toOption

theorem place?_eq_some_iff (ht : t.LinkFree) :
    t.place? path = some location ↔ Leads t (start path t.working) (path.splitOn '/') location := by
  rw [← follow_eq_ok_iff ht maxLinks, place?]
  cases t.unrefused.follow .find maxLinks (start path t.working) (path.splitOn '/') <;> simp [Except.toOption]

/-- A path that leads somewhere leads to its place. -/
theorem place?_of_resolve (h : t.resolve .find path = .ok location) : path ≠ [] ∧ t.place? path = some location := by
  obtain ⟨hne, -, hfollow⟩ := resolve_eq_ok_iff.1 h
  exact ⟨hne, by rw [place?, follow_unrefused hfollow]; rfl⟩

theorem place?_of_status (h : t.status path = .ok (location, e)) :
    path ≠ [] ∧ t.place? path = some location ∧ t.entry? location = some e := by
  obtain ⟨hresolve, he⟩ := status_eq_ok_iff.1 h
  obtain ⟨hne, hplace⟩ := place?_of_resolve hresolve
  exact ⟨hne, hplace, he⟩

theorem foldl_placeBehind_components (path : Text) (here : Location) :
    (components path).foldl placeBehind here =
      ((path.splitOn '/').filterMap Component.ofText?).foldl placeBehind (start path here) := by
  rw [components, List.foldl_append, start]
  congr 1
  split
  · rfl
  · split <;> rfl

/-- Without links, paths that are equal as paths lead to one place. -/
theorem place?_eq_of_components (ht : t.LinkFree) {p q : Text} {l m : Location} (hp : t.place? p = some l)
    (hq : t.place? q = some m) (h : components p = components q) : l = m := by
  rw [((place?_eq_some_iff ht).1 hp).eq_foldl, ((place?_eq_some_iff ht).1 hq).eq_foldl,
    ← foldl_placeBehind_components, ← foldl_placeBehind_components, h]

/-- A name behind a path leads to the entry with the name. -/
theorem place?_join (ht : t.WellFormed) (hfree : t.LinkFree) (hne : path ≠ [])
    (hpath : t.place? path = some location) (hdirectory : t.isDirectory location = true)
    (he : t.entry? (location ++ [name]) = some e) : t.place? (join path name) = some (location ++ [name]) := by
  obtain ⟨hname, hshort⟩ := ht.isName_of_entry he List.mem_concat_self
  obtain ⟨parts, -, hjoin, hsplit⟩ := splitOn_join path hname.2.2.2
  have hpath := (place?_eq_some_iff hfree).1 hpath
  have hparts : Leads t (start path t.working) parts location := by
    rcases hsplit with hsplit | hsplit
    · rwa [hsplit] at hpath
    · rw [hsplit] at hpath
      obtain ⟨middle, hparts, hlast⟩ := hpath.of_append
      cases hlast with
      | stay _ _ h =>
          cases h
          exact hparts
      | parent _ hname => cases hname
      | name _ hname => cases hname
  have hstart : start (join path name) t.working = start path t.working := by
    rw [start, start, head?_join hne]
  rw [place?_eq_some_iff hfree, hjoin, hstart]
  exact hparts.append (.name hdirectory (ofText?_of_isName hname) hshort he (hfree.isLink_eq_false he) .nil)

/-- The path of a descent leads to where the descent ends. -/
theorem place?_joinAll (ht : t.WellFormed) (hfree : t.LinkFree) {skipDirs : List Text} (hne : path ≠ [])
    (hpath : t.place? path = some location) (hdirectory : t.isDirectory location = true)
    (h : Descent t skipDirs location names) : t.place? (joinAll path names) = some (location ++ names) := by
  induction h generalizing path with
  | file he => exact place?_join ht hfree hne hpath hdirectory he
  | directory he _ _ ih =>
      have hjoin := place?_join ht hfree hne hpath hdirectory he
      rw [joinAll_cons, ih (join_ne_nil _ _) hjoin (isDirectory_iff.2 he), List.append_assoc]
      rfl

/-- Slashes behind the path of a directory lead nowhere else. -/
theorem place?_append_slashes (hfree : t.LinkFree) (hne : path ≠ []) (hpath : t.place? path = some location)
    (hdirectory : t.isDirectory location = true) (n : Nat) :
    t.place? (path ++ List.replicate (n + 1) '/') = some location := by
  have hstart : start (path ++ List.replicate (n + 1) '/') t.working = start path t.working := by
    obtain ⟨c, path, rfl⟩ := List.exists_cons_of_ne_nil hne
    rfl
  rw [place?_eq_some_iff hfree] at hpath ⊢
  rw [splitOn_append_slashes, hstart]
  refine hpath.append (Leads.self hdirectory fun name hname => ofText?_eq_none_iff.2 (Or.inl ?_))
  exact List.eq_of_mem_replicate hname

/-- However many slashes follow a dot, the path leads to the working directory. -/
theorem place?_dot_slashes (hfree : t.LinkFree) (hworking : t.isDirectory t.working = true) (n : Nat) :
    t.place? ('.' :: List.replicate (n + 1) '/') = some t.working := by
  have hdot : t.place? ['.'] = some t.working :=
    (place?_eq_some_iff hfree).2 (.stay hworking rfl .nil)
  exact place?_append_slashes hfree (List.cons_ne_nil _ _) hdot hworking n

theorem byteOf?_of_one_byte {c : Char} (h : c.utf8Size = 1) : Native.byteOf? c = none := by
  have hval : c.val.toNat ≤ 127 := Char.utf8Size_eq_one_iff.1 h
  rw [Native.byteOf?, if_neg]
  exact fun hbetween => absurd (Nat.le_trans hbetween.1 hval) (by decide)

/-- A text of characters that have one byte each has as many bytes as characters. -/
theorem exceeds_of_one_byte {s : Text} (h : ∀ c ∈ s, c.utf8Size = 1) (limit : Nat) :
    exceeds limit s = decide (limit < s.length) := by
  have hbytes : Native.bytes s = Utf8.encode s :=
    Native.bytes_of_signs (Native.signs_eq_map (Or.inr fun c hc => byteOf?_of_one_byte (h c hc)))
  have hlength : (Utf8.encode s).length = s.length := by
    clear hbytes
    induction s with
    | nil => rfl
    | cons c s ih =>
        have hrest : (Utf8.encode s).length = s.length := ih fun d hd => h d (List.mem_cons_of_mem _ hd)
        have hcons : Utf8.encode (c :: s) = String.utf8EncodeChar c ++ Utf8.encode s := rfl
        rw [hcons, List.length_append, hrest, String.length_utf8EncodeChar, h c List.mem_cons_self,
          List.length_cons, Nat.add_comm]
  rw [exceeds, hbytes, hlength]

/-- A tree in which every name may be looked up. -/
def Open (t : FileTree) : Prop := ∀ l, (t.refusals l).lookUp = none

theorem followNames_eq_unrefused (hopen : t.Open) (onLink : Location → List Text → Except Fault Location)
    (here : Location) (names : List Text) :
    followNames t purpose onLink here names = followNames t.unrefused purpose onLink here names := by
  have hrefusal : ∀ here name, t.refusal? here name = t.unrefused.refusal? here name := fun here name => by
    rw [refusal?, refusal?, hopen here]
    rfl
  induction names generalizing here with
  | nil => rfl
  | cons name names ih =>
      rw [followNames, followNames, hrefusal, ih, ih]
      split
      · rfl
      · have hsame : t.unrefused.entry? (here ++ [name]) = t.entry? (here ++ [name]) := rfl
        rw [hsame, ih]

theorem follow_eq_unrefused (hopen : t.Open) (links : Nat) :
    t.follow purpose links = t.unrefused.follow purpose links := by
  induction links with
  | zero => exact funext fun here => funext (followNames_eq_unrefused hopen _ here)
  | succ links ih =>
      rw [follow, follow, ih]
      exact funext fun here => funext (followNames_eq_unrefused hopen _ here)

/-- Where every name may be looked up, a path leads to its place unless it is too long. -/
theorem resolve_of_place? (hopen : t.Open) (hne : path ≠ []) (hpath : t.place? path = some location) :
    t.resolve .find path = if exceeds maxPathBytes path then .error .nameTooLong else .ok location := by
  rw [place?, ← follow_eq_unrefused hopen] at hpath
  rw [resolve, if_neg hne]
  cases hfollow : t.follow .find maxLinks (start path t.working) (path.splitOn '/') with
  | error fault => simp [hfollow, Except.toOption] at hpath
  | ok l =>
      obtain rfl : l = location := by simpa [hfollow, Except.toOption] using hpath
      rfl

theorem status_of_place? (hopen : t.Open) (hne : path ≠ []) (hshort : exceeds maxPathBytes path = false)
    (hpath : t.place? path = some location) {e : Entry} (he : t.entry? location = some e) :
    t.status path = .ok (location, e) := by
  rw [status_eq_ok_iff, resolve_of_place? hopen hne hpath, hshort]
  exact ⟨rfl, he⟩

/-- A path that has a place leads there or nowhere. -/
theorem resolve_eq_ok_or_error (hpath : t.place? path = some location) :
    t.resolve .find path = .ok location ∨ ∃ fault, t.resolve .find path = .error fault := by
  cases h : t.resolve .find path with
  | error fault => exact Or.inr ⟨fault, rfl⟩
  | ok l =>
      obtain ⟨-, hplace⟩ := place?_of_resolve h
      obtain rfl := Option.some.inj (hpath.symm.trans hplace)
      exact Or.inl rfl

theorem fileAt_of_error {fault : Fault} (h : t.resolve .find path = .error fault) :
    t.fileAt path = .error fault := by
  rw [fileAt, status, h]

theorem fileAt_of_resolve {bytes : ByteArray} (h : t.resolve .find path = .ok location)
    (he : t.entry? location = some (.file bytes)) : t.fileAt path = .ok (location, bytes) := by
  rw [fileAt, status_eq_ok_iff.2 ⟨h, he⟩]

theorem readFault?_eq_some_iff {refusals : Refusals} {size count : Nat} {fault : Fault} :
    refusals.readFault? size count = some fault ↔
      ∃ behind, refusals.read = some (behind, fault) ∧ behind < count ∧ behind ≤ size := by
  rw [Refusals.readFault?, Option.map_eq_some_iff]
  simp only [Option.filter_eq_some_iff, Prod.exists, Bool.and_eq_true, decide_eq_true_eq]
  constructor
  · rintro ⟨behind, _, ⟨hread, hbounds⟩, rfl⟩
    exact ⟨behind, hread, hbounds⟩
  · rintro ⟨behind, hread, hbounds⟩
    exact ⟨behind, fault, ⟨hread, hbounds⟩, rfl⟩

end

end MarkdownLinks.FileTree
