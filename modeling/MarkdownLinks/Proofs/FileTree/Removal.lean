import MarkdownLinks.Proofs.FileTree.Resolve

/-! A tree that loses a file. In a tree without links every path with a place elsewhere leads there as before, or
is refused as before, and a walk comes across the same paths but those that lead to the file. The proof goes down
the walk and keeps for each directory that its path leads to it. -/

namespace MarkdownLinks.FileTree

open MarkdownLinks.Path

section
variable {t : FileTree} {gone location here : Location} {e : Entry} {bytes : ByteArray}

theorem mem_entries_remove_iff : (location, e) ∈ (t.remove gone).entries ↔
    (location, e) ∈ t.entries ∧ location ≠ gone := by
  rw [remove, List.mem_filter, decide_eq_true_iff]

theorem entry?_remove (hne : location ≠ gone) : entry? (t.remove gone) location = t.entry? location := by
  by_cases hnil : location = []
  · rw [hnil]
    rfl
  · refine Option.ext fun e => ⟨fun h => ?_, fun h => ?_⟩
    · exact entry?_eq_some_of_mem hnil (mem_entries_remove_iff.1 (mem_entries_of_eq_some hnil h)).1
    · exact entry?_eq_some_of_mem hnil (mem_entries_remove_iff.2 ⟨mem_entries_of_eq_some hnil h, hne⟩)

theorem isDirectory_remove (hgone : t.entry? gone = some (.file bytes)) (location : Location) :
    (t.remove gone).isDirectory location = t.isDirectory location := by
  by_cases hne : location = gone
  · have hnone : entry? (t.remove gone) gone = none := by
      refine Option.eq_none_iff_forall_ne_some.2 fun e he => ?_
      exact (mem_entries_remove_iff.1 (mem_entries_of_eq_some (ne_nil_of_file hgone) he)).2 rfl
    rw [hne, isDirectory, isDirectory, hnone, hgone]
  · rw [isDirectory, isDirectory, entry?_remove hne]

theorem LinkFree.remove (ht : t.LinkFree) (gone : Location) : (t.remove gone).LinkFree :=
  fun e he => ht e (List.mem_filter.1 he).1

theorem children_remove (t : FileTree) (gone location : Location) :
    (t.remove gone).children location =
      (t.children location).filter fun child => location ++ [child.1] ≠ gone := by
  rw [children, remove, children, List.filterMap_filter, List.filter_filterMap]
  congr 1
  funext entry
  obtain ⟨l, e⟩ := entry
  dsimp only
  by_cases hdrop : l.dropLast = location
  · rw [if_pos hdrop]
    cases hlast : l.getLast? with
    | none =>
        simp
    | some name =>
        obtain ⟨body, rfl⟩ := List.getLast?_eq_some_iff.1 hlast
        rw [List.dropLast_concat] at hdrop
        subst hdrop
        by_cases hgone : body ++ [name] = gone <;> simp [hgone, Option.filter]
  · rw [if_neg hdrop]
    split <;> rfl

theorem refusal?_remove (hgone : t.entry? gone = some (.file bytes)) (here : Location) (name : Text) :
    (t.remove gone).refusal? here name = t.refusal? here name := by
  rw [refusal?, refusal?, isDirectory_remove hgone]
  rfl

/-- A way that leads elsewhere passes no file. -/
theorem Leads.ne_of_name {name : Text} {names : List Text} (hgone : t.entry? gone = some (.file bytes))
    (h : Leads t (here ++ [name]) names location) (hne : location ≠ gone) : here ++ [name] ≠ gone := by
  intro heq
  rw [heq] at h
  have hfile : t.isDirectory gone = false := by rw [isDirectory, hgone]
  cases h with
  | nil => exact hne rfl
  | stay hdirectory => cases hfile.symm.trans hdirectory
  | parent hdirectory => cases hfile.symm.trans hdirectory
  | name hdirectory => cases hfile.symm.trans hdirectory

theorem Leads.remove {names : List Text} (hgone : t.entry? gone = some (.file bytes))
    (h : Leads t here names location) (hne : location ≠ gone) : Leads (t.remove gone) here names location := by
  induction h with
  | nil => exact .nil
  | stay hdirectory hname _ ih => exact .stay ((isDirectory_remove hgone _).trans hdirectory) hname (ih hne)
  | parent hdirectory hname _ ih =>
      exact .parent ((isDirectory_remove hgone _).trans hdirectory) hname (ih hne)
  | name hdirectory hname hshort he hlink h ih =>
      exact .name ((isDirectory_remove hgone _).trans hdirectory) hname hshort
        ((entry?_remove (h.ne_of_name hgone hne)).trans he) hlink (ih hne)

/-- On a way that leads elsewhere each name is looked up or refused as before. -/
theorem Leads.followNames_remove {names : List Text} {onLink onLink' : Location → List Text → Except Fault Location}
    (hgone : t.entry? gone = some (.file bytes)) (h : Leads t here names location) (hne : location ≠ gone) :
    followNames (t.remove gone) .find onLink here names = followNames t .find onLink' here names := by
  induction h with
  | nil => rfl
  | stay _ hname _ ih =>
      refine followNames_congr (refusal?_remove hgone _ _) fun hopen' hopen => ?_
      rw [followNames_of_stay hopen hname, followNames_of_stay hopen' hname, ih hne]
  | parent _ hname _ ih =>
      refine followNames_congr (refusal?_remove hgone _ _) fun hopen' hopen => ?_
      rw [followNames_of_parent hopen hname, followNames_of_parent hopen' hname, ih hne]
  | @name _ _ _ _ e _ hname hshort he hlink h ih =>
      refine followNames_congr (refusal?_remove hgone _ _) fun hopen' hopen => ?_
      rw [followNames_of_name hopen hname hshort, followNames_of_name hopen' hname hshort,
        entry?_remove (h.ne_of_name hgone hne), he]
      cases e with
      | link target => cases hlink
      | _ => exact ih hne

theorem place?_remove (ht : t.LinkFree) (hgone : t.entry? gone = some (.file bytes)) {path : Text}
    (h : t.place? path = some location) (hne : location ≠ gone) :
    (t.remove gone).place? path = some location :=
  (place?_eq_some_iff (ht.remove gone)).2 (((place?_eq_some_iff ht).1 h).remove hgone hne)

/-- A path with a place elsewhere leads there as before, or is refused as before. -/
theorem resolve_remove (ht : t.LinkFree) (hgone : t.entry? gone = some (.file bytes)) {path : Text}
    (h : t.place? path = some location) (hne : location ≠ gone) :
    (t.remove gone).resolve .find path = t.resolve .find path := by
  have hfollow : (t.remove gone).follow .find maxLinks (start path t.working) (path.splitOn '/') =
      t.follow .find maxLinks (start path t.working) (path.splitOn '/') :=
    ((place?_eq_some_iff ht).1 h).followNames_remove hgone hne
  rw [resolve, resolve]
  split
  · rfl
  split
  · rfl
  · exact hfollow

theorem status_remove (ht : t.LinkFree) (hgone : t.entry? gone = some (.file bytes)) {path : Text}
    (h : t.place? path = some location) (hne : location ≠ gone) :
    (t.remove gone).status path = t.status path := by
  rw [status, status, resolve_remove ht hgone h hne]
  rcases resolve_eq_ok_or_error h with hresolve | ⟨fault, hresolve⟩ <;> rw [hresolve]
  dsimp only
  rw [entry?_remove hne]

/-- Elements that pass no test are left out as well by making nothing of them. -/
theorem flatMap_filter_congr {α β : Type} {f g : α → List β} {p : α → Bool} {s : List α}
    (hpass : ∀ a ∈ s, p a = true → f a = g a) (hnot : ∀ a ∈ s, p a = false → g a = []) :
    (s.filter p).flatMap f = s.flatMap g := by
  induction s with
  | nil => rfl
  | cons a s ih =>
      have ih := ih (fun b hb => hpass b (List.mem_cons_of_mem _ hb)) fun b hb => hnot b (List.mem_cons_of_mem _ hb)
      rw [List.flatMap_cons, ← ih]
      cases hp : p a with
      | true => rw [List.filter_cons_of_pos hp, List.flatMap_cons, hpass a List.mem_cons_self hp]
      | false =>
          rw [List.filter_cons_of_neg (by rw [hp]; decide), hnot a List.mem_cons_self hp, List.nil_append]

/-- Whether a visit is not to the file at a location. -/
def avoids (t : FileTree) (gone : Location) : Visit → Bool
  | .file path => t.place? path ≠ some gone
  | .fault .. => true

/-- A walk through a tree that has lost a file comes across everything but the file. -/
theorem walkDirectory_remove (ht : t.WellFormed) (hfree : t.LinkFree)
    (hgone : t.entry? gone = some (.file bytes)) (options : WalkOptions) (depth : Nat) (outer : Ancestors)
    {path : Text} (hne : path ≠ []) (hpath : t.place? path = some location)
    (hdirectory : t.isDirectory location = true) :
    (t.remove gone).walkDirectory options depth outer path location =
      (t.walkDirectory options depth outer path location).filter (t.avoids gone) := by
  induction depth generalizing outer path location with
  | zero => rfl
  | succ depth ih =>
      have helsewhere : location ≠ gone := by
        rintro rfl
        cases hgone.symm.trans (isDirectory_iff.1 hdirectory)
      have hlist : (t.remove gone).listFault? path location = t.listFault? path location := by
        rw [listFault?, listFault?, resolve_remove hfree hgone hpath helsewhere]
        rfl
      rw [walkDirectory, walkDirectory, hlist]
      split
      · rfl
      dsimp only
      rw [List.filter_flatMap, children_remove]
      apply flatMap_filter_congr
      · rintro ⟨name, e⟩ hchild hstays
        have he := mem_children_iff.1 hchild
        have hbelow := place?_join ht hfree hne hpath hdirectory he
        cases e with
        | file _ =>
            have havoids : t.avoids gone (.file (join path name)) = true := by
              rw [avoids, hbelow]
              simpa using hstays
            dsimp only
            rw [List.filter_cons_of_pos havoids, List.filter_nil]
        | directory =>
            dsimp only
            split
            · rfl
            · exact ih _ (join_ne_nil path name) hbelow (isDirectory_iff.2 he)
        | link target => cases hfree.isLink_eq_false he
      · rintro ⟨name, e⟩ hchild hgoes
        have he := mem_children_iff.1 hchild
        have hbelow := place?_join ht hfree hne hpath hdirectory he
        have hlocation : location ++ [name] = gone := by simpa using hgoes
        rw [hlocation] at he hbelow
        cases hgone.symm.trans he
        have havoids : t.avoids gone (.file (join path name)) = false := by
          rw [avoids, hbelow]
          simp
        dsimp only
        rw [List.filter_cons_of_neg (by rw [havoids]; decide), List.filter_nil]

end

end MarkdownLinks.FileTree
