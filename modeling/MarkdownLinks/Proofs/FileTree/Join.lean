import Mathlib.Data.List.Basic
import MarkdownLinks.FileTree.Path

/-! Paths joined with names. A name is a text that a directory can have an entry under: it has no slash and
is neither empty nor one of the two that stand for a directory itself and for its parent. Whatever slashes a
path ends in, joining it with a name puts the name behind the written parts of the path, so it adds the name to
the components, and names that are joined one after the other can be read off the result. -/

namespace MarkdownLinks.Path

/-- Whether a text can be the name of an entry of a directory. -/
def IsName (s : Text) : Prop := s ≠ [] ∧ s ≠ ['.'] ∧ s ≠ ['.', '.'] ∧ '/' ∉ s

instance (s : Text) : Decidable (IsName s) := inferInstanceAs (Decidable (_ ∧ _))

/-- The path that leads from a path through some names. -/
def joinAll (path : Text) (names : List Text) : Text := names.foldl join path

@[simp] theorem joinAll_nil (path : Text) : joinAll path [] = path := rfl

@[simp] theorem joinAll_cons (path name : Text) (names : List Text) :
    joinAll path (name :: names) = joinAll (join path name) names := rfl

section
variable {path name : Text}

theorem join_ne_nil (path name : Text) : join path name ≠ [] := by
  rw [join]
  split
  · rename_i h
    cases path with
    | nil => cases h
    | cons c path => exact List.cons_ne_nil _ _
  · exact List.append_ne_nil_of_right_ne_nil _ (List.cons_ne_nil _ _)

theorem joinAll_ne_nil (hpath : path ≠ []) (names : List Text) : joinAll path names ≠ [] := by
  induction names generalizing path with
  | nil => exact hpath
  | cons name names ih => exact ih (join_ne_nil path name)

theorem head?_join (hpath : path ≠ []) (name : Text) : (join path name).head? = path.head? := by
  obtain ⟨c, path, rfl⟩ := List.exists_cons_of_ne_nil hpath
  rw [join]
  split <;> rfl

/-- Joining puts the name behind the written parts of a path, in the place of the empty one behind a slash at
its end. -/
theorem splitOn_join (path : Text) (hname : '/' ∉ name) :
    ∃ parts, parts ≠ [] ∧ (join path name).splitOn '/' = parts ++ [name] ∧
      (path.splitOn '/' = parts ∨ path.splitOn '/' = parts ++ [[]]) := by
  rw [join]
  by_cases hlast : path.getLast? = some '/'
  · obtain ⟨body, rfl⟩ : ∃ body, path = body ++ ['/'] := List.getLast?_eq_some_iff.1 hlast
    refine ⟨body.splitOn '/', List.splitOn_ne_nil _ _, ?_, Or.inr ?_⟩
    · rw [if_pos hlast, List.append_assoc, List.singleton_append, List.splitOn_append_cons_self,
        List.splitOn_eq_singleton hname]
    · rw [List.splitOn_append_cons_self, List.splitOn_nil]
  · refine ⟨path.splitOn '/', List.splitOn_ne_nil _ _, ?_, Or.inl rfl⟩
    rw [if_neg hlast, List.splitOn_append_cons_self, List.splitOn_eq_singleton hname]

theorem ofText?_of_isName (hname : IsName name) : Component.ofText? name = some (.name name) := by
  obtain ⟨hnil, hhere, hparent, -⟩ := hname
  rw [Component.ofText?, if_neg (not_or.2 ⟨hnil, hhere⟩), if_neg hparent]

/-- Joining adds the name to the components. -/
theorem components_join (hpath : path ≠ []) (hname : IsName name) :
    components (join path name) = components path ++ [.name name] := by
  obtain ⟨parts, hparts, hjoin, hsplit⟩ := splitOn_join path hname.2.2.2
  have hhead : (parts ++ [name]).head? = (path.splitOn '/').head? := by
    obtain ⟨part, parts, rfl⟩ := List.exists_cons_of_ne_nil hparts
    rcases hsplit with hsplit | hsplit <;> rw [hsplit] <;> rfl
  have hread : (path.splitOn '/').filterMap Component.ofText? = parts.filterMap Component.ofText? := by
    rcases hsplit with hsplit | hsplit
    · rw [hsplit]
    · rw [hsplit, List.filterMap_append]
      exact List.append_nil _
  simp only [components, hjoin, head?_join hpath, hhead, List.filterMap_append, hread]
  rw [List.filterMap_cons_some (ofText?_of_isName hname), List.filterMap_nil, List.append_assoc]

theorem components_joinAll (hpath : path ≠ []) {names : List Text} (hnames : ∀ n ∈ names, IsName n) :
    components (joinAll path names) = components path ++ names.map .name := by
  induction names generalizing path with
  | nil => exact (List.append_nil _).symm
  | cons name names ih =>
      rw [joinAll_cons, ih (join_ne_nil path name) fun n hn => hnames n (List.mem_cons_of_mem _ hn),
        components_join hpath (hnames name List.mem_cons_self), List.map_cons, List.append_assoc,
        List.singleton_append]

/-- The name that a path was joined with is the name that it ends in. -/
theorem fileName?_join (hpath : path ≠ []) (hname : IsName name) : fileName? (join path name) = some name := by
  rw [fileName?, components_join hpath hname, List.getLast?_concat]
  rfl

/-- The names that a path was joined with can be read off its components. -/
theorem eq_of_components_joinAll (hpath : path ≠ []) {names more : List Text} (hnames : ∀ n ∈ names, IsName n)
    (hmore : ∀ n ∈ more, IsName n) (h : components (joinAll path names) = components (joinAll path more)) :
    names = more := by
  rw [components_joinAll hpath hnames, components_joinAll hpath hmore] at h
  exact List.map_injective_iff.2 (fun _ _ hc => Component.name.inj hc) (List.append_cancel_left h)

end

/-- Between slashes there is nothing. -/
theorem splitOn_replicate_slash (n : Nat) : (List.replicate n '/').splitOn '/' = List.replicate (n + 1) [] := by
  induction n with
  | zero => rfl
  | succ n ih =>
      rw [List.replicate_succ, List.replicate_succ, ← ih]
      exact List.splitOn_append_cons_self [] _

theorem splitOn_append_slashes (path : Text) (n : Nat) :
    (path ++ List.replicate (n + 1) '/').splitOn '/' = path.splitOn '/' ++ List.replicate (n + 1) [] := by
  rw [List.replicate_succ, List.splitOn_append_cons_self, splitOn_replicate_slash]

/-- Slashes at the end of a path make no difference. -/
theorem components_append_slashes {path : Text} (hpath : path ≠ []) (n : Nat) :
    components (path ++ List.replicate (n + 1) '/') = components path := by
  obtain ⟨c, path, rfl⟩ := List.exists_cons_of_ne_nil hpath
  have hnone : (List.replicate (n + 1) []).filterMap Component.ofText? = [] :=
    List.filterMap_eq_nil_iff.2 fun s hs => by
      rw [List.eq_of_mem_replicate hs]
      rfl
  obtain ⟨part, parts, hparts⟩ := List.exists_cons_of_ne_nil (List.splitOn_ne_nil '/' (c :: path))
  rw [components, components, splitOn_append_slashes, List.filterMap_append, hnone, List.append_nil, hparts]
  rfl

/-- Whether a path is made of names only: it is relative, no dot stands at its front, and `..` nowhere. -/
def OfNames (path : Text) : Prop := ∀ c ∈ components path, c.name? ≠ none

instance (path : Text) : Decidable (OfNames path) := inferInstanceAs (Decidable (∀ c ∈ _, _))

end MarkdownLinks.Path
