import MarkdownLinks.FileTree.Walk
import MarkdownLinks.Proofs.FileTree.Join

/-! What a walk comes across. A descent leads from a directory through directories that are not to be skipped
to a file; links are no part of one. A walk that follows no links gives a file exactly for each descent that
is not longer than the walk is deep, and gives it by the path of the directory joined with the names of the
descent, as long as the system lets every directory be entered that the walk comes to. One lemma says what a walk does
in one directory; the others follow from it by induction on the depth and along the descent. -/

namespace MarkdownLinks

def Entry.isLink : Entry → Bool
  | .link _ => true
  | _ => false

/-- The number of bytes in a file. -/
def Entry.size : Entry → Nat
  | .file bytes => bytes.size
  | _ => 0

namespace FileTree

open MarkdownLinks.Path

/-- A tree as a system can have it: every entry lies in a directory, has a name that is not too long, and is
not larger than a file can be. -/
structure WellFormed (t : FileTree) : Prop where
  isName : ∀ e ∈ t.entries, ∀ name ∈ e.1, IsName name ∧ exceeds maxNameBytes name = false
  inDirectory : ∀ e ∈ t.entries, t.isDirectory e.1.dropLast = true
  size_le : ∀ e ∈ t.entries, e.2.size ≤ maxFileBytes

instance (t : FileTree) : Decidable t.WellFormed :=
  decidable_of_iff ((∀ e ∈ t.entries, ∀ name ∈ e.1, IsName name ∧ exceeds maxNameBytes name = false) ∧
      (∀ e ∈ t.entries, t.isDirectory e.1.dropLast = true) ∧ ∀ e ∈ t.entries, e.2.size ≤ maxFileBytes)
    ⟨fun ⟨hname, hdirectory, hsize⟩ => ⟨hname, hdirectory, hsize⟩, fun h => ⟨h.isName, h.inDirectory, h.size_le⟩⟩

/-- A tree without symbolic links. -/
def LinkFree (t : FileTree) : Prop := ∀ e ∈ t.entries, e.2.isLink = false

instance (t : FileTree) : Decidable t.LinkFree := inferInstanceAs (Decidable (∀ e ∈ _, _))

section
variable {t : FileTree} {location : Location} {name : Text} {e : Entry}

theorem lookup_eq (hne : location ≠ []) : t.entry? location = t.entries.lookup location := if_neg hne

theorem mem_entries_of_eq_some (hne : location ≠ []) (h : t.entry? location = some e) :
    (location, e) ∈ t.entries := by
  rw [lookup_eq hne, List.lookup_eq_some_iff] at h
  obtain ⟨before, after, hsplit, -⟩ := h
  rw [hsplit]
  exact List.mem_append_right _ List.mem_cons_self

theorem entry?_eq_some_of_mem (hne : location ≠ []) (h : (location, e) ∈ t.entries) :
    t.entry? location = some e := by
  obtain ⟨before, after, hsplit⟩ := List.append_of_mem h
  rw [lookup_eq hne, List.lookup_eq_some_iff]
  refine ⟨before, after, hsplit, fun p hp => bne_iff_ne.2 fun heq => ?_⟩
  have hnodup := t.nodup
  rw [hsplit, List.map_append, List.map_cons, List.nodup_append] at hnodup
  exact hnodup.2.2 p.1 (List.mem_map_of_mem hp) location List.mem_cons_self heq.symm

theorem mem_children_iff : (name, e) ∈ t.children location ↔ t.entry? (location ++ [name]) = some e := by
  have hne : location ++ [name] ≠ [] := List.append_ne_nil_of_right_ne_nil _ (List.cons_ne_nil _ _)
  rw [children, List.mem_filterMap]
  constructor
  · rintro ⟨⟨l, e'⟩, hmem, h⟩
    dsimp only at h
    split at h
    · rename_i hdrop
      obtain ⟨last, hlast, h⟩ := Option.map_eq_some_iff.1 h
      cases h
      obtain ⟨body, rfl⟩ := List.getLast?_eq_some_iff.1 hlast
      rw [List.dropLast_concat] at hdrop
      exact entry?_eq_some_of_mem hne (hdrop ▸ hmem)
    · cases h
  · intro h
    refine ⟨(location ++ [name], e), mem_entries_of_eq_some hne h, ?_⟩
    simp

theorem WellFormed.isName_of_entry (ht : t.WellFormed) (h : t.entry? location = some e)
    (hname : name ∈ location) : IsName name ∧ exceeds maxNameBytes name = false :=
  ht.isName _ (mem_entries_of_eq_some (List.ne_nil_of_mem hname) h) name hname

theorem ne_nil_of_file {bytes : ByteArray} (h : t.entry? location = some (.file bytes)) : location ≠ [] := by
  rintro rfl
  cases h

theorem isDirectory_iff : t.isDirectory location = true ↔ t.entry? location = some .directory := by
  rw [isDirectory]
  split <;> simp_all

end

/-- Names that lead from a directory to a file, through directories that are not to be skipped. -/
inductive Descent (t : FileTree) (skipDirs : List Text) : Location → List Text → Prop
  | file {location : Location} {name : Text} {bytes : ByteArray}
      (h : t.entry? (location ++ [name]) = some (.file bytes)) : Descent t skipDirs location [name]
  | directory {location : Location} {name : Text} {names : List Text}
      (h : t.entry? (location ++ [name]) = some .directory) (hskip : name ∉ skipDirs)
      (hbelow : Descent t skipDirs (location ++ [name]) names) : Descent t skipDirs location (name :: names)

namespace Descent

variable {t : FileTree} {skipDirs : List Text} {location : Location} {names : List Text}

theorem ne_nil (h : Descent t skipDirs location names) : names ≠ [] := by
  cases h <;> exact List.cons_ne_nil _ _

theorem exists_file (h : Descent t skipDirs location names) :
    ∃ bytes, t.entry? (location ++ names) = some (.file bytes) := by
  induction h with
  | file h => exact ⟨_, h⟩
  | directory _ _ _ ih =>
      obtain ⟨bytes, hbytes⟩ := ih
      exact ⟨bytes, by rwa [List.append_assoc] at hbytes⟩

/-- No link is met on a descent. -/
theorem not_link (h : Descent t skipDirs location names) {pre : List Text} (hpre : pre <+: names)
    (hne : pre ≠ []) {target : Text} : t.entry? (location ++ pre) ≠ some (.link target) := by
  obtain ⟨first, rest, rfl⟩ := List.exists_cons_of_ne_nil hne
  induction h generalizing first rest with
  | file h =>
      obtain ⟨rfl, hrest⟩ := List.cons_prefix_cons.1 hpre
      rw [List.prefix_nil.1 hrest, h]
      exact fun heq => Entry.noConfusion (Option.some.inj heq)
  | @directory location _ _ h _ _ ih =>
      obtain ⟨rfl, hrest⟩ := List.cons_prefix_cons.1 hpre
      cases rest with
      | nil =>
          rw [h]
          exact fun heq => Entry.noConfusion (Option.some.inj heq)
      | cons second rest =>
          have hbelow := ih second rest hrest (List.cons_ne_nil _ _)
          rwa [List.append_assoc] at hbelow

theorem isName (ht : t.WellFormed) (h : Descent t skipDirs location names) :
    ∀ name ∈ names, IsName name ∧ exceeds maxNameBytes name = false := by
  obtain ⟨bytes, hbytes⟩ := h.exists_file
  exact fun name hname => ht.isName_of_entry hbytes (List.mem_append_right _ hname)

end Descent

section
variable {t : FileTree} {options : WalkOptions} {outer : Ancestors} {path : Text} {location : Location}

/-- What a walk that follows no links does in a directory. -/
theorem mem_walkDirectory_succ (hlinks : options.followLinks = true → t.LinkFree) {depth : Nat} {v : Visit} :
    v ∈ t.walkDirectory options (depth + 1) outer path location ↔
      (∃ fault, t.listFault? path location = some fault ∧ v = .fault path (.system fault)) ∨
      (t.listFault? path location = none ∧ ∃ name,
        (∃ bytes, t.entry? (location ++ [name]) = some (.file bytes) ∧ v = .file (join path name)) ∨
        (name ∉ options.skipDirs ∧ t.entry? (location ++ [name]) = some .directory ∧
          v ∈ t.walkDirectory options depth ((path, location) :: outer) (join path name)
            (location ++ [name]))) := by
  rw [walkDirectory]
  cases hfault : t.listFault? path location with
  | some fault => simp
  | none =>
      simp only [reduceCtorEq, false_and, exists_false, false_or, true_and, List.mem_flatMap, Prod.exists]
      refine exists_congr fun name => ⟨?_, ?_⟩
      · rintro ⟨e, he, hv⟩
        rw [mem_children_iff] at he
        cases e with
        | file bytes => exact Or.inl ⟨bytes, he, List.mem_singleton.1 hv⟩
        | directory =>
            dsimp only at hv
            split at hv
            · cases hv
            · rename_i hskip
              exact Or.inr ⟨hskip, he, hv⟩
        | link target =>
            dsimp only at hv
            split at hv
            · cases hv
            · rename_i hfollow
              have hne : location ++ [name] ≠ [] := List.append_ne_nil_of_right_ne_nil _ (List.cons_ne_nil _ _)
              cases hlinks (by simpa using hfollow) _ (mem_entries_of_eq_some hne he)
      · rintro (⟨bytes, he, rfl⟩ | ⟨hskip, he, hv⟩)
        · exact ⟨.file bytes, mem_children_iff.2 he, List.mem_singleton_self _⟩
        · refine ⟨.directory, mem_children_iff.2 he, ?_⟩
          dsimp only
          rwa [if_neg hskip]

/-- A walk gives files at the ends of descents only. -/
theorem exists_descent_of_mem_walkDirectory (hlinks : options.followLinks = true → t.LinkFree) {depth : Nat}
    {p : Text} (h : .file p ∈ t.walkDirectory options depth outer path location) :
    ∃ names, names.length ≤ depth ∧ Descent t options.skipDirs location names ∧ p = joinAll path names := by
  induction depth generalizing outer path location with
  | zero => cases h
  | succ depth ih =>
      rcases (mem_walkDirectory_succ hlinks).1 h with ⟨_, -, h⟩ | ⟨-, name, ⟨bytes, he, h⟩ | ⟨hskip, he, h⟩⟩
      · cases h
      · cases h
        exact ⟨[name], Nat.succ_le_succ (Nat.zero_le _), .file he, rfl⟩
      · obtain ⟨names, hlength, hdescent, rfl⟩ := ih h
        exact ⟨name :: names, Nat.succ_le_succ hlength, .directory he hskip hdescent, rfl⟩

/-- A walk that can enter every directory comes to the end of every descent that is not too long. -/
theorem mem_walkDirectory_of_descent (hlinks : options.followLinks = true → t.LinkFree) {names : List Text}
    (hdescent : Descent t options.skipDirs location names) {depth : Nat} (hlength : names.length ≤ depth)
    (hentered : ∀ p fault, .fault p fault ∉ t.walkDirectory options depth outer path location) :
    .file (joinAll path names) ∈ t.walkDirectory options depth outer path location := by
  have hlisted : ∀ {depth outer path location},
      (∀ p fault, .fault p fault ∉ t.walkDirectory options (depth + 1) outer path location) →
        t.listFault? path location = none := fun h =>
    Option.eq_none_iff_forall_ne_some.2 fun fault hfault =>
      h _ _ ((mem_walkDirectory_succ hlinks).2 (Or.inl ⟨fault, hfault, rfl⟩))
  induction hdescent generalizing depth outer path with
  | file he =>
      obtain ⟨depth, rfl⟩ := Nat.exists_eq_succ_of_ne_zero (Nat.ne_of_gt hlength)
      exact (mem_walkDirectory_succ hlinks).2 (Or.inr ⟨hlisted hentered, _, Or.inl ⟨_, he, rfl⟩⟩)
  | directory he hskip _ ih =>
      obtain ⟨depth, rfl⟩ := Nat.exists_eq_succ_of_ne_zero (Nat.ne_of_gt (Nat.lt_of_lt_of_le (Nat.succ_pos _) hlength))
      have hnone := hlisted hentered
      refine (mem_walkDirectory_succ hlinks).2 (Or.inr ⟨hnone, _, Or.inr ⟨hskip, he, ?_⟩⟩)
      refine ih (Nat.le_of_succ_le_succ hlength) fun p fault hfault => hentered p fault ?_
      exact (mem_walkDirectory_succ hlinks).2 (Or.inr ⟨hnone, _, Or.inr ⟨hskip, he, hfault⟩⟩)

end

end FileTree

end MarkdownLinks
