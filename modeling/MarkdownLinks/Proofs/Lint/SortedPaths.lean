import MarkdownLinks.Lint.Discovery
import MarkdownLinks.Proofs.FileTree.PathOrder

/-! Paths in their order, each once. Sorting keeps paths that are equal as paths in the order in which they
were found, so what stays of them is the first one found. The sorted paths are therefore told by which paths
they are: they strictly increase, and a path is among them exactly when it is the first of those that were
found with its components. So leaving out some paths before sorting is leaving them out afterwards, as long as
of equal paths all are left out or none. -/

namespace MarkdownLinks

open MarkdownLinks.Path

theorem nodup_of_pairwise_key_lt {ps : List Text} (h : ps.Pairwise fun p q => key p < key q) : ps.Nodup := by
  refine h.imp fun {p q} hlt heq => ?_
  rw [heq] at hlt
  exact lt_irrefl _ hlt

/-- Two rows of paths in strict order with the same paths in them are equal. -/
theorem eq_of_pairwise_key_lt {ps qs : List Text} (hps : ps.Pairwise fun p q => key p < key q)
    (hqs : qs.Pairwise fun p q => key p < key q) (hmem : ∀ p, p ∈ ps ↔ p ∈ qs) : ps = qs := by
  have hperm : ps.Perm qs :=
    (List.perm_ext_iff_of_nodup (nodup_of_pairwise_key_lt hps) (nodup_of_pairwise_key_lt hqs)).2 hmem
  exact hperm.eq_of_pairwise (fun _ _ _ _ hlt hgt => absurd hgt (lt_asymm hlt)) hps hqs

theorem mem_of_mem_dropRepeats {ps : List Text} {p : Text} (h : p ∈ dropRepeats ps) : p ∈ ps := by
  fun_induction dropRepeats ps with
  | case1 a b rest hab ih =>
      rcases List.mem_cons.1 (ih h) with rfl | hmem
      · exact List.mem_cons_self
      · exact List.mem_cons_of_mem _ (List.mem_cons_of_mem _ hmem)
  | case2 a b rest hab ih =>
      rcases List.mem_cons.1 h with rfl | hmem
      · exact List.mem_cons_self
      · exact List.mem_cons_of_mem _ (ih hmem)
  | case3 short hshort => exact h

section
variable {ps : List Text}

theorem pairwise_dropRepeats (hps : ps.Pairwise fun p q => key p ≤ key q) :
    (dropRepeats ps).Pairwise fun p q => key p < key q := by
  fun_induction dropRepeats ps with
  | case1 a b rest hab ih => exact ih (hps.sublist ((List.sublist_cons_self b rest).cons_cons a))
  | case2 a b rest hab ih =>
      obtain ⟨ha, hrest⟩ := List.pairwise_cons.1 hps
      refine List.pairwise_cons.2 ⟨fun q hq => ?_, ih hrest⟩
      have hlt : key a < key b := lt_of_le_of_ne (ha b List.mem_cons_self) hab
      rcases List.mem_cons.1 (mem_of_mem_dropRepeats hq) with rfl | hmem
      · exact hlt
      · exact lt_of_lt_of_le hlt ((List.pairwise_cons.1 hrest).1 q hmem)
  | case3 short hshort =>
      match short, hshort with
      | [], _ => exact List.Pairwise.nil
      | [a], _ => exact List.pairwise_singleton _ a
      | a :: b :: rest, hshort => exact absurd rfl (hshort a b rest)

/-- Of equal paths the first one stays. -/
theorem mem_dropRepeats_iff (hps : ps.Pairwise fun p q => key p ≤ key q) (p : Text) :
    p ∈ dropRepeats ps ↔ ps.find? (fun q => key q = key p) = some p := by
  fun_induction dropRepeats ps with
  | case1 a b rest hab ih =>
      rw [ih (hps.sublist ((List.sublist_cons_self b rest).cons_cons a)), List.find?_cons, List.find?_cons,
        List.find?_cons, hab]
      cases decide (key b = key p) <;> rfl
  | case2 a b rest hab ih =>
      obtain ⟨ha, hrest⟩ := List.pairwise_cons.1 hps
      rw [List.mem_cons, ih hrest]
      by_cases hkey : key a = key p
      · -- No later path is equal to the first one, so none of them stays beside it.
        have hnot : p ∉ b :: rest := fun hmem => by
          have hlt : key a < key b := lt_of_le_of_ne (ha b List.mem_cons_self) hab
          refine absurd hkey (ne_of_lt ?_)
          rcases List.mem_cons.1 hmem with rfl | hmem
          · exact hlt
          · exact lt_of_lt_of_le hlt ((List.pairwise_cons.1 hrest).1 p hmem)
        have hfirst : (a :: b :: rest).find? (fun q => key q = key p) = some a := by simp [hkey]
        rw [hfirst, Option.some.injEq]
        exact ⟨fun h => h.elim Eq.symm fun h => absurd (List.mem_of_find?_eq_some h) hnot,
          fun h => Or.inl h.symm⟩
      · have hne : p ≠ a := fun h => hkey (h ▸ rfl)
        have hlater : (a :: b :: rest).find? (fun q => key q = key p) =
            (b :: rest).find? (fun q => key q = key p) := by
          rw [List.find?_cons, decide_eq_false hkey]
        rw [hlater, or_iff_right hne]
  | case3 short hshort =>
      match short, hshort with
      | [], _ => simp
      | [a], _ =>
          rw [List.mem_singleton, List.find?_singleton]
          by_cases hkey : key a = key p
          · simp [hkey, eq_comm]
          · have hne : p ≠ a := fun h => hkey (h ▸ rfl)
            simp [hkey, hne]
      | a :: b :: rest, hshort => exact absurd rfl (hshort a b rest)

end

section
variable (ps : List Text)

theorem pairwise_mergeSort_le : (ps.mergeSort le).Pairwise fun p q => key p ≤ key q :=
  have hsorted : (ps.mergeSort le).Pairwise fun p q => le p q = true :=
    List.pairwise_mergeSort le_of_le_of_le le_or_le ps
  hsorted.imp le_iff_key_le.1

/-- Sorting keeps equal paths in their order. -/
theorem filter_mergeSort (k : List (List Nat)) :
    (ps.mergeSort le).filter (fun q => key q = k) = ps.filter fun q => key q = k := by
  have hequal : (ps.filter fun q => key q = k).Pairwise fun p q => le p q = true := by
    refine List.pairwise_of_forall_mem_list fun p hp q hq => le_iff_key_le.2 ?_
    rw [of_decide_eq_true (List.mem_filter.1 hp).2, of_decide_eq_true (List.mem_filter.1 hq).2]
  have hmerged : (ps.filter fun q => key q = k).Sublist (ps.mergeSort le) :=
    List.sublist_mergeSort le_of_le_of_le le_or_le hequal List.filter_sublist
  have hsub := hmerged.filter fun q => decide (key q = k)
  rw [List.filter_filter] at hsub
  simp only [Bool.and_self] at hsub
  refine (hsub.eq_of_length ?_).symm
  exact ((ps.mergeSort_perm le).filter _).length_eq.symm

theorem sortPaths_pairwise : (sortPaths ps).Pairwise fun p q => key p < key q :=
  pairwise_dropRepeats (pairwise_mergeSort_le ps)

/-- A path is among the sorted ones if it is the first of those with its components. -/
theorem mem_sortPaths_iff (p : Text) : p ∈ sortPaths ps ↔ ps.find? (fun q => key q = key p) = some p := by
  rw [sortPaths, mem_dropRepeats_iff (pairwise_mergeSort_le ps), ← List.head?_filter, filter_mergeSort,
    List.head?_filter]

theorem nodup_sortPaths : (sortPaths ps).Nodup := nodup_of_pairwise_key_lt (sortPaths_pairwise ps)

end

theorem mem_of_mem_sortPaths {ps : List Text} {p : Text} (h : p ∈ sortPaths ps) : p ∈ ps :=
  List.mem_of_find?_eq_some ((mem_sortPaths_iff ps p).1 h)

/-- Sorted paths are told apart as paths. -/
theorem eq_of_mem_sortPaths {ps : List Text} {p q : Text} (hp : p ∈ sortPaths ps) (hq : q ∈ sortPaths ps)
    (h : components p = components q) : p = q := by
  rw [mem_sortPaths_iff, key_eq_iff.2 h] at hp
  exact Option.some.inj (hp.symm.trans ((mem_sortPaths_iff ps q).1 hq))

/-- Paths in strict order are the sorted ones if each is the first of its equals and stands for all of them. -/
theorem sortPaths_eq {ps qs : List Text} (hqs : qs.Pairwise fun p q => key p < key q)
    (hfirst : ∀ q ∈ qs, ps.find? (fun p => key p = key q) = some q) (hall : ∀ p ∈ ps, ∃ q ∈ qs, key q = key p) :
    sortPaths ps = qs := by
  refine eq_of_pairwise_key_lt (sortPaths_pairwise ps) hqs fun p => ⟨fun hp => ?_, fun hp => ?_⟩
  · obtain ⟨q, hq, hkey⟩ := hall p (mem_of_mem_sortPaths hp)
    have hfind := hfirst q hq
    rw [hkey, (mem_sortPaths_iff ps p).1 hp] at hfind
    rwa [Option.some.inj hfind]
  · exact (mem_sortPaths_iff ps p).2 (hfirst p hp)

/-- As paths the sorted ones are those that were found. -/
theorem exists_mem_sortPaths_iff {ps : List Text} {q : Text} :
    (∃ p ∈ sortPaths ps, components p = components q) ↔ ∃ p ∈ ps, components p = components q := by
  refine ⟨fun ⟨p, hp, hq⟩ => ⟨p, mem_of_mem_sortPaths hp, hq⟩, fun ⟨p, hp, hq⟩ => ?_⟩
  obtain ⟨first, hfirst⟩ : ∃ first, ps.find? (fun r => key r = key p) = some first :=
    Option.isSome_iff_exists.1 (List.find?_isSome.2 ⟨p, hp, decide_eq_true rfl⟩)
  have hkey : key first = key p := by simpa using List.find?_some hfirst
  exact ⟨first, (mem_sortPaths_iff ps first).2 (by rwa [hkey]), (key_eq_iff.1 hkey).trans hq⟩

/-- Paths that are left out with all their equals are left out before sorting or after it. -/
theorem sortPaths_filter {ps : List Text} {keep : Text → Bool}
    (hkeep : ∀ p ∈ ps, ∀ q ∈ ps, components p = components q → keep p = keep q) :
    sortPaths (ps.filter keep) = (sortPaths ps).filter keep := by
  refine eq_of_pairwise_key_lt (sortPaths_pairwise _) ((sortPaths_pairwise ps).filter keep) fun p => ?_
  rw [List.mem_filter, mem_sortPaths_iff, mem_sortPaths_iff, ← List.head?_filter, ← List.head?_filter,
    List.filter_filter]
  by_cases hp : p ∈ ps
  · have hsame : ps.filter (fun q => decide (key q = key p) && keep q) =
        ps.filter (fun q => decide (key q = key p) && keep p) := by
      refine List.filter_congr fun q hq => ?_
      by_cases hkey : key q = key p
      · rw [hkeep q hq p hp (key_eq_iff.1 hkey)]
      · simp [hkey]
    rw [hsame]
    cases keep p <;> simp
  · refine iff_of_false (fun h => hp ?_) fun h => hp ?_
    · exact (List.mem_filter.1 (List.mem_of_head? h)).1
    · exact (List.mem_filter.1 (List.mem_of_head? h.1)).1

theorem key_eq_iff_le {a b : Text} : key a = key b ↔ le a b = true ∧ le b a = true := by
  rw [le_iff_key_le, le_iff_key_le]
  exact ⟨fun h => ⟨h.le, h.ge⟩, fun h => le_antisymm h.1 h.2⟩

theorem dropRepeats_map {f : Text → Text} {ps : List Text}
    (hf : ∀ p ∈ ps, ∀ q ∈ ps, le (f p) (f q) = le p q) : dropRepeats (ps.map f) = (dropRepeats ps).map f := by
  have hkey : ∀ p ∈ ps, ∀ q ∈ ps, key (f p) = key (f q) ↔ key p = key q := fun p hp q hq => by
    rw [key_eq_iff_le, key_eq_iff_le, hf p hp q hq, hf q hq p hp]
  clear hf
  fun_induction dropRepeats ps with
  | case1 a b rest hab ih =>
      have hsame := (hkey a List.mem_cons_self b (List.mem_cons_of_mem a List.mem_cons_self)).2 hab
      have hrest : a :: rest ⊆ a :: b :: rest := ((List.sublist_cons_self b rest).cons_cons a).subset
      rw [List.map_cons, List.map_cons, dropRepeats, if_pos hsame, ← List.map_cons]
      exact ih fun p hp q hq => hkey p (hrest hp) q (hrest hq)
  | case2 a b rest hab ih =>
      have hother := mt (hkey a List.mem_cons_self b (List.mem_cons_of_mem a List.mem_cons_self)).1 hab
      have hrest : b :: rest ⊆ a :: b :: rest := List.subset_cons_self a _
      rw [List.map_cons, List.map_cons, dropRepeats, if_neg hother, ← List.map_cons]
      exact congrArg (f a :: ·) (ih fun p hp q hq => hkey p (hrest hp) q (hrest hq))
  | case3 short hshort =>
      match short, hshort with
      | [], _ => simp [dropRepeats]
      | [a], _ => simp [dropRepeats]
      | a :: b :: rest, hshort => exact absurd rfl (hshort a b rest)

/-- Paths are sorted as they were if they are written in another way that keeps their order. -/
theorem sortPaths_map {f : Text → Text} {ps : List Text} (hf : ∀ p ∈ ps, ∀ q ∈ ps, le (f p) (f q) = le p q) :
    sortPaths (ps.map f) = (sortPaths ps).map f := by
  rw [sortPaths, sortPaths, ← List.map_mergeSort fun p hp q hq => (hf p hp q hq).symm]
  refine dropRepeats_map fun p hp q hq => hf p ?_ q ?_
  · exact List.mem_mergeSort.1 hp
  · exact List.mem_mergeSort.1 hq

end MarkdownLinks
