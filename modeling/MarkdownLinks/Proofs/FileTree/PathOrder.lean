import Mathlib.Data.List.Lex
import MarkdownLinks.FileTree.Path

/-! The order of paths. Paths are compared by their keys, the keys of their components one after the other,
and keys are linearly ordered. Two paths have one key exactly when they have the same components, so paths
that neither stands before the other are equal as paths. -/

namespace MarkdownLinks.Path

theorem Component.key_injective {c d : Component} (h : c.key = d.key) : c = d := by
  cases c with
  | name s =>
      cases d with
      | name u =>
          -- No byte has the rank of the delimiter, so the characters behind it are the same.
          have hbytes : ∀ bytes : List UInt8, 0 ∉ bytes.map (fun b => b.toNat + 1) := by simp
          have hchars := (append_delimiter_inj (hbytes _) (hbytes _) (List.cons.inj h).2).2
          rw [List.map_injective_iff.2 (fun _ _ hc => Char.toNat_inj.1 hc) hchars]
      | _ => simp [key] at h
  | _ => cases d <;> simp_all [key]

theorem key_eq_iff {a b : Text} : key a = key b ↔ components a = components b := by
  refine ⟨fun h => ?_, fun h => by rw [key, key, h]⟩
  exact List.map_injective_iff.2 (fun _ _ hc => Component.key_injective hc) h

theorem le_iff_key_le {a b : Text} : le a b = true ↔ key a ≤ key b := by
  have hlex : (key b).lex (key a) (fun x y => x.lex y fun m n => m < n) = decide (key b < key a) := by
    rw [List.lex_eq_decide_lex]
    simp only [List.lex_eq_decide_lex, decide_eq_true_eq]
    exact decide_eq_decide.2 Iff.rfl
  rw [le, hlex]
  simp

theorem le_of_le_of_le (a b c : Text) (hab : le a b = true) (hbc : le b c = true) : le a c = true :=
  le_iff_key_le.2 ((le_iff_key_le.1 hab).trans (le_iff_key_le.1 hbc))

theorem le_or_le (a b : Text) : (le a b || le b a) = true := by
  rw [Bool.or_eq_true, le_iff_key_le, le_iff_key_le]
  exact le_total (key a) (key b)

end MarkdownLinks.Path
