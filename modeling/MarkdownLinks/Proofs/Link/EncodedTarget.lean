import MarkdownLinks.Proofs.Link.Target
import MarkdownLinks.Proofs.Text.PercentDecoding

/-! Encoded paths as targets. An encoded path is a text of unreserved characters, separators and escapes, and
has the separators of the path where the path has them, so it is encoded segment by segment. It holds nothing
that the checks on targets look for, and a query or a fragment behind it begins where it ends: such a target
names the very path, and a document exactly if the path ends in the markdown extension. -/

namespace MarkdownLinks

theorem splitOn_append_of_not_mem {a : Char} {w : Text} (hw : a ∉ w) (s : Text) :
    (w ++ s).splitOn a = (s.splitOn a).modifyHead (w ++ ·) := by
  induction w with
  | nil => exact (congrFun List.modifyHead_id _).symm
  | cons c w ih =>
      obtain ⟨hc, hw⟩ := List.ne_and_not_mem_of_not_mem_cons hw
      rw [List.cons_append, List.splitOn_cons_eq_if_modifyHead, if_neg (by simpa using hc.symm), ih hw,
        List.modifyHead_modifyHead]
      rfl

namespace Percent

/-- Texts of letters, digits, the other characters that need no escape, and escapes. -/
inductive Encoded : Text → Prop where
  | nil : Encoded []
  | plain {c : Char} {s : Text} : c.isAlphanum ∨ c ∈ ['-', '_', '.', '~', '/'] → Encoded s → Encoded (c :: s)
  | escaped {a b : Char} {s : Text} :
      (hexValue? a).isSome → (hexValue? b).isSome → Encoded s → Encoded ('%' :: a :: b :: s)

theorem Encoded.append {s t : Text} (hs : Encoded s) (ht : Encoded t) : Encoded (s ++ t) := by
  induction hs with
  | nil => exact ht
  | plain hc _ ih => exact .plain hc ih
  | escaped ha hb _ ih => exact .escaped ha hb ih

theorem Encoded.flatMap {α : Type} {f : α → Text} (hf : ∀ x, Encoded (f x)) (xs : List α) :
    Encoded (xs.flatMap f) := by
  induction xs with
  | nil => exact .nil
  | cons x xs ih => exact (hf x).append ih

theorem encoded_escape (b : UInt8) : Encoded (escape b) := by
  have hb := b.toNat_lt
  refine .escaped ?_ ?_ .nil
  · rw [hexValue?_hexDigit (by omega), Option.isSome_some]
  · rw [hexValue?_hexDigit (by omega), Option.isSome_some]

theorem encoded_encodeChar (c : Char) : Encoded (encodeChar c) := by
  by_cases hc : isPlain c
  · rw [encodeChar, if_pos hc]
    refine .plain ?_ .nil
    simpa [isPlain, or_assoc] using hc
  · rw [encodeChar_of_not_isPlain hc]
    exact .flatMap encoded_escape _

theorem encoded_encodePath (s : Text) : Encoded (encodePath s) := .flatMap encoded_encodeChar s

/-- A separator is encoded as itself, and nothing else as one. -/
theorem encodeChar_slash_cases (c : Char) : c = '/' ∧ encodeChar c = ['/'] ∨ c ≠ '/' ∧ '/' ∉ encodeChar c := by
  by_cases hc : isPlain c
  · rw [encodeChar, if_pos hc, List.mem_singleton]
    by_cases heq : c = '/'
    · exact Or.inl ⟨heq, by rw [heq]⟩
    · exact Or.inr ⟨heq, Ne.symm heq⟩
  · refine Or.inr ⟨?_, fun hslash => absurd (mem_encodeChar hc hslash) (by decide)⟩
    rintro rfl
    exact hc (by decide)

/-- A path is encoded segment by segment. -/
theorem splitOn_encodePath (s : Text) : (encodePath s).splitOn '/' = (s.splitOn '/').map encodePath := by
  induction s with
  | nil => rfl
  | cons c s ih =>
      show (encodeChar c ++ encodePath s).splitOn '/' = ((c :: s).splitOn '/').map encodePath
      rcases encodeChar_slash_cases c with ⟨rfl, hc⟩ | ⟨hne, hc⟩
      · rw [hc, List.singleton_append, List.splitOn_cons_eq_if_modifyHead, List.splitOn_cons_eq_if_modifyHead,
          if_pos (beq_self_eq_true _), if_pos (beq_self_eq_true _), ih, List.map_cons]
        rfl
      · obtain ⟨segment, segments, hsplit⟩ := List.exists_cons_of_ne_nil (List.splitOn_ne_nil '/' s)
        rw [splitOn_append_of_not_mem hc, List.splitOn_cons_eq_if_modifyHead, if_neg (by simpa using hne), ih, hsplit]
        rfl

theorem encodePath_injective : Function.Injective encodePath := fun s t h => by
  rw [← decode_encodePath s, h, decode_encodePath]

theorem toNat_of_isAlphanum {c : Char} (h : c.isAlphanum) : 0x30 ≤ c.toNat ∧ c.toNat ≤ 0x7A := by
  have hranges : ((decide ('A'.val ≤ c.val ∧ c.val ≤ 'Z'.val) ||
      (decide ('a'.val ≤ c.val) && decide (c.val ≤ 'z'.val))) || c.isDigit) = true := h
  simp only [Bool.or_eq_true, Bool.and_eq_true, decide_eq_true_eq, UInt32.le_iff_toNat_le, Char.isDigit_iff_toNat,
    Char.toNat_val] at hranges
  have hbounds : ∀ d ∈ ['0', '9', 'A', 'Z', 'a', 'z'], 0x30 ≤ d.toNat ∧ d.toNat ≤ 0x7A := by simp
  simp only [List.forall_mem_cons] at hbounds
  omega

theorem isBlank_eq_false_of_mem_encodePath {c : Char} {s : Text} (h : c ∈ encodePath s) : isBlank c = false := by
  have hmarks : ∀ d ∈ ['%', '-', '_', '.', '~', '/'], isBlank d = false := by simp [isBlank]
  by_cases hc : c.isAlphanum
  · have hrange := toNat_of_isAlphanum hc
    simp only [isBlank, Bool.or_eq_false_iff, Bool.and_eq_false_iff, decide_eq_false_iff_not, beq_eq_false_iff_ne]
    omega
  · apply hmarks
    simpa [isPlain, hc, or_assoc] using mem_encodePath h

end Percent

namespace Target

open Percent

theorem needsEscape_encodePath (s : Text) : needsEscape (encodePath s) = false := by
  refine List.any_eq_false.2 fun c hc hraw => ?_
  rw [Bool.or_eq_true, beq_iff_eq, beq_iff_eq] at hraw
  rcases hraw with rfl | rfl
  · exact not_mem_encodePath (by decide) (by decide) s hc
  · exact not_mem_encodePath (by decide) (by decide) s hc

section
variable {query : Text} (hquery : ∀ c ∈ query.head?, c = '?' ∨ c = '#') (s : Text)
include hquery

/-- A query or a fragment begins where the encoded path ends. -/
theorem path_encodePath_append : path (encodePath s ++ query) = encodePath s := by
  have hfree : ∀ c ∈ encodePath s, c ≠ '?' ∧ c ≠ '#' := fun c hc => by
    constructor
    · rintro rfl
      exact not_mem_encodePath (by decide) (by decide) s hc
    · rintro rfl
      exact not_mem_encodePath (by decide) (by decide) s hc
  have hempty : path query = [] := by
    cases query with
    | nil => rfl
    | cons c query => exact path_cons_of_eq (hquery c rfl) query
  rw [path_append hfree, hempty, List.append_nil]

theorem isExternal_encodePath_append : isExternal (encodePath s ++ query) = false := by
  refine Bool.eq_false_iff.2 fun h => ?_
  have hcolon := colon_mem_path h
  rw [path_encodePath_append hquery] at hcolon
  exact not_mem_encodePath (by decide) (by decide) s hcolon

/-- The target names the very path. -/
theorem document_encodePath_append : document (encodePath s ++ query) = s := by
  rw [document, path_encodePath_append hquery, decode_encodePath]

theorem isLocalDocument_encodePath_append (hne : s ≠ []) :
    isLocalDocument (encodePath s ++ query) = endsInMarkdown s := by
  have hfragment : "#".toList.isPrefixOf (encodePath s ++ query) = false := by
    obtain ⟨c, t, hs⟩ := List.exists_cons_of_ne_nil (encodePath_ne_nil hne)
    refine Bool.eq_false_iff.2 fun h => ?_
    rw [List.isPrefixOf_iff_prefix, hs] at h
    obtain rfl : '#' = c := (List.cons_prefix_cons.1 h).1
    exact not_mem_encodePath (by decide) (by decide) s (hs ▸ List.mem_cons_self)
  rw [isLocalDocument, hfragment, isExternal_encodePath_append hquery, document_encodePath_append hquery]
  rfl

end

/-- Encoding a path loses nothing: paths are encoded differently, decoding gives the path back, and each
segment is encoded for itself. What comes out is clean: it has no characters but those that need no escape and
escapes, so it has nothing to be escaped, leads nowhere outside and has no query and no fragment. -/
theorem encodePath_lossless_and_clean :
    Function.Injective encodePath ∧ ∀ s,
      decode (encodePath s) = s ∧ (encodePath s).splitOn '/' = (s.splitOn '/').map encodePath ∧
      Encoded (encodePath s) ∧ needsEscape (encodePath s) = false ∧ isExternal (encodePath s) = false ∧
      path (encodePath s) = encodePath s := by
  have hnone : ∀ c ∈ ([] : Text).head?, c = '?' ∨ c = '#' := fun c hc => by cases hc
  refine ⟨encodePath_injective, fun s => ⟨decode_encodePath s, splitOn_encodePath s, encoded_encodePath s,
    needsEscape_encodePath s, ?_, ?_⟩⟩
  · have hinternal := isExternal_encodePath_append hnone s
    rwa [List.append_nil] at hinternal
  · have hpath := path_encodePath_append hnone s
    rwa [List.append_nil] at hpath

-- a path of six segments, two of them empty, with a percent sign that begins no escape
example : encodePath "/a b//50%/%2F#?/ü+".toList = "/a%20b//50%25/%252F%23%3F/%C3%BC%2B".toList := by decide +kernel

end Target

end MarkdownLinks
