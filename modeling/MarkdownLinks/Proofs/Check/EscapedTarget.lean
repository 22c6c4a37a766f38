import MarkdownLinks.Check.RawText
import MarkdownLinks.Proofs.Link.Target
import MarkdownLinks.Proofs.Text.PercentDecoding
import Mathlib.Data.List.Induction

/-! Targets whose spaces and plus signs are escaped, as the check on targets demands. Neither of the two is a
hexadecimal digit or a percent sign, so escaping them makes and breaks no other escape: the target stands for
the same bytes. It names the same document if these encode a text. Otherwise the document is the target as it
is written, which changes, and with it the name of the file; but whether a link to a document reads as a file
name does not depend on that name, because a text that is the name of a document ends in its extension. -/

namespace MarkdownLinks

namespace Target

/-- A character as it has to be written in a target. -/
def escapeRawChar (c : Char) : Text :=
  if c = ' ' then "%20".toList else if c = '+' then "%2B".toList else [c]

/-- A target with every raw space and every raw plus sign escaped. -/
def escapeRaw (target : Text) : Text := target.flatMap escapeRawChar

/-- The characters that have to be escaped. -/
def rawChars : Text := [' ', '+']

theorem escapeRaw_cons (c : Char) (s : Text) : escapeRaw (c :: s) = escapeRawChar c ++ escapeRaw s := rfl

theorem escapeRawChar_of_not_mem {c : Char} (h : c ∉ rawChars) : escapeRawChar c = [c] := by
  simp only [rawChars, List.mem_cons, List.not_mem_nil, or_false, not_or] at h
  rw [escapeRawChar, if_neg h.1, if_neg h.2]

/-- The two escapes differ in their last digit. -/
theorem exists_escapeRawChar_eq : ∀ c ∈ rawChars, ∃ digit ∈ ['0', 'B'], escapeRawChar c = ['%', '2', digit] := by
  simp [rawChars, escapeRawChar]

theorem mem_escapeRawChar {c d : Char} (h : d ∈ escapeRawChar c) : d = c ∧ c ∉ rawChars ∨ d ∈ ['%', '2', '0', 'B'] := by
  by_cases hc : c ∈ rawChars
  · obtain ⟨digit, hdigit, heq⟩ := exists_escapeRawChar_eq c hc
    rw [heq] at h
    have hchars : ∀ digit ∈ ['0', 'B'], ∀ d ∈ ['%', '2', digit], d ∈ ['%', '2', '0', 'B'] := by simp
    exact Or.inr (hchars digit hdigit d h)
  · rw [escapeRawChar_of_not_mem hc, List.mem_singleton] at h
    exact Or.inl ⟨h, hc⟩

theorem needsEscape_eq_false_iff {target : Text} : needsEscape target = false ↔ ∀ c ∈ target, c ∉ rawChars := by
  simp [needsEscape, rawChars]

theorem needsEscape_escapeRaw (target : Text) : needsEscape (escapeRaw target) = false := by
  refine needsEscape_eq_false_iff.2 fun d hd => ?_
  obtain ⟨c, -, hd⟩ := List.mem_flatMap.1 hd
  have hescape : ∀ d ∈ ['%', '2', '0', 'B'], d ∉ rawChars := by simp [rawChars]
  rcases mem_escapeRawChar hd with ⟨rfl, hc⟩ | hd
  · exact hc
  · exact hescape d hd

section
variable {w s : Text}

/-- A word that has no characters in common with the escapes and what they stand for begins the escaped target
exactly if it begins the target. -/
theorem prefix_escapeRaw_iff (hw : ∀ c ∈ w, c ∉ rawChars ∧ c ≠ '%') : w <+: escapeRaw s ↔ w <+: s := by
  induction s generalizing w with
  | nil => rfl
  | cons c s ih =>
      cases w with
      | nil => exact iff_of_true List.nil_prefix List.nil_prefix
      | cons a w =>
          obtain ⟨⟨hraw, hpercent⟩, hrest⟩ := List.forall_mem_cons.1 hw
          rw [escapeRaw_cons, List.cons_prefix_cons]
          by_cases hc : c ∈ rawChars
          · obtain ⟨digit, -, heq⟩ := exists_escapeRawChar_eq c hc
            rw [heq, List.cons_append, List.cons_prefix_cons]
            refine iff_of_false (fun h => hpercent h.1) fun h => hraw ?_
            rwa [h.1]
          · rw [escapeRawChar_of_not_mem hc, List.singleton_append, List.cons_prefix_cons, ih hrest]

/-- The same at the end, letter case left aside. -/
theorem suffix_map_escapeRaw_iff (hw : ∀ c ∈ w, c ∉ rawChars ∧ c ≠ '0' ∧ c ≠ 'b') :
    w <:+ (escapeRaw s).map Char.toLower ↔ w <:+ s.map Char.toLower := by
  induction s using List.reverseRecOn generalizing w with
  | nil => rfl
  | append_singleton s c ih =>
      rcases List.eq_nil_or_concat' w with rfl | ⟨w, a, rfl⟩
      · exact iff_of_true List.nil_suffix List.nil_suffix
      obtain ⟨hw, ha⟩ := List.forall_mem_append.1 hw
      obtain ⟨hraw, hzero, hb⟩ := ha a List.mem_cons_self
      have hconcat : ∀ (t : Text) (e : Char), w ++ [a] <:+ t ++ [e] ↔ w <:+ t ∧ a = e := fun t e => by
        rw [List.suffix_append_inj_of_length_eq (show [a].length = [e].length from rfl), List.singleton_inj]
      have hsplit : escapeRaw (s ++ [c]) = escapeRaw s ++ escapeRawChar c := by simp [escapeRaw]
      rw [hsplit, List.map_append, List.map_append, List.map_singleton, hconcat]
      by_cases hc : c ∈ rawChars
      · obtain ⟨digit, hdigit, heq⟩ := exists_escapeRawChar_eq c hc
        have hescape : (escapeRawChar c).map Char.toLower = ['%', '2'] ++ [digit.toLower] := by
          rw [heq]
          rfl
        have hlower : ∀ d ∈ rawChars, d.toLower = d := by simp [rawChars]
        have hdigits : ∀ d ∈ ['0', 'B'], d.toLower = '0' ∨ d.toLower = 'b' := by simp
        rw [hescape, ← List.append_assoc, hconcat, hlower c hc]
        refine iff_of_false (fun h => ?_) fun h => hraw (by rwa [h.2])
        rcases hdigits digit hdigit with hlast | hlast
        · exact hzero (h.2.trans hlast)
        · exact hb (h.2.trans hlast)
      · rw [escapeRawChar_of_not_mem hc, List.map_singleton, hconcat, ih hw]

end

/-- Query and fragment begin where they did. -/
theorem path_escapeRaw (target : Text) : path (escapeRaw target) = escapeRaw (path target) := by
  induction target with
  | nil => rfl
  | cons c s ih =>
      rw [escapeRaw_cons]
      by_cases hc : c = '?' ∨ c = '#'
      · have hraw : c ∉ rawChars := by rcases hc with rfl | rfl <;> decide
        rw [escapeRawChar_of_not_mem hraw, List.singleton_append, path_cons_of_eq hc, path_cons_of_eq hc]
        rfl
      · rw [not_or] at hc
        have hescape : ∀ d ∈ ['%', '2', '0', 'B'], d ≠ '?' ∧ d ≠ '#' := by simp
        have hchar : ∀ d ∈ escapeRawChar c, d ≠ '?' ∧ d ≠ '#' := fun d hd => by
          rcases mem_escapeRawChar hd with ⟨rfl, -⟩ | hd
          · exact hc
          · exact hescape d hd
        calc path (escapeRawChar c ++ escapeRaw s)
            = escapeRawChar c ++ escapeRaw (path s) := by rw [path_append hchar, ih]
          _ = escapeRaw ([c] ++ path s) := rfl
          _ = escapeRaw (path (c :: s)) := by rw [← path_append (by simpa using hc), List.singleton_append]

theorem isExternal_escapeRaw (target : Text) : isExternal (escapeRaw target) = isExternal target := by
  have hfree : ∀ scheme ∈ externalSchemes, ∀ c ∈ scheme, c ∉ rawChars ∧ c ≠ '%' := by
    simp [externalSchemes, rawChars]
  rw [Bool.eq_iff_iff, isExternal, isExternal, List.any_eq_true, List.any_eq_true]
  refine exists_congr fun scheme => and_congr_right fun hscheme => ?_
  rw [List.isPrefixOf_iff_prefix, List.isPrefixOf_iff_prefix, prefix_escapeRaw_iff (hfree scheme hscheme)]

end Target

namespace Percent

open Target

theorem bytes_escapeRawChar_append {c : Char} (hc : c ≠ '%') (s : Text) :
    bytes (escapeRawChar c ++ s) = String.utf8EncodeChar c ++ bytes s := by
  by_cases hraw : c ∈ rawChars
  · have hencoded : ∀ d ∈ rawChars, escapeRawChar d = encodeChar d := fun d hd => by
      rcases List.mem_pair.1 hd with rfl | rfl <;> decide +kernel
    rw [hencoded c hraw, bytes_encodeChar_append]
  · rw [escapeRawChar_of_not_mem hraw, List.singleton_append, bytes_cons_of_ne hc]

/-- A percent sign that two digits do not follow stands for itself. -/
theorem bytes_percent_cons {s : Text} (h : ∀ a b, (hexValue? a).isSome → (hexValue? b).isSome → ¬[a, b] <+: s) :
    bytes ('%' :: s) = String.utf8EncodeChar '%' ++ bytes s := by
  match s with
  | [] => rfl
  | [a] => rfl
  | a :: b :: t =>
      rw [bytes]
      split
      · rename_i ha hb
        exact absurd (List.prefix_append [a, b] t)
          (h a b (by rw [ha, Option.isSome_some]) (by rw [hb, Option.isSome_some]))
      · rfl

theorem not_mem_rawChars_of_hexValue? {c : Char} (h : (hexValue? c).isSome) : c ∉ rawChars ∧ c ≠ '%' := by
  have hnone : ∀ d ∈ '%' :: rawChars, (hexValue? d).isSome = false := by
    simp [rawChars, hexValue?]
  have hc : c ∉ '%' :: rawChars := fun hc => by
    rw [hnone c hc] at h
    cases h
  rw [List.mem_cons, not_or] at hc
  exact hc.symm

/-- Where a percent sign begins no escape, it begins none in the escaped target. -/
theorem bytes_escapeRaw_percent_cons {s : Text}
    (h : ∀ a b, (hexValue? a).isSome → (hexValue? b).isSome → ¬[a, b] <+: s) :
    bytes (escapeRaw ('%' :: s)) = String.utf8EncodeChar '%' ++ bytes (escapeRaw s) := by
  refine bytes_percent_cons fun a b ha hb hpair => h a b ha hb ?_
  refine (prefix_escapeRaw_iff fun c hc => ?_).1 hpair
  rcases List.mem_pair.1 hc with rfl | rfl
  · exact not_mem_rawChars_of_hexValue? ha
  · exact not_mem_rawChars_of_hexValue? hb

/-- The escaped target stands for the same bytes. -/
theorem bytes_escapeRaw (s : Text) : bytes (escapeRaw s) = bytes s := by
  fun_induction bytes s with
  | case1 => rfl
  | case2 a b s x y hy hx ih =>
      have ha := (not_mem_rawChars_of_hexValue? (c := a) (by rw [hx, Option.isSome_some])).1
      have hb := (not_mem_rawChars_of_hexValue? (c := b) (by rw [hy, Option.isSome_some])).1
      have hescape : escapeRaw ('%' :: a :: b :: s) = '%' :: a :: b :: escapeRaw s := by
        rw [escapeRaw_cons, escapeRaw_cons, escapeRaw_cons, escapeRawChar_of_not_mem ha, escapeRawChar_of_not_mem hb]
        rfl
      rw [hescape, bytes, hx, hy, ← ih]
  | case3 a b s hdigits ih =>
      rw [bytes_escapeRaw_percent_cons, ih]
      intro a' b' ha hb hpair
      simp only [List.cons_prefix_cons, List.nil_prefix, and_true] at hpair
      obtain ⟨rfl, rfl⟩ := hpair
      obtain ⟨x, hx⟩ := Option.isSome_iff_exists.1 ha
      obtain ⟨y, hy⟩ := Option.isSome_iff_exists.1 hb
      exact hdigits x y hx hy
  | case4 c s hfront ih =>
      by_cases hc : c = '%'
      · subst hc
        rw [bytes_escapeRaw_percent_cons, ih]
        rintro a b - - ⟨t, rfl⟩
        exact hfront a b t rfl rfl
      · rw [escapeRaw_cons, bytes_escapeRawChar_append hc, ih]

end Percent

namespace Target

/-- The document that the escaped target names: the same, or the target as it is written, if that names no
other. -/
theorem document_escapeRaw (target : Text) :
    document (escapeRaw target) = document target ∨
      document target = path target ∧ document (escapeRaw target) = escapeRaw (path target) := by
  rw [document, document, path_escapeRaw, Percent.decode, Percent.decode, Percent.bytes_escapeRaw]
  cases Utf8.decode? (Percent.bytes (path target)).toByteArray with
  | none => exact Or.inr ⟨rfl, rfl⟩
  | some t => exact Or.inl rfl

theorem endsInMarkdown_escapeRaw (s : Text) : endsInMarkdown (escapeRaw s) = endsInMarkdown s := by
  rw [Bool.eq_iff_iff, endsInMarkdown_iff, endsInMarkdown_iff]
  exact suffix_map_escapeRaw_iff (by simp [rawChars])

theorem isLocalDocument_escapeRaw (target : Text) : isLocalDocument (escapeRaw target) = isLocalDocument target := by
  have hfragment : "#".toList.isPrefixOf (escapeRaw target) = "#".toList.isPrefixOf target := by
    rw [Bool.eq_iff_iff, List.isPrefixOf_iff_prefix, List.isPrefixOf_iff_prefix]
    exact prefix_escapeRaw_iff (by simp [rawChars])
  have hdocument : endsInMarkdown (document (escapeRaw target)) = endsInMarkdown (document target) := by
    rcases document_escapeRaw target with heq | ⟨hraw, hescaped⟩
    · rw [heq]
    · rw [hraw, hescaped, endsInMarkdown_escapeRaw]
  rw [isLocalDocument, isLocalDocument, hfragment, isExternal_escapeRaw, hdocument]

end Target

namespace Check

open Target

/-- Whether a text reads as the name of a file does not depend on the target of a link to a document: the name
of a document ends in the extension, and so does a text that is the name. -/
theorem readsAsFileName_eq {target : Text} (h : isLocalDocument target) (text : Text) :
    readsAsFileName text target =
      (((text.contains '/' || text.contains '\\') && !text.any isBlank) || endsInMarkdown (trim text)) := by
  rw [readsAsFileName]
  by_cases hname : lowercase text = lowercase (fileName target)
  · have hdocument : endsInMarkdown (document target) := (Bool.and_eq_true_iff.1 h).2
    have hfile : endsInMarkdown (fileName target) := (endsInMarkdown_lastSegment_iff _).2 hdocument
    have htext : endsInMarkdown text := by
      rwa [endsInMarkdown, hname, ← endsInMarkdown]
    rw [endsInMarkdown_trim htext, Bool.or_true, Bool.or_true]
  · rw [beq_eq_false_iff_ne.2 hname, Bool.false_or]

/-- Escaping the spaces and plus signs of a target, as the check on targets demands, satisfies that check, makes
no external target of an internal one or the other way, and leaves the verdict on the text of the link as it
was. -/
theorem verdict_escapeRaw (text target : Text) :
    needsEscape (escapeRaw target) = false ∧ isExternal (escapeRaw target) = isExternal target ∧
      (isLocalDocument (escapeRaw target) && readsAsFileName text (escapeRaw target)) =
        (isLocalDocument target && readsAsFileName text target) := by
  refine ⟨needsEscape_escapeRaw target, isExternal_escapeRaw target, ?_⟩
  cases hlocal : isLocalDocument target with
  | false => rw [isLocalDocument_escapeRaw, hlocal, Bool.false_and, Bool.false_and]
  | true =>
      have hescaped : isLocalDocument (escapeRaw target) := (isLocalDocument_escapeRaw target).trans hlocal
      rw [hescaped, readsAsFileName_eq hescaped, readsAsFileName_eq hlocal]

-- a target with a broken escape and bytes that encode no text, whose document changes
example :
    let target := "% %2+%FF/a b.md#+".toList
    escapeRaw target = "%%20%2%2B%FF/a%20b.md#%2B".toList ∧ isLocalDocument target ∧
      document (escapeRaw target) ≠ document target := by
  decide +kernel

end Check

end MarkdownLinks
