import MarkdownLinks.Text.Basic

/-! A row of symbols taken apart into code and what is not code. The symbols are the characters of a
text, or whatever else stands for them; a symbol outside code is a part of its own, so that a row has
only one such form. -/

namespace MarkdownLinks.Code

variable {α β : Type}

/-- A part of a row: a symbol outside code, or a piece of code. -/
inductive Segment (α : Type) where
  | plain (a : α)
  | code (s : List α)
  deriving DecidableEq

namespace Segment

/-- The symbols of a part. -/
def text : Segment α → List α
  | .plain a => [a]
  | .code s => s

/-- The code of a part, if it is code. -/
def code? : Segment α → Option (List α)
  | .plain _ => none
  | .code s => some s

/-- The part with each symbol written as another. -/
def map (f : α → β) : Segment α → Segment β
  | .plain a => .plain (f a)
  | .code s => .code (s.map f)

end Segment

/-- The row that some parts make up. -/
def segmentsText (parts : List (Segment α)) : List α := parts.flatMap Segment.text

/-- The code among some parts. -/
def codes (parts : List (Segment α)) : List (List α) := parts.filterMap Segment.code?

/-- The parts with numbered placeholders for the code among them, from `n` on. -/
def placeholdersFrom (placeholder : Nat → List α) (n : Nat) : List (Segment α) → List α
  | [] => []
  | .plain a :: parts => a :: placeholdersFrom placeholder n parts
  | .code _ :: parts => placeholder n ++ placeholdersFrom placeholder (n + 1) parts

@[simp] theorem segmentsText_nil : segmentsText ([] : List (Segment α)) = [] := rfl

@[simp] theorem segmentsText_plain (a : α) (parts : List (Segment α)) :
    segmentsText (.plain a :: parts) = a :: segmentsText parts := rfl

@[simp] theorem segmentsText_code (s : List α) (parts : List (Segment α)) :
    segmentsText (.code s :: parts) = s ++ segmentsText parts := rfl

@[simp] theorem segmentsText_append (parts more : List (Segment α)) :
    segmentsText (parts ++ more) = segmentsText parts ++ segmentsText more :=
  List.flatMap_append

@[simp] theorem segmentsText_map_plain (s : List α) : segmentsText (s.map .plain) = s := by
  induction s with
  | nil => rfl
  | cons a s ih => rw [List.map_cons, segmentsText_plain, ih]

@[simp] theorem codes_nil : codes ([] : List (Segment α)) = [] := rfl

@[simp] theorem codes_plain (a : α) (parts : List (Segment α)) :
    codes (.plain a :: parts) = codes parts := rfl

@[simp] theorem codes_code (s : List α) (parts : List (Segment α)) :
    codes (.code s :: parts) = s :: codes parts := rfl

@[simp] theorem codes_append (parts more : List (Segment α)) :
    codes (parts ++ more) = codes parts ++ codes more :=
  List.filterMap_append

@[simp] theorem codes_map_plain (s : List α) : codes (s.map Segment.plain) = [] := by
  induction s with
  | nil => rfl
  | cons a s ih => rw [List.map_cons, codes_plain, ih]

@[simp] theorem segmentsText_map (f : α → β) (parts : List (Segment α)) :
    segmentsText (parts.map (Segment.map f)) = (segmentsText parts).map f := by
  induction parts with
  | nil => rfl
  | cons p parts ih => cases p <;> simp [Segment.map, ih]

@[simp] theorem codes_map (f : α → β) (parts : List (Segment α)) :
    codes (parts.map (Segment.map f)) = (codes parts).map (List.map f) := by
  induction parts with
  | nil => rfl
  | cons p parts ih => cases p <;> simp [Segment.map, ih]

/-- Parts without code are symbols only. -/
theorem eq_map_plain_of_codes_eq_nil {parts : List (Segment α)} (h : codes parts = []) :
    parts = (segmentsText parts).map .plain := by
  induction parts with
  | nil => rfl
  | cons p parts ih =>
      cases p with
      | plain a => exact congrArg (Segment.plain a :: ·) (ih h)
      | code s => cases h

/-- A piece of code stands at one place among the parts. -/
theorem exists_eq_append_of_getElem?_codes {parts : List (Segment α)} {n : Nat} {s : List α}
    (h : (codes parts)[n]? = some s) :
    ∃ before after, parts = before ++ .code s :: after ∧ (codes before).length = n := by
  induction parts generalizing n with
  | nil => cases h
  | cons p parts ih =>
      cases p with
      | plain a =>
          obtain ⟨before, after, rfl, hn⟩ := ih h
          exact ⟨.plain a :: before, after, rfl, hn⟩
      | code t =>
          cases n with
          | zero =>
              obtain rfl : t = s := Option.some.inj h
              exact ⟨[], parts, rfl, rfl⟩
          | succ n =>
              obtain ⟨before, after, rfl, hn⟩ := ih h
              exact ⟨.code t :: before, after, rfl, congrArg (· + 1) hn⟩

/-- Code stands in the row. -/
theorem infix_segmentsText_of_mem_codes {parts : List (Segment α)} {s : List α} (hs : s ∈ codes parts) :
    s <:+: segmentsText parts := by
  induction parts with
  | nil => cases hs
  | cons p parts ih =>
      cases p with
      | plain b => exact (ih hs).trans (List.suffix_cons b _).isInfix
      | code t =>
          rcases List.mem_cons.1 hs with rfl | hs
          · exact (List.prefix_append s _).isInfix
          · exact (ih hs).trans (List.suffix_append t _).isInfix

section
variable {placeholder : Nat → List α} {n : Nat}

@[simp] theorem placeholdersFrom_nil : placeholdersFrom placeholder n [] = [] := rfl

@[simp] theorem placeholdersFrom_plain (a : α) (parts : List (Segment α)) :
    placeholdersFrom placeholder n (.plain a :: parts) = a :: placeholdersFrom placeholder n parts := rfl

@[simp] theorem placeholdersFrom_code (s : List α) (parts : List (Segment α)) :
    placeholdersFrom placeholder n (.code s :: parts) =
      placeholder n ++ placeholdersFrom placeholder (n + 1) parts := rfl

/-- Placeholders do not depend on the code they stand for. -/
theorem placeholdersFrom_append_code (before : List (Segment α)) (s t : List α) (after : List (Segment α)) :
    placeholdersFrom placeholder n (before ++ .code s :: after) =
      placeholdersFrom placeholder n (before ++ .code t :: after) := by
  induction before generalizing n with
  | nil => rfl
  | cons p before ih =>
      cases p with
      | plain a => exact congrArg (a :: ·) ih
      | code u => exact congrArg (placeholder n ++ ·) ih

@[simp] theorem placeholdersFrom_map_plain_append (s : List α) (parts : List (Segment α)) :
    placeholdersFrom placeholder n (s.map .plain ++ parts) = s ++ placeholdersFrom placeholder n parts := by
  induction s with
  | nil => rfl
  | cons a s ih => rw [List.map_cons, List.cons_append, placeholdersFrom_plain, ih, List.cons_append]

@[simp] theorem placeholdersFrom_map_plain (s : List α) : placeholdersFrom placeholder n (s.map .plain) = s := by
  have h : placeholdersFrom placeholder n (s.map .plain ++ []) = s ++ placeholdersFrom placeholder n [] :=
    placeholdersFrom_map_plain_append s []
  rwa [List.append_nil, placeholdersFrom_nil, List.append_nil] at h

end

end MarkdownLinks.Code
