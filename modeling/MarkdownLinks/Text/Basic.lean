/-! Text as a list of characters, and the two cuts that the readers of this library are made of. A
list is cut at the first occurrence of a delimiter into what stands before it and what stands after
it; the law of the cut is that the two parts and the delimiter give the list back and that the first
part is free of the delimiter. A prefix is cut off by `dropPrefix?`. Both are stated for lists of any
kind. -/

namespace MarkdownLinks

/-- A text is the list of its characters. -/
abbrev Text := List Char

/-- A number in decimal digits. -/
def decimal (n : Nat) : Text := Nat.toDigits 10 n

theorem mem_decimal {n : Nat} {c : Char} (h : c ∈ decimal n) : c.isDigit :=
  Nat.isDigit_of_mem_toDigits (by decide) (by decide) h

variable {α : Type} [DecidableEq α]

/-- What stands before and after the first occurrence of `d`. -/
@[specialize] def splitFirst? (d : α) (s : List α) : Option (List α × List α) :=
  match s.dropWhile (· ≠ d) with
  | [] => none
  | _ :: after => some (s.takeWhile (· ≠ d), after)

@[simp] theorem splitFirst?_nil (d : α) : splitFirst? d [] = none := rfl

theorem splitFirst?_cons (d a : α) (s : List α) :
    splitFirst? d (a :: s) =
      if a = d then some ([], s) else (splitFirst? d s).map fun p => (a :: p.1, p.2) := by
  by_cases h : a = d
  · simp [splitFirst?, h]
  · simp only [splitFirst?, List.dropWhile_cons, List.takeWhile_cons]
    cases s.dropWhile (· ≠ d) <;> simp [h]

/-- The cut gives the list back, and its first part is free of the delimiter. -/
theorem splitFirst?_eq_some_iff {d : α} {s before after : List α} :
    splitFirst? d s = some (before, after) ↔ s = before ++ d :: after ∧ d ∉ before := by
  induction s generalizing before with
  | nil => simp
  | cons a s ih =>
      rw [splitFirst?_cons]
      by_cases h : a = d
      · subst h
        cases before with
        | nil => simp
        | cons b before => simp; rintro rfl _; simp
      · cases before with
        | nil => simp [h]
        | cons b before =>
            simp only [if_neg h, Option.map_eq_some_iff, Prod.exists, Prod.mk.injEq, List.cons.injEq,
              List.cons_append, List.mem_cons, not_or]
            constructor
            · rintro ⟨p, q, hp, ⟨rfl, rfl⟩, rfl⟩
              obtain ⟨hs, hd⟩ := ih.1 hp
              exact ⟨⟨rfl, hs⟩, Ne.symm h, hd⟩
            · rintro ⟨⟨rfl, hs⟩, _, hd⟩
              exact ⟨before, after, ih.2 ⟨hs, hd⟩, ⟨rfl, rfl⟩, rfl⟩

/-- There is nothing to cut at exactly when the delimiter does not occur. -/
theorem splitFirst?_eq_none_iff {d : α} {s : List α} : splitFirst? d s = none ↔ d ∉ s := by
  induction s with
  | nil => simp
  | cons a s ih =>
      rw [splitFirst?_cons]
      by_cases h : a = d
      · simp [h]
      · simp [h, ih, Ne.symm h]

theorem splitFirst?_append {d : α} {before : List α} (after : List α) (h : d ∉ before) :
    splitFirst? d (before ++ d :: after) = some (before, after) :=
  splitFirst?_eq_some_iff.2 ⟨rfl, h⟩

/-- Lists that are equal are equal before and after their first delimiters. -/
theorem append_delimiter_inj {d : α} {a b s t : List α} (ha : d ∉ a) (hb : d ∉ b) (h : a ++ d :: s = b ++ d :: t) :
    a = b ∧ s = t := by
  have hcut := congrArg (splitFirst? d) h
  rw [splitFirst?_append _ ha, splitFirst?_append _ hb] at hcut
  exact Prod.mk.inj (Option.some.inj hcut)

/-- What follows the delimiter is shorter than the list. -/
theorem length_lt_of_splitFirst? {d : α} {s before after : List α}
    (h : splitFirst? d s = some (before, after)) : after.length < s.length := by
  rw [(splitFirst?_eq_some_iff.1 h).1]
  simp
  omega

/-- What follows `word` at the front of a list. -/
@[specialize] def dropPrefix? : (word s : List α) → Option (List α)
  | [], s => some s
  | _ :: _, [] => none
  | a :: word, b :: s => if a = b then dropPrefix? word s else none

theorem dropPrefix?_eq_some_iff {word s rest : List α} :
    dropPrefix? word s = some rest ↔ s = word ++ rest := by
  fun_induction dropPrefix? word s with
  | case1 s => simp
  | case2 => simp
  | case3 a word s ih => simp [ih]
  | case4 a word b s h => simp [Ne.symm h]

end MarkdownLinks
