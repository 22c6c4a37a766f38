import MarkdownLinks.Text.Basic

/-! Scanning a text for items. A reader takes an item off the front of a text, or refuses. A scan goes
from left to right: where the reader takes an item, the scan goes on behind the item; where it
refuses, one character passes as it is. So the items found are the leftmost ones, they do not
overlap, and what stands between them is kept character by character. -/

namespace MarkdownLinks

/-- Takes an item off the front of a text. What it leaves is shorter than what it was given. -/
structure Reader (α : Type) where
  read : Text → Option (α × Text)
  shorter : ∀ {s a rest}, read s = some (a, rest) → rest.length < s.length

/-- A part of a scanned text: an item, or a character outside all items. -/
inductive Piece (α : Type) where
  | char (c : Char)
  | item (a : α)
  deriving DecidableEq

/-- The item of a piece, if it is one. -/
def Piece.item? {α : Type} : Piece α → Option α
  | .char _ => none
  | .item a => some a

/-- What a piece is made into by one function for characters and one for items. -/
def Piece.elim {α β : Type} (char : Char → β) (item : α → β) : Piece α → β
  | .char c => char c
  | .item a => item a

/-- The text of a piece, when each item is written with `f`. -/
def Piece.render {α : Type} (f : α → Text) : Piece α → Text := Piece.elim (fun c => [c]) f

namespace Reader

variable {α β : Type} (r : Reader α)

/-- A scan from left to right: what is made of the end, of each character outside all items, and of
each item. -/
@[specialize] def scan (done : β) (char : Char → β → β) (item : α → β → β) : Text → β
  | [] => done
  | c :: s =>
      match _ : r.read (c :: s) with
      | some (a, rest) => item a (scan done char item rest)
      | none => char c (scan done char item s)
termination_by s => s.length
decreasing_by
  · exact r.shorter (by assumption)
  · exact Nat.lt_succ_self _

/-- The pieces of a text. -/
def pieces (s : Text) : List (Piece α) := r.scan [] (.char · :: ·) (.item · :: ·) s

/-- The items of a text. -/
def items (s : Text) : List α := r.scan [] (fun _ rest => rest) (· :: ·) s

/-- The text with each item replaced by what `f` makes of it. -/
def replace (f : α → Text) (s : Text) : Text := r.scan [] (· :: ·) (fun a rest => f a ++ rest) s

section
variable {done : β} {char : Char → β → β} {item : α → β → β}

@[simp] theorem scan_nil : r.scan done char item [] = done := by rw [scan]

theorem scan_of_read {s rest : Text} {a : α} (h : r.read s = some (a, rest)) :
    r.scan done char item s = item a (r.scan done char item rest) := by
  cases s with
  | nil => exact absurd (r.shorter h) (Nat.not_lt_zero _)
  | cons c s =>
      rw [scan]
      split <;> simp_all

theorem scan_of_read_eq_none {c : Char} {s : Text} (h : r.read (c :: s) = none) :
    r.scan done char item (c :: s) = char c (r.scan done char item s) := by
  rw [scan]
  split <;> simp_all

/-- A scan makes the same of the text as a fold makes of its pieces. -/
theorem scan_eq_foldr (s : Text) :
    r.scan done char item s =
      (r.pieces s).foldr (Piece.elim char item) done := by
  rw [pieces]
  fun_induction scan r [] (Piece.char · :: ·) (Piece.item · :: ·) s with
  | case1 => simp
  | case2 c s a rest h ih => rw [scan_of_read r h, ih, List.foldr_cons, Piece.elim]
  | case3 c s h ih => rw [scan_of_read_eq_none r h, ih, List.foldr_cons, Piece.elim]

end

section
variable {f : α → Text} {s rest : Text} {a : α} {c : Char}

@[simp] theorem replace_nil : r.replace f [] = [] := scan_nil r

@[simp] theorem items_nil : r.items [] = [] := scan_nil r

theorem replace_of_read (h : r.read s = some (a, rest)) : r.replace f s = f a ++ r.replace f rest :=
  scan_of_read r h

theorem replace_of_read_eq_none (h : r.read (c :: s) = none) : r.replace f (c :: s) = c :: r.replace f s :=
  scan_of_read_eq_none r h

theorem items_of_read (h : r.read s = some (a, rest)) : r.items s = a :: r.items rest := scan_of_read r h

theorem items_of_read_eq_none (h : r.read (c :: s) = none) : r.items (c :: s) = r.items s :=
  scan_of_read_eq_none r h

end

/-- Induction along a scan: over the characters that pass and the items that are taken. -/
@[elab_as_elim] theorem induction {motive : Text → Prop} (nil : motive [])
    (char : ∀ c s, r.read (c :: s) = none → motive s → motive (c :: s))
    (item : ∀ s a rest, r.read s = some (a, rest) → motive rest → motive s) (s : Text) : motive s := by
  induction hn : s.length using Nat.strongRecOn generalizing s with
  | ind n ih =>
      cases s with
      | nil => exact nil
      | cons c s =>
          rcases hread : r.read (c :: s) with _ | ⟨a, rest⟩
          · exact char c s hread (ih s.length (by rw [← hn]; exact Nat.lt_succ_self _) s rfl)
          · exact item _ a rest hread (ih rest.length (by rw [← hn]; exact r.shorter hread) rest rfl)

/-- The items are those among the pieces. -/
theorem items_eq (s : Text) : r.items s = (r.pieces s).filterMap Piece.item? := by
  rw [items, scan_eq_foldr]
  induction r.pieces s with
  | nil => rfl
  | cons p ps ih => cases p <;> simp [Piece.elim, Piece.item?, List.filterMap_cons, ih]

/-- Replacing writes each piece. -/
theorem replace_eq (f : α → Text) (s : Text) : r.replace f s = (r.pieces s).flatMap (Piece.render f) := by
  rw [replace, scan_eq_foldr]
  induction r.pieces s with
  | nil => rfl
  | cons p ps ih => cases p <;> simp [Piece.elim, Piece.render, ih]

end Reader

end MarkdownLinks
