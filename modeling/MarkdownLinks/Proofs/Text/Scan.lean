import MarkdownLinks.Text.Scan
import Mathlib.Data.List.Basic

/-! Scans along a text whose parts are known. A scan passes over a front part in which no item begins, and
goes on as it would without that part. A reader is *local* if what it takes off the front of a text does not
depend on what follows. What is left when the items of a local reader are deleted can be traced back: a
character of it stands in the text outside all items, and a stretch of it that is more than one character
long comes from a stretch of the text that begins and ends with the same two characters. Between them the
text may hold items, so that the two stretches need not be equal. -/

namespace MarkdownLinks

/-- The piece with what `g` makes of its item, if it is one. -/
def Piece.map {α β : Type} (g : α → β) : Piece α → Piece β
  | .char c => .char c
  | .item a => .item (g a)

theorem Piece.render_map {α β : Type} (f : β → Text) (g : α → β) (p : Piece α) :
    (p.map g).render f = p.render fun a => f (g a) := by
  cases p <;> rfl

theorem Piece.filterMap_item?_map {α β : Type} (g : α → β) (ps : List (Piece α)) :
    (ps.map (Piece.map g)).filterMap Piece.item? = (ps.filterMap Piece.item?).map g := by
  induction ps with
  | nil => rfl
  | cons p ps ih => cases p <;> simp [Piece.map, Piece.item?, List.filterMap_cons, ih]

namespace Reader

variable {α : Type} {r : Reader α} {s t rest : Text} {a : α} {c : Char}

/-- A scan passes over a front part in which no item begins. -/
theorem scan_append_of_passes {β : Type} {done : β} {char : Char → β → β} {item : α → β → β}
    (h : ∀ d v, d :: v <:+ s → r.read (d :: (v ++ t)) = none) :
    r.scan done char item (s ++ t) = s.foldr char (r.scan done char item t) := by
  induction s with
  | nil => rfl
  | cons d s ih =>
      rw [List.cons_append, r.scan_of_read_eq_none (h d s (List.suffix_refl _)),
        ih fun e v hv => h e v (hv.trans (List.suffix_cons d s)), List.foldr_cons]

theorem items_append_of_passes (h : ∀ d v, d :: v <:+ s → r.read (d :: (v ++ t)) = none) :
    r.items (s ++ t) = r.items t := by
  rw [items, scan_append_of_passes h, ← items]
  exact List.foldr_fixed s

theorem replace_append_of_passes (f : α → Text) (h : ∀ d v, d :: v <:+ s → r.read (d :: (v ++ t)) = none) :
    r.replace f (s ++ t) = s ++ r.replace f t := by
  rw [replace, scan_append_of_passes h, ← replace, List.foldr_cons_eq_append, List.map_id']

@[simp] theorem pieces_nil : r.pieces [] = [] := r.scan_nil

theorem pieces_of_read (h : r.read s = some (a, rest)) : r.pieces s = .item a :: r.pieces rest := r.scan_of_read h

theorem pieces_of_read_eq_none (h : r.read (c :: s) = none) : r.pieces (c :: s) = .char c :: r.pieces s :=
  r.scan_of_read_eq_none h

/-- A text without items stays as it is. -/
theorem replace_of_items_eq_nil (f : α → Text) (h : r.items s = []) : r.replace f s = s := by
  induction s using r.induction with
  | nil => exact r.replace_nil
  | char c s hread ih =>
      rw [r.items_of_read_eq_none hread] at h
      rw [r.replace_of_read_eq_none hread, ih h]
  | item s a rest hread ih =>
      rw [r.items_of_read hread] at h
      exact absurd h (List.cons_ne_nil _ _)

/-- If a reader leaves an end of what it reads from, each item is read where an end of the text begins. -/
theorem exists_of_mem_items (hr : ∀ {s a rest}, r.read s = some (a, rest) → rest <:+ s) {s : Text} {a : α}
    (h : a ∈ r.items s) : ∃ t rest, t <:+ s ∧ r.read t = some (a, rest) := by
  induction s using r.induction with
  | nil => simp at h
  | char c s hread ih =>
      rw [r.items_of_read_eq_none hread] at h
      obtain ⟨t, rest, ht, hread⟩ := ih h
      exact ⟨t, rest, ht.trans (List.suffix_cons c s), hread⟩
  | item s b rest hread ih =>
      rw [r.items_of_read hread, List.mem_cons] at h
      rcases h with rfl | h
      · exact ⟨s, rest, List.suffix_refl s, hread⟩
      · obtain ⟨t, rest', ht, hread'⟩ := ih h
        exact ⟨t, rest', ht.trans (hr hread), hread'⟩

/-- The text with its items deleted. -/
def without (r : Reader α) (s : Text) : Text := r.replace (fun _ => []) s

@[simp] theorem without_nil : r.without [] = [] := r.replace_nil

theorem without_of_read (h : r.read s = some (a, rest)) : r.without s = r.without rest :=
  r.replace_of_read h

theorem without_of_read_eq_none (h : r.read (c :: s) = none) : r.without (c :: s) = c :: r.without s :=
  r.replace_of_read_eq_none h

/-- Whether what a reader takes off the front of a text does not depend on what follows it. -/
def Local (r : Reader α) : Prop :=
  ∀ ⦃s a rest⦄, r.read s = some (a, rest) → ∃ w, s = w ++ rest ∧ ∀ t, r.read (w ++ t) = some (a, t)

namespace Local

variable (hr : r.Local)
include hr

theorem read_eq_none_of_append (h : r.read (s ++ t) = none) : r.read s = none := by
  refine Option.eq_none_iff_forall_ne_some.2 fun ⟨a, rest⟩ hread => ?_
  obtain ⟨w, rfl, hw⟩ := hr hread
  rw [List.append_assoc, hw] at h
  cases h

/-- A character that is left stands in the text outside all items. -/
theorem exists_of_without_eq {p q : Text} (h : r.without s = p ++ c :: q) :
    ∃ u v, s = u ++ c :: v ∧ r.without u = p ∧ r.without (u ++ [c]) = p ++ [c] ∧
      r.read (c :: v) = none ∧ r.without v = q := by
  induction s using r.induction generalizing p with
  | nil => simp at h
  | char d s hread ih =>
      rw [without_of_read_eq_none hread] at h
      cases p with
      | nil =>
          obtain ⟨rfl, hq⟩ := List.cons.inj h
          have hd : r.read [d] = none := hr.read_eq_none_of_append (t := s) hread
          have hsingle : r.without [d] = [d] := by rw [without_of_read_eq_none hd, without_nil]
          exact ⟨[], s, rfl, without_nil, hsingle, hread, hq⟩
      | cons e p =>
          obtain ⟨rfl, hs⟩ := List.cons.inj h
          obtain ⟨u, v, rfl, hu, huc, hv, hq⟩ := ih hs
          have hread' : r.read (d :: (u ++ [c])) = none :=
            hr.read_eq_none_of_append (t := v) (by simpa using hread)
          refine ⟨d :: u, v, rfl, ?_, ?_, hv, hq⟩
          · rw [without_of_read_eq_none (hr.read_eq_none_of_append (s := d :: u) hread'), hu]
          · rw [List.cons_append, without_of_read_eq_none hread', huc, List.cons_append]
  | item s a rest hread ih =>
      rw [without_of_read hread] at h
      obtain ⟨u, v, rfl, hu, huc, hv, hq⟩ := ih h
      obtain ⟨w, rfl, hw⟩ := hr hread
      refine ⟨w ++ u, v, (List.append_assoc ..).symm, ?_, ?_, hv, hq⟩
      · rw [without_of_read (hw u), hu]
      · rw [List.append_assoc, without_of_read (hw (u ++ [c])), huc]

/-- A stretch that is left comes from a stretch of the text with the same ends. -/
theorem exists_stretch {d : Char} {before inner after : Text}
    (h : r.without s = before ++ c :: (inner ++ d :: after)) :
    ∃ u v w, s = u ++ c :: (v ++ d :: w) ∧ r.without u = before ∧
      r.without (c :: (v ++ [d])) = c :: (inner ++ [d]) ∧ r.without w = after := by
  obtain ⟨u, x, rfl, hu, -, hx, hinner⟩ := hr.exists_of_without_eq h
  obtain ⟨v, w, rfl, -, hv, -, hw⟩ := hr.exists_of_without_eq hinner
  have hread : r.read (c :: (v ++ [d])) = none := hr.read_eq_none_of_append (t := w) (by simpa using hx)
  exact ⟨u, v, w, rfl, hu, by rw [without_of_read_eq_none hread, hv], hw⟩

end Local

end Reader

end MarkdownLinks
