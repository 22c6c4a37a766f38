import MarkdownLinks.Code.Hidden

/-! Outlines. An outline is a text in which hidden code is a single symbol, a *slot*. Written with the
placeholder of each slot it is the text that an edit sees; written with the code of each slot it is the
text as it was. A text has two outlines: in the one only its fenced blocks are slots, in the other its
code spans are slots too, so that blocks in a span are part of what the slot of the span holds. -/

namespace MarkdownLinks.Code

/-- A place in a text where code is hidden: the number of a fenced block, or that of a code span. -/
inductive Slot where
  | fenced (n : Nat)
  | inline (n : Nat)
  deriving DecidableEq

/-- The placeholder of a slot. -/
def Slot.placeholder : Slot → Text
  | .fenced n => fencedPlaceholder n
  | .inline n => inlinePlaceholder n

/-- A text with slots in it. -/
abbrev Outline := List (Piece Slot)

namespace Outline

/-- A text without slots. -/
def ofText (s : Text) : Outline := s.map .char

/-- The text of an outline, when each slot is written with `f`. -/
def writtenWith (f : Slot → Text) (o : Outline) : Text := o.flatMap (Piece.render f)

/-- The text of an outline, each slot by its placeholder. -/
def written (o : Outline) : Text := o.writtenWith Slot.placeholder

/-- The slots of an outline, in order. -/
def slots (o : Outline) : List Slot := o.filterMap Piece.item?

/-- The outline with something in the place of one slot. -/
def fill (o : Outline) (slot : Slot) (content : Outline) : Outline :=
  o.flatMap fun p => if p = .item slot then content else [p]

/-- The outline with the contents of some slots in their places, one slot after the other. -/
def fillAll (contents : Slot → Outline) (order : List Slot) (o : Outline) : Outline :=
  order.foldl (fun o slot => o.fill slot (contents slot)) o

section
variable (f : Slot → Text)

@[simp] theorem writtenWith_nil : writtenWith f [] = [] := rfl

@[simp] theorem writtenWith_char (c : Char) (o : Outline) :
    writtenWith f (.char c :: o) = c :: writtenWith f o := rfl

@[simp] theorem writtenWith_item (slot : Slot) (o : Outline) :
    writtenWith f (.item slot :: o) = f slot ++ writtenWith f o := rfl

@[simp] theorem writtenWith_append (o p : Outline) :
    writtenWith f (o ++ p) = writtenWith f o ++ writtenWith f p := List.flatMap_append

@[simp] theorem writtenWith_ofText (s : Text) : writtenWith f (ofText s) = s := by
  induction s with
  | nil => rfl
  | cons c s ih => exact congrArg (c :: ·) ih

end

@[simp] theorem written_nil : written [] = [] := rfl

@[simp] theorem written_char (c : Char) (o : Outline) : written (.char c :: o) = c :: written o := rfl

@[simp] theorem written_item (slot : Slot) (o : Outline) :
    written (.item slot :: o) = slot.placeholder ++ written o := rfl

theorem written_cons (p : Piece Slot) (o : Outline) :
    written (p :: o) = p.render Slot.placeholder ++ written o := List.flatMap_cons

@[simp] theorem written_append (o p : Outline) : written (o ++ p) = written o ++ written p :=
  List.flatMap_append

@[simp] theorem written_ofText (s : Text) : written (ofText s) = s := writtenWith_ofText _ s

@[simp] theorem slots_nil : slots [] = [] := rfl

@[simp] theorem slots_char (c : Char) (o : Outline) : slots (.char c :: o) = slots o := rfl

@[simp] theorem slots_item (slot : Slot) (o : Outline) : slots (.item slot :: o) = slot :: slots o := rfl

@[simp] theorem slots_append (o p : Outline) : slots (o ++ p) = slots o ++ slots p :=
  List.filterMap_append

@[simp] theorem slots_ofText (s : Text) : slots (ofText s) = [] := by
  induction s with
  | nil => rfl
  | cons c s ih => exact ih

@[simp] theorem fillAll_nil (contents : Slot → Outline) (o : Outline) : fillAll contents [] o = o := rfl

@[simp] theorem fillAll_cons (contents : Slot → Outline) (slot : Slot) (order : List Slot) (o : Outline) :
    fillAll contents (slot :: order) o = fillAll contents order (o.fill slot (contents slot)) := rfl

section
variable (slot : Slot) (content : Outline)

@[simp] theorem fill_nil : fill [] slot content = [] := rfl

@[simp] theorem fill_char (c : Char) (o : Outline) :
    fill (.char c :: o) slot content = .char c :: fill o slot content := by
  rw [fill, List.flatMap_cons, if_neg (by simp)]
  rfl

@[simp] theorem fill_item_self (o : Outline) :
    fill (.item slot :: o) slot content = content ++ fill o slot content := by
  rw [fill, List.flatMap_cons, if_pos rfl]
  rfl

theorem fill_item_of_ne {other : Slot} (h : other ≠ slot) (o : Outline) :
    fill (.item other :: o) slot content = .item other :: fill o slot content := by
  rw [fill, List.flatMap_cons, if_neg (by simp [h])]
  rfl

@[simp] theorem fill_append (o p : Outline) :
    fill (o ++ p) slot content = fill o slot content ++ fill p slot content := List.flatMap_append

end

end Outline

/-- Whether a piece is a backtick outside all slots. -/
def isTickPiece : Piece Slot → Bool
  | .char c => isTick c
  | .item _ => false

/-- The outline in which the fenced blocks of a text are slots. -/
def blockOutline (text : Text) : Outline :=
  placeholdersFrom (fun n => [.item (.fenced n)]) 0 ((fencedParts text).map (Segment.map .char))

/-- The outline in which the code spans of a text are slots, and the fenced blocks outside them. -/
def outline (text : Text) : Outline :=
  placeholdersFrom (fun n => [.item (.inline n)]) 0 (spanParts isTickPiece (blockOutline text))

/-- What a slot of a text holds: the characters of a block, or a span with the blocks in it. -/
def contents (text : Text) : Slot → Outline
  | .fenced n => .ofText ((codes (fencedParts text))[n]?.getD [])
  | .inline n => (codes (spanParts isTickPiece (blockOutline text)))[n]?.getD []

/-- The slots of the code spans of a text, by their numbers. -/
def spanSlots (text : Text) : List Slot :=
  (List.range (codes (spanParts isTickPiece (blockOutline text))).length).map .inline

/-- The slots of the fenced blocks of a text, by their numbers. -/
def blockSlots (text : Text) : List Slot := (List.range (codes (fencedParts text)).length).map .fenced

/-- The code of a slot of a text: what it holds, with the blocks in it written out. -/
def codeAt (text : Text) (slot : Slot) : Text :=
  (contents text slot).writtenWith fun block => (contents text block).written

end MarkdownLinks.Code
