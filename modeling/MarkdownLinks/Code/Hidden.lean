import MarkdownLinks.Code.Fenced
import MarkdownLinks.Code.Span
import MarkdownLinks.Text.Replace

/-! Hiding code while a text is edited. Fenced blocks are replaced by numbered placeholders, then the
code spans of what is left, so that a span may take in whole blocks. Restoring puts the spans back in
the order of their numbers and then the blocks, each by replacing every occurrence of its placeholder;
an edit may therefore move, repeat or drop placeholders. -/

namespace MarkdownLinks.Code

/-- The code taken out of a text, in the order of the placeholders that stand for it. -/
structure Hidden where
  fenced : List Text
  inline : List Text
  deriving DecidableEq

/-- The placeholder of the fenced block with a number. -/
def fencedPlaceholder (n : Nat) : Text := "__FENCED_CODE_BLOCK_".toList ++ decimal n ++ "__".toList

/-- The placeholder of the code span with a number. -/
def inlinePlaceholder (n : Nat) : Text := "__INLINE_CODE_".toList ++ decimal n ++ "__".toList

/-- The text without its fenced blocks, and the blocks. -/
def hideFenced (text : Text) : Text × List Text :=
  let parts := fencedParts text
  (placeholdersFrom fencedPlaceholder 0 parts, codes parts)

/-- The text without its code spans, and the spans. -/
def hideInline (text : Text) : Text × List Text :=
  let parts := spanParts isTick text
  (placeholdersFrom inlinePlaceholder 0 parts, codes parts)

/-- The text without its code, and the code. -/
def hide (text : Text) : Text × Hidden :=
  let (withoutFenced, fenced) := hideFenced text
  let (masked, inline) := hideInline withoutFenced
  (masked, ⟨fenced, inline⟩)

/-- Every placeholder replaced by its code, in the order of the numbers. -/
def putBack (placeholder : Nat → Text) (codes : List Text) (text : Text) : Text :=
  codes.zipIdx.foldl (fun text (code, n) => replaceAll (placeholder n) code text) text

/-- The code put back into a text: the spans first, then the blocks. -/
def Hidden.restore (hidden : Hidden) (text : Text) : Text :=
  putBack fencedPlaceholder hidden.fenced (putBack inlinePlaceholder hidden.inline text)

/-- An edit of everything but the code of a text. -/
def editAround (edit : Text → Text) (text : Text) : Text := (hide text).2.restore (edit (hide text).1)

/-- An edit that may fail. Its failure is the failure of the whole. -/
def tryEditAround {ε : Type} (edit : Text → Except ε Text) (text : Text) : Except ε Text :=
  (edit (hide text).1).map (hide text).2.restore

end MarkdownLinks.Code
