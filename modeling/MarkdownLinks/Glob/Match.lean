import MarkdownLinks.Glob.Basic

/-! Which texts a glob pattern stands for. A pattern is tried on a text and on all that may be left of
it at once, token by token from the last to the first, so that the work grows with the length of the
pattern times the length of the text. The main statements are `accepts_nil` and `accepts_cons`: the
empty pattern stands for the empty text only, and a pattern stands for a text if what follows its first
token stands for one of the rests that the token may leave. -/

namespace MarkdownLinks.Glob

def inRanges (ranges : Ranges) (c : Char) : Bool := ranges.any fun r => r.1 ≤ c && c ≤ r.2

/-- A text and all that is left of it from some later place on, the end included. -/
def suffixes : Text → List Text
  | [] => [[]]
  | c :: s => (c :: s) :: suffixes s

/-- What follows a separator in a text, and nothing. -/
def separatedSuffixes : Text → List Text
  | [] => [[]]
  | c :: s => if c = '/' then s :: separatedSuffixes s else separatedSuffixes s

/-- What is left of a text behind a character with a property. -/
def restsOfChar (p : Char → Bool) : Text → List Text
  | [] => []
  | c :: s => if p c then [s] else []

namespace Token

/-- What may be left of a text behind the part that a token stands for. -/
def rests : Token → Text → List Text
  | .anyText, s => suffixes s
  | .anyComponents, s => s :: separatedSuffixes s
  | .literal a, s => restsOfChar (· == a) s
  | .anyChar, s => restsOfChar (fun _ => true) s
  | .oneOf ranges, s => restsOfChar (inRanges ranges) s
  | .noneOf ranges, s => restsOfChar (fun c => !inRanges ranges c) s

end Token

/-! ### Verdicts

The verdicts on a text are one truth value for the text and each of its suffixes, in their order. -/

/-- The verdicts when a character with a property comes before what `later` judges. -/
def charVerdicts (p : Char → Bool) : Text → List Bool → List Bool
  | c :: s, _ :: later => (p c && later.headD false) :: charVerdicts p s later
  | _, _ => [false]

/-- The verdicts when any text comes before what `later` judges. -/
def textVerdicts (later : List Bool) : List Bool :=
  later.foldr (fun v verdicts => (v || verdicts.headD false) :: verdicts) []

/-- The verdicts when a text up to a separator, or all of the text, comes before what `later` judges. -/
def separatedVerdicts : Text → List Bool → List Bool
  | c :: s, _ :: later =>
      let verdicts := separatedVerdicts s later
      ((c == '/' && later.headD false) || verdicts.headD false) :: verdicts
  | _, later => later

/-- The verdicts when a token comes before what `later` judges. -/
def Token.verdicts : Token → Text → List Bool → List Bool
  | .anyText, _, later => textVerdicts later
  | .anyComponents, s, later => later.zipWith (· || ·) (separatedVerdicts s later)
  | .literal a, s, later => charVerdicts (· == a) s later
  | .anyChar, s, later => charVerdicts (fun _ => true) s later
  | .oneOf ranges, s, later => charVerdicts (inRanges ranges) s later
  | .noneOf ranges, s, later => charVerdicts (fun c => !inRanges ranges c) s later

namespace Pattern

/-- The verdicts of a pattern. -/
def verdicts : Pattern → Text → List Bool
  | [], s => (suffixes s).map List.isEmpty
  | token :: pattern, s => token.verdicts s (verdicts pattern s)

/-- Whether a pattern stands for a whole text. -/
def accepts (pattern : Pattern) (s : Text) : Bool := (verdicts pattern s).headD false

end Pattern

/-- The first suffix of a text is the text. -/
theorem headD_map_suffixes (f : Text → Bool) (s : Text) : ((suffixes s).map f).headD false = f s := by
  cases s <;> rfl

theorem charVerdicts_map (p : Char → Bool) (f : Text → Bool) (s : Text) :
    charVerdicts p s ((suffixes s).map f) = (suffixes s).map fun r => (restsOfChar p r).any f := by
  induction s with
  | nil => rfl
  | cons c s ih =>
      rw [suffixes, List.map_cons, charVerdicts, ih, headD_map_suffixes, List.map_cons]
      by_cases h : p c <;> simp [restsOfChar, h]

theorem textVerdicts_map (f : Text → Bool) (s : Text) :
    textVerdicts ((suffixes s).map f) = (suffixes s).map fun r => (suffixes r).any f := by
  induction s with
  | nil => simp [suffixes, textVerdicts]
  | cons c s ih =>
      have h : textVerdicts ((suffixes (c :: s)).map f) =
          (f (c :: s) || (textVerdicts ((suffixes s).map f)).headD false) ::
            textVerdicts ((suffixes s).map f) := rfl
      rw [h, ih, headD_map_suffixes]
      rfl

theorem separatedVerdicts_map (f : Text → Bool) (s : Text) :
    separatedVerdicts s ((suffixes s).map f) = (suffixes s).map fun r => (separatedSuffixes r).any f := by
  induction s with
  | nil => simp [suffixes, separatedVerdicts, separatedSuffixes]
  | cons c s ih =>
      rw [suffixes, List.map_cons, separatedVerdicts, ih, headD_map_suffixes, headD_map_suffixes,
        List.map_cons]
      by_cases h : c = '/' <;> simp [separatedSuffixes, h]

theorem Token.verdicts_map (token : Token) (f : Text → Bool) (s : Text) :
    token.verdicts s ((suffixes s).map f) = (suffixes s).map fun r => (token.rests r).any f := by
  cases token with
  | anyText => exact textVerdicts_map f s
  | anyComponents => simp [verdicts, rests, separatedVerdicts_map, List.zipWith_map, List.zipWith_self]
  | _ => exact charVerdicts_map _ f s

namespace Pattern

theorem accepts_nil (s : Text) : accepts [] s = s.isEmpty := headD_map_suffixes List.isEmpty s

/-- The verdicts are what the pattern says of each suffix. -/
theorem verdicts_eq (pattern : Pattern) (s : Text) :
    verdicts pattern s = (suffixes s).map (accepts pattern) := by
  induction pattern generalizing s with
  | nil => exact List.map_congr_left fun r _ => (accepts_nil r).symm
  | cons token pattern ih =>
      have h (r : Text) : verdicts (token :: pattern) r =
          (suffixes r).map fun r => (token.rests r).any (accepts pattern) := by
        rw [verdicts, ih, Token.verdicts_map]
      rw [h]
      refine List.map_congr_left fun r _ => ?_
      rw [accepts, h, headD_map_suffixes]

theorem accepts_cons (token : Token) (pattern : Pattern) (s : Text) :
    accepts (token :: pattern) s = (token.rests s).any (accepts pattern) := by
  rw [accepts, verdicts, verdicts_eq, Token.verdicts_map, headD_map_suffixes]

end Pattern

end MarkdownLinks.Glob
