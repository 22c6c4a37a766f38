import MarkdownLinks.Text.Basic

/-! Glob patterns and how they are written. A question mark stands for one character and a star for any
number of them, the separator `/` included; brackets stand for one character in or out of a class; two
stars are a whole component of the pattern and stand for whole components of a path. A pattern that
cannot be read is a fault with the place where it shows, in characters from the start of the pattern. -/

namespace MarkdownLinks.Glob

/-- The characters of a class, as inclusive ranges. -/
abbrev Ranges := List (Char × Char)

inductive Token where
  | literal (c : Char)
  | anyChar
  | oneOf (ranges : Ranges)
  | noneOf (ranges : Ranges)
  | anyText
  | anyComponents
  deriving DecidableEq

abbrev Pattern := List Token

/-- What is wrong with a pattern. -/
inductive Cause where
  /-- More than two stars in a row. -/
  | stars
  /-- Two stars that share their component. -/
  | component
  /-- An opening bracket that begins no class. -/
  | range
  deriving DecidableEq

def Cause.message : Cause → Text
  | .stars => "wildcards are either regular `*` or recursive `**`".toList
  | .component => "recursive wildcards must form a single path component".toList
  | .range => "invalid range pattern".toList

structure Fault where
  position : Nat
  cause : Cause
  deriving DecidableEq

def Fault.message (f : Fault) : Text :=
  "Pattern syntax error near position ".toList ++ decimal f.position ++ ": ".toList ++ f.cause.message

/-- The ranges that the inside of a class lists: `a-z`, or single characters. -/
def rangesOf : Text → Ranges
  | a :: '-' :: z :: s => (a, z) :: rangesOf s
  | a :: s => (a, a) :: rangesOf s
  | [] => []

/-- The class behind an opening bracket, and what follows it. The first character of a class may be
the closing bracket. -/
def readClass? : Text → Option (Token × Text)
  | '!' :: c :: s => (splitFirst? ']' s).map fun (inner, rest) => (.noneOf (rangesOf (c :: inner)), rest)
  | '!' :: [] => none
  | c :: s => (splitFirst? ']' s).map fun (inner, rest) => (.oneOf (rangesOf (c :: inner)), rest)
  | [] => none

theorem length_readClass?_lt {s rest : Text} {token : Token} (h : readClass? s = some (token, rest)) :
    rest.length < s.length := by
  unfold readClass? at h
  split at h
  · obtain ⟨⟨inner, rest'⟩, hs, h⟩ := Option.map_eq_some_iff.1 h
    cases h
    exact Nat.lt_succ_of_lt (Nat.lt_succ_of_lt (length_lt_of_splitFirst? hs))
  · cases h
  · obtain ⟨⟨inner, rest'⟩, hs, h⟩ := Option.map_eq_some_iff.1 h
    cases h
    exact Nat.lt_succ_of_lt (length_lt_of_splitFirst? hs)
  · cases h

/-- The rest of a pattern that is `total` characters long; `atBoundary` says whether a component
begins here. -/
def parseRest (total : Nat) (atBoundary : Bool) (s : Text) : Except Fault Pattern :=
  let position := total - s.length
  match s with
  | [] => .ok []
  | '?' :: rest => (parseRest total false rest).map (.anyChar :: ·)
  | '*' :: '*' :: '*' :: _ => .error ⟨position + 2, .stars⟩
  | '*' :: '*' :: rest =>
      if !atBoundary then .error ⟨position - 1, .component⟩
      else
        match rest with
        | [] => .ok [.anyComponents]
        | '/' :: rest => (parseRest total true rest).map (.anyComponents :: ·)
        | _ => .error ⟨position + 2, .component⟩
  | '*' :: rest => (parseRest total false rest).map (.anyText :: ·)
  | '[' :: rest =>
      match _ : readClass? rest with
      | some (token, rest) => (parseRest total false rest).map (token :: ·)
      | none => .error ⟨position, .range⟩
  | c :: rest => (parseRest total (c == '/') rest).map (.literal c :: ·)
termination_by s.length
decreasing_by
  all_goals simp only [List.length_cons]
  all_goals try omega
  have := length_readClass?_lt (by assumption)
  omega

/-- A pattern from its text. -/
def parse (s : Text) : Except Fault Pattern := parseRest s.length true s

end MarkdownLinks.Glob
