import FileSearch.Text.Basic

/-!
Patterns of an ignore file, as sequences of pieces that consume a path from left to right. A piece
may have several ways to go on; they are tried in order, the one that consumes most first, and the
first way to the end of the pattern counts. A pattern need not consume the whole path. What
matters beside the success is whether a slash was consumed as the mark of a directory.
-/

namespace FileSearch

inductive IgnorePiece where
  | literal (c : Char)
  | oneOf (k : CharClass)
  /-- one character other than a slash -/
  | one
  /-- one character other than a line end -/
  | any
  /-- a run of characters other than slashes -/
  | run
  /-- a run that is not empty -/
  | nonemptyRun
  /-- nothing, or directories and the slash after them -/
  | leadingDirs
  /-- nothing, or a slash and what follows -/
  | innerDirs
  | slash
  /-- a slash that marks what is before it as a directory -/
  | mark
  /-- a mark, or the end of the path -/
  | ending
  deriving DecidableEq, Repr

/-- What is left after a run of characters that pass, the longest run first. -/
def afterRuns (passes : Char → Bool) : Text → List Text
  | [] => [[]]
  | c :: r => if passes c then afterRuns passes r ++ [c :: r] else [c :: r]

/-- What is left after a run that is not empty, the longest run first. -/
def afterNonemptyRuns (passes : Char → Bool) : Text → List Text
  | [] => []
  | c :: r => if passes c then afterRuns passes r else []

/-- What is left after one character that passes. -/
def afterOne (passes : Char → Bool) : Text → List Text
  | [] => []
  | c :: r => if passes c then [r] else []

namespace IgnorePiece

/-- The ways to go on after the piece without a mark. -/
def plainRests : IgnorePiece → Text → List Text
  | literal a, t => afterOne (· = a) t
  | oneOf k, t => afterOne k.contains t
  | one, t => afterOne (· ≠ '/') t
  | any, t => afterOne (· ≠ '\n') t
  | run, t => afterRuns (· ≠ '/') t
  | nonemptyRun, t => afterNonemptyRuns (· ≠ '/') t
  | leadingDirs, t => (afterNonemptyRuns (· ≠ '\n') t).flatMap (afterOne (· = '/')) ++ [t]
  | innerDirs, t => (afterOne (· = '/') t).flatMap (afterNonemptyRuns (· ≠ '\n')) ++ [t]
  | slash, t => afterOne (· = '/') t
  | mark, _ => []
  | ending, t => if t = [] ∨ t = ['\n'] then [t] else []

/-- The ways to go on after the piece as a mark. -/
def markedRests : IgnorePiece → Text → List Text
  | mark, t | ending, t => afterOne (· = '/') t
  | _, _ => []

end IgnorePiece

/-- Whether the pieces consume a beginning of the text, and if so whether with a mark. -/
def consume? : List IgnorePiece → Text → Option Bool
  | [], _ => some false
  | p :: ps, t =>
    match (p.markedRests t).findSome? (consume? ps) with
    | some _ => some true
    | none => (p.plainRests t).findSome? (consume? ps)

/-- The same at the first place in the text where it succeeds. -/
def consumeWithin? (ps : List IgnorePiece) : Text → Option Bool
  | [] => consume? ps []
  | c :: r =>
    match consume? ps (c :: r) with
    | some marked => some marked
    | none => consumeWithin? ps r

/-- A pattern with the verdict it stands for. -/
structure IgnoreRule where
  /-- whether it takes matching paths back in -/
  negated : Bool
  /-- whether it has to match from the start of the path -/
  anchored : Bool
  pieces : List IgnorePiece
  deriving DecidableEq, Repr

/-- Whether the rule matches a path, and if so whether with a mark. -/
def IgnoreRule.match? (r : IgnoreRule) (path : Text) : Option Bool :=
  if r.anchored then consume? r.pieces path else consumeWithin? r.pieces path

end FileSearch
