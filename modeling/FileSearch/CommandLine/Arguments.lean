import FileSearch.Text.Basic

/-!
How an argument list is cut. The leading arguments that start with two dashes are options, and a
bare `--` ends them. Of the rest, the arguments before the first that can start an expression are
the paths of the roots.
-/

namespace FileSearch

/-- The three parts of an argument list. -/
structure Arguments where
  options : List Text
  paths : List Text
  expression : List Text
  deriving DecidableEq, Repr

namespace Arguments

/-- Whether an argument can start an expression. -/
def startsExpression (arg : Text) : Bool :=
  arg == ['!'] || arg == ['('] || arg == [')'] || arg.head? == some '-'

def isLongOption (arg : Text) : Bool := ['-', '-'].isPrefixOf arg

/-- Takes the options off an argument list. -/
def splitOptions : List Text → List Text × List Text
  | [] => ([], [])
  | arg :: args =>
    if arg = ['-', '-'] then ([], args)
    else if isLongOption arg then
      let (options, rest) := splitOptions args
      (arg :: options, rest)
    else ([], arg :: args)

/-- Splits paths from the expression. -/
def splitPaths (args : List Text) : List Text × List Text := args.span (!startsExpression ·)

def ofList (args : List Text) : Arguments :=
  let (options, rest) := splitOptions args
  let (paths, expression) := splitPaths rest
  ⟨options, paths, expression⟩

end Arguments

end FileSearch
