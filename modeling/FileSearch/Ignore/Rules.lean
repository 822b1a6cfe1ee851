import FileSearch.Ignore.Line

/-!
The rules of an ignore file and their verdict on a path. A rule that matches the path as such
beats one that matches only with the mark of a directory; among rules of equal rank the last one
in the file counts. A path is ignored if the rule that counts is not negated.
-/

namespace FileSearch

/-- Makes of the lines of an ignore file a test of paths, in which a directory ends in a slash. -/
abbrev IgnoreCompiler := List Text → Except Fault (Text → Bool)

abbrev IgnoreRules := List IgnoreRule

namespace IgnoreRules

def ofLines : List Text → Except Fault IgnoreRules
  | [] => .ok []
  | line :: lines => do
    let rule ← IgnoreLine.rule? line
    let rules ← ofLines lines
    return rule.toList ++ rules

/-- The rule that counts for a path. -/
def deciding? (rules : IgnoreRules) (path : Text) : Option IgnoreRule :=
  match rules.reverse.find? (fun r => r.match? path == some false) with
  | some r => some r
  | none => rules.reverse.find? (fun r => r.match? path == some true)

/-- The path as rules see it, without a slash or `./` at its start. -/
def subject : Text → Text
  | '/' :: r => r
  | '.' :: '/' :: r => r
  | t => t

def ignores (rules : IgnoreRules) (path : Text) : Bool :=
  match rules.deciding? (subject path) with
  | some r => !r.negated
  | none => false

/-- Reads lines as rules and asks these. -/
def compile : IgnoreCompiler := fun lines => (ofLines lines).map ignores

end IgnoreRules

end FileSearch
