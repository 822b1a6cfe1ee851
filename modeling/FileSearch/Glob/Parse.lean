import FileSearch.Glob.Basic

/-!
From the text of a pattern to its items. Escapes are resolved first, so that an escaped character
is never an operator; then the items are read one after the other. A class closes at the first `]`
after at least one range, only `^` right after the bracket negates it, and neither `-` nor `]` may
start or end a range unescaped. A text that breaks these rules is no pattern.
-/

namespace FileSearch

/-- One character of a pattern with its escape resolved. -/
inductive GlobToken where
  | plain (c : Char)
  | escaped (c : Char)
  deriving DecidableEq, Repr

namespace GlobToken

/-- The characters of a pattern; a backslash at the very end escapes nothing. -/
def ofText? : Text → Option (List GlobToken)
  | [] => some []
  | ['\\'] => none
  | '\\' :: c :: r => (ofText? r).map (escaped c :: ·)
  | c :: r => (ofText? r).map (plain c :: ·)

/-- The end of a range that the token spells. -/
def member? : GlobToken → Option Char
  | escaped c => some c
  | plain c => if c = '-' ∨ c = ']' then none else some c

end GlobToken

namespace Glob

/-- Where the reader stands: between items, or in a class with the ranges read so far. -/
inductive Mode where
  | between
  | inClass (negated : Bool) (ranges : List CharRange)

/-- Reads the items of a pattern. -/
def ofTokens? : Mode → List GlobToken → Option Glob
  | .between, [] => some []
  | .between, .plain '[' :: .plain '^' :: r => ofTokens? (.inClass true []) r
  | .between, t :: r =>
    match t with
    | .plain '[' => ofTokens? (.inClass false []) r
    | .plain '*' => (ofTokens? .between r).map (.star :: ·)
    | .plain '?' => (ofTokens? .between r).map (.one :: ·)
    | .plain c => (ofTokens? .between r).map (.literal c :: ·)
    | .escaped c => (ofTokens? .between r).map (.literal c :: ·)
  | .inClass _ _, [] => none
  | .inClass negated ranges, t :: r =>
    if t = .plain ']' ∧ ranges ≠ [] then
      (ofTokens? .between r).map (.oneOf ⟨negated, ranges⟩ :: ·)
    else
      match t.member? with
      | none => none
      | some lo =>
        match r with
        | [.plain '-'] => none
        | .plain '-' :: u :: r' =>
          match u.member? with
          | none => none
          | some hi => ofTokens? (.inClass negated (ranges ++ [⟨lo, hi⟩])) r'
        | r => ofTokens? (.inClass negated (ranges ++ [⟨lo, lo⟩])) r

/-- The pattern that a text spells, if it is well formed. -/
def ofText? (t : Text) : Option Glob := (GlobToken.ofText? t).bind (ofTokens? .between)

end Glob

/-- Whether the whole name matches the pattern; `none` if the text is no pattern. -/
def globMatch? (pattern name : Text) : Option Bool := (Glob.ofText? pattern).map (·.accepts name)

end FileSearch
