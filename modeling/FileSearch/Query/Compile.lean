import FileSearch.Query.Basic
import FileSearch.Size

/-!
From the tokens of an expression to a query. Tokens are read from left to right. An operator takes
the token after it as its value, whatever that token is; a switch stands alone. A later value
replaces an earlier one of its kind, and deletion turns off printing unless printing was asked for
before.
-/

namespace FileSearch

/-- The tokens that take a value. -/
inductive Operator where
  | name | nameAnyCase | path | kind | maxDepth | minDepth | size | age
  deriving DecidableEq, Repr

/-- The tokens that stand alone. -/
inductive Switch where
  | empty | print | delete
  deriving DecidableEq, Repr

def Operator.all : List Operator :=
  [.name, .nameAnyCase, .path, .kind, .maxDepth, .minDepth, .size, .age]

def Operator.spelling : Operator → Text
  | .name => "-name".toList
  | .nameAnyCase => "-iname".toList
  | .path => "-path".toList
  | .kind => "-type".toList
  | .maxDepth => "-maxdepth".toList
  | .minDepth => "-mindepth".toList
  | .size => "-size".toList
  | .age => "-mtime".toList

def Switch.all : List Switch := [.empty, .print, .delete]

def Switch.spelling : Switch → Text
  | .empty => "-empty".toList
  | .print => "-print".toList
  | .delete => "-delete".toList

/-- What a token says when it is not a value. -/
inductive Word where
  | operator (o : Operator)
  | switch (s : Switch)
  | unknown
  deriving DecidableEq, Repr

def Word.ofText (t : Text) : Word :=
  match Operator.all.find? (·.spelling = t) with
  | some o => .operator o
  | none =>
    match Switch.all.find? (·.spelling = t) with
    | some s => .switch s
    | none => .unknown

inductive CompileError where
  | missingValue (o : Operator)
  | badValue (o : Operator)
  | badUnit
  | emptyToken
  | unsupported (token : Text)
  deriving DecidableEq, Repr

/-- What the value of an operator is called when it is missing. -/
def Operator.valueNoun : Operator → Text
  | .name | .nameAnyCase | .path => "a pattern".toList
  | .maxDepth | .minDepth => "a number".toList
  | .kind | .size | .age => "a value".toList

def CompileError.message : CompileError → Text
  | .missingValue o => o.spelling ++ " requires ".toList ++ o.valueNoun
  | .badValue .kind => "invalid -type value (use f, d, or l)".toList
  | .badValue o => "invalid ".toList ++ o.spelling ++ " value".toList
  | .badUnit => SizeError.message .badUnit
  | .emptyToken => "empty expression".toList
  | .unsupported token => "unsupported expression: ".toList ++ token

def Kind.ofLetter? : Text → Option Kind
  | ['f'] => some .regular
  | ['d'] => some .directory
  | ['l'] => some .symlink
  | _ => none

/-- The query with the operator's condition set to the value. -/
def Operator.apply (o : Operator) (value : Text) (q : Query) : Except CompileError Query :=
  match o with
  | .name => .ok { q with namePattern := some value }
  | .nameAnyCase => .ok { q with namePattern := some value, ignoreCase := true }
  | .path => .ok { q with pathPattern := some value }
  | .kind =>
    match Kind.ofLetter? value with
    | none => .error (.badValue .kind)
    | some k => .ok { q with kind := some k }
  | .maxDepth =>
    match readNumeral value with
    | .error _ => .error (.badValue .maxDepth)
    | .ok depth => .ok { q with maxDepth := some depth }
  | .minDepth =>
    match readNumeral value with
    | .error _ => .error (.badValue .minDepth)
    | .ok depth => .ok { q with minDepth := some depth }
  | .size =>
    match readSize value with
    | .error .badNumber => .error (.badValue .size)
    | .error .badUnit => .error .badUnit
    | .ok c => .ok { q with size := some c }
  | .age =>
    match readAge value with
    | none => .error (.badValue .age)
    | some c => .ok { q with age := some c }

def Switch.apply (s : Switch) (q : Query) : Query :=
  match s with
  | .empty => { q with emptyOnly := true }
  | .print => { q with print := true, explicitPrint := true }
  | .delete => { q with delete := true, print := q.explicitPrint }

/-- Reads the rest of an expression into a query. -/
def compileOnto (q : Query) : List Text → Except CompileError Query
  | [] => .ok q
  | token :: rest =>
    match Word.ofText token with
    | .switch s => compileOnto (s.apply q) rest
    | .operator o =>
      match rest with
      | [] => .error (.missingValue o)
      | value :: rest =>
        match o.apply value q with
        | .error e => .error e
        | .ok q' => compileOnto q' rest
    | .unknown => .error (if token.isEmpty then .emptyToken else .unsupported token)

/-- Reads an expression. -/
def compile (tokens : List Text) : Except CompileError Query := compileOnto {} tokens

theorem Word.ofText_operator (o : Operator) : Word.ofText o.spelling = .operator o := by
  cases o <;> decide

theorem Word.ofText_switch (s : Switch) : Word.ofText s.spelling = .switch s := by
  cases s <;> decide

theorem Word.ofText_eq_operator {t : Text} {o : Operator} (h : Word.ofText t = .operator o) :
    t = o.spelling := by
  unfold Word.ofText at h
  split at h
  · rename_i o' ho
    cases h
    exact (by simpa using List.find?_some ho : o.spelling = t).symm
  · split at h <;> cases h

theorem Word.ofText_eq_switch {t : Text} {s : Switch} (h : Word.ofText t = .switch s) :
    t = s.spelling := by
  unfold Word.ofText at h
  split at h
  · cases h
  · split at h
    · rename_i s' hs
      cases h
      exact (by simpa using List.find?_some hs : s.spelling = t).symm
    · cases h

end FileSearch
