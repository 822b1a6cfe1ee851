import FileSearch.Fault
import FileSearch.Ignore.Pattern

/-!
From a line of an ignore file to its rule. Blanks at the end do not count unless the last is
escaped; comments and the bare slash are no rules; a leading `!` negates. The rest is a pattern of
segments, in which `**` stands for any number of directories. A pattern with a slash only at its
end matches at every depth, any other from the root.
-/

namespace FileSearch

namespace IgnoreLine

def doubleStar : Text := ['*', '*']

/-- Code ranges of white space in the wide sense: the spaces of every script, the line and paragraph
separators, and the control characters that separate lines, fields or records. -/
def blankRanges : List (Nat × Nat) :=
  [(0x9, 0xD), (0x1C, 0x20), (0x85, 0x85), (0xA0, 0xA0), (0x1680, 0x1680), (0x2000, 0x200A),
   (0x2028, 0x2029), (0x202F, 0x202F), (0x205F, 0x205F), (0x3000, 0x3000)]

def isBlank (c : Char) : Bool := inRanges blankRanges c

/-- Reads the members of a class between its brackets. -/
def classRanges : Text → List CharRange
  | [] => []
  | [a] => [⟨a, a⟩]
  | [a, b] => [⟨a, a⟩, ⟨b, b⟩]
  | a :: '-' :: b :: r => ⟨a, b⟩ :: classRanges r
  | a :: r => ⟨a, a⟩ :: classRanges r

/-- Splits off the members of a class; a bracket in the first place is a member. -/
def splitClass? : Text → Option (Text × Text)
  | [] => none
  | c :: r =>
    let members := c :: r.takeWhile (· ≠ ']')
    match r.dropWhile (· ≠ ']') with
    | [] => none
    | _ :: rest => some (members, rest)

/-- Why a segment has no pieces. -/
inductive Problem where
  /-- a backslash at the end of a segment -/
  | loneBackslash
  /-- a class without an end -/
  | openClass
  deriving DecidableEq, Repr

theorem length_lt_of_splitClass? {t members rest : Text}
    (h : splitClass? t = some (members, rest)) :
    rest.length < t.length := by
  cases t with
  | nil => cases h
  | cons c r =>
    simp only [splitClass?] at h
    split at h
    · cases h
    · rename_i d rest' hd
      cases h
      have h1 : (r.dropWhile (· ≠ ']')).length ≤ r.length := (List.dropWhile_suffix _).length_le
      rw [hd] at h1
      simp only [List.length_cons] at h1 ⊢
      omega

/-- Whether a class starts with a mark of negation, and what follows the mark. -/
def splitNegation : Text → Bool × Text
  | '!' :: r => (true, r)
  | '^' :: r => (true, r)
  | r => (false, r)

theorem length_splitNegation_le (t : Text) : (splitNegation t).2.length ≤ t.length := by
  unfold splitNegation
  split <;> simp

/-- The pieces of a segment. -/
def globPieces : Text → Except Problem (List IgnorePiece)
  | [] => .ok []
  | ['\\'] => .error .loneBackslash
  | '\\' :: c :: r => (globPieces r).map (.literal c :: ·)
  | '*' :: r => (globPieces r).map (.run :: ·)
  | '?' :: r => (globPieces r).map (.one :: ·)
  | '[' :: r =>
    match _h : splitClass? (splitNegation r).2 with
    | none => .error .openClass
    | some (members, rest) =>
      (globPieces rest).map (.oneOf ⟨(splitNegation r).1, classRanges members⟩ :: ·)
  | c :: r => (globPieces r).map (.literal c :: ·)
termination_by t => t.length
decreasing_by
  all_goals simp only [List.length_cons]
  all_goals try omega
  have h1 := length_lt_of_splitClass? _h
  have h2 := length_splitNegation_le r
  omega

/-- The pieces of the segments, given whether the pattern is for directories only, whether these are
the first segments, and whether a slash has to come before them. -/
def pieces (dirOnly : Bool) : Bool → Bool → List Text → Except Problem (List IgnorePiece)
  | _, _, [] => .ok []
  | first, needSlash, s :: rest =>
    if s = doubleStar then
      if rest.isEmpty then .ok [if dirOnly then .mark else .slash]
      else if first then (pieces dirOnly false false rest).map (.leadingDirs :: ·)
      else (pieces dirOnly false true rest).map (.innerDirs :: ·)
    else do
      let here ← if s = ['*'] then .ok [.nonemptyRun] else globPieces s
      let after ← if rest.isEmpty then .ok [.ending] else pieces dirOnly false true rest
      return (if needSlash then [.slash] else []) ++ here ++ after

/-- The segments as they count: without the empty one before a leading slash, with `**` in front of
a pattern for every depth, and with `**` for the empty one after a final slash. -/
def effectiveSegments (segs : List Text) : List Text :=
  let segs := match segs with
    | [] :: rest => rest
    | [s] | [s, []] => if s = doubleStar then segs else doubleStar :: segs
    | _ => segs
  match segs.getLast? with
  | some [] => segs.dropLast ++ [doubleStar]
  | _ => segs

/-- Leaves out each `**` that follows another. -/
def collapse : List Text → List Text
  | [] => []
  | s :: rest =>
    match collapse rest with
    | [] => [s]
    | s' :: rest' => if s = doubleStar ∧ s' = doubleStar then s' :: rest' else s :: s' :: rest'

/-- Whether the pattern starts at the start of the path, and its pieces. -/
def patternOf (dirOnly : Bool) (segs : List Text) : Except Problem (Bool × List IgnorePiece) :=
  if segs = [doubleStar] then .ok (false, [if dirOnly then .mark else .any])
  else if segs = [doubleStar, ['*']] then .ok (false, [.any])
  else if segs = [doubleStar, ['*'], doubleStar] then
    .ok (false, [if dirOnly then .mark else .slash])
  else (pieces dirOnly true false segs).map (true, ·)

/-- Whether a class has a range whose ends are the wrong way round. -/
def hasReversedRange : IgnorePiece → Bool
  | .oneOf k => k.ranges.any fun r => r.hi < r.lo
  | _ => false

/-- The line without the blanks at its end, which an escaped space keeps. -/
def stripped (line : Text) : Text :=
  if ['\\', ' '].isSuffixOf line then line else dropTrailing isBlank line

def splitBang : Text → Bool × Text
  | '!' :: r => (true, r)
  | r => (false, r)

/-- The rule of a line; a line with an unclosed class is passed over. -/
def rule? (line : Text) : Except Fault (Option IgnoreRule) :=
  let text := stripped line
  if text.isEmpty || text.head? == some '#' || text == ['/'] then .ok none
  else
    let (negated, pattern) := splitBang text
    let segs := segments pattern
    let dirOnly := segs.getLast? == some []
    match collapse (effectiveSegments segs) with
    | [] => .error (.ignoreLine line)
    | segs =>
      match patternOf dirOnly segs with
      | .error .loneBackslash => .error (.ignoreLine line)
      | .error .openClass => .ok none
      | .ok (anchored, pieces) =>
        if pieces.any hasReversedRange then .error .ignoreRange
        else .ok (some ⟨negated, anchored, pieces⟩)

end IgnoreLine

end FileSearch
