import FileSearch.Fault
import FileSearch.FileSystem.Basic
import FileSearch.Ignore.Rules
import FileSearch.Text.Encoding

/-!
What a search acts on: the file system, the text written so far and the log. A write can fail
because the text has no bytes or because the reader has gone, and between a write and the next
action of the search other parties may change the file system. A search that fails leaves the world
as it is at that moment.
-/

namespace FileSearch

/-- What the log keeps. -/
inductive LogRecord where
  /-- ignore rules were read from the path -/
  | loaded (path : Text)
  /-- the directory lies below the greatest depth -/
  | pruned (path : Text)
  | excluded (path : Text)
  | deleting (path : Text)
  deriving DecidableEq, Repr

structure World where
  files : FileSystem
  /-- the texts written, the first one first -/
  written : List Text := []
  log : List LogRecord := []

/-- The circumstances of a search. -/
structure Setting where
  /-- the current directory -/
  cwd : Location
  /-- the time by which ages are told; the clock is taken to stand still during a search, though it
  is read anew for each age -/
  now : Float
  /-- when a directory is modified that loses an entry -/
  stamp : Stamp
  /-- the encoding of the paths that are handed to the system; what the system lists has bytes -/
  paths : Encoding := .utf8
  /-- the encoding of the output -/
  output : Encoding := .utf8
  /-- how many writes succeed; all if absent -/
  capacity : Option Nat := none
  /-- what ignore files mean -/
  ignoring : IgnoreCompiler := IgnoreRules.compile
  /-- what others do to the file system once the text of the given number is written -/
  others : Nat → Text → FileSystem → FileSystem := fun _ _ files => files

abbrev Search := EStateM Fault World

namespace Search

/-- The value, or the fault with the world unchanged. -/
def ofExcept {α : Type} : Except Fault α → Search α
  | .ok a => pure a
  | .error f => throw f

def record (r : LogRecord) : Search Unit := modify fun w => { w with log := w.log ++ [r] }

/-- Why a text cannot be written after the given number of others, if it cannot. -/
def refusal? (s : Setting) (count : Nat) (text : Text) : Option Fault :=
  if !s.output.encodes text then some .unencodable
  else if s.capacity.any (· ≤ count) then some .brokenPipe
  else none

def write (s : Setting) (text : Text) : Search Unit := fun w =>
  match refusal? s w.written.length text with
  | some f => .error f w
  | none => .ok () { w with
      files := s.others w.written.length text w.files
      written := w.written ++ [text] }

theorem bind_eq_ok_iff {α β : Type} {x : Search α} {f : α → Search β} {b : β} {w w' : World} :
    (x >>= f) w = .ok b w' ↔ ∃ a v, x w = .ok a v ∧ f a v = .ok b w' := by
  change EStateM.bind x f w = _ ↔ _
  unfold EStateM.bind
  cases x w with
  | ok a v => exact ⟨fun h => ⟨a, v, rfl, h⟩, fun ⟨_, _, h1, h2⟩ => by cases h1; exact h2⟩
  | error e v => exact ⟨nofun, nofun⟩

theorem pure_eq_ok_iff {α : Type} {a b : α} {w w' : World} :
    (pure a : Search α) w = .ok b w' ↔ a = b ∧ w = w' := by
  change EStateM.Result.ok a w = .ok b w' ↔ _
  simp

theorem ofExcept_eq_ok_iff {α : Type} {x : Except Fault α} {a : α} {w w' : World} :
    ofExcept x w = .ok a w' ↔ x = .ok a ∧ w = w' := by
  cases x with
  | error f => exact ⟨nofun, nofun⟩
  | ok b => exact pure_eq_ok_iff.trans (by simp)

end Search

end FileSearch
