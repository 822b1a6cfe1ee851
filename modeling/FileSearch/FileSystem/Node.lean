import FileSearch.Query.Basic
import FileSearch.FileSystem.Location

/-!
What stands at a location: a regular file with its content, a directory, a symbolic link with its
target, or something else, and when it was last modified.
-/

namespace FileSearch

/-- The content of a file: some bytes, then zero bytes. -/
structure Content where
  bytes : List UInt8 := []
  zeros : Nat := 0
  deriving DecidableEq, Repr

def Content.size (c : Content) : Nat := c.bytes.length + c.zeros

def Content.toList (c : Content) : List UInt8 := c.bytes ++ List.replicate c.zeros 0

@[simp] theorem Content.length_toList (c : Content) : c.toList.length = c.size := by
  simp [toList, size]

/-- Zero bytes are added until the content has the size; a longer content is kept. -/
def Content.extend (c : Content) (size : Nat) : Content :=
  { c with zeros := c.zeros + (size - c.size) }

/-- A point in time. -/
structure Stamp where
  seconds : Int
  nanos : Nat := 0
  deriving DecidableEq, Repr

/-- Seconds since the epoch, as a double. -/
def Stamp.toFloat (t : Stamp) : Float := Float.ofInt t.seconds + 1e-9 * Float.ofNat t.nanos

inductive Body where
  | file (content : Content)
  | directory
  | symlink (target : Text)
  | special
  deriving DecidableEq, Repr

structure Node where
  body : Body
  modified : Stamp
  deriving DecidableEq, Repr

def Body.kind : Body → Option Kind
  | .file _ => some .regular
  | .directory => some .directory
  | .symlink _ => some .symlink
  | .special => none

/-- The size in bytes: a link has the size of its target, a directory that of one block. -/
def Body.size : Body → Nat
  | .file content => content.size
  | .directory => 4096
  | .symlink target => byteLength target
  | .special => 0

theorem Body.kind_eq_directory_iff {b : Body} : b.kind = some .directory ↔ b = .directory := by
  cases b <;> simp [Body.kind]

end FileSearch
