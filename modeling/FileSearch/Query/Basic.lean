import FileSearch.Comparison
import FileSearch.Text.Basic

/-!
A query: the conditions an entry has to meet and what is done with the entries that meet them. A
condition that is absent constrains nothing.
-/

namespace FileSearch

/-- The kinds of entry a query can ask for; an entry may be of none of them. -/
inductive Kind where
  | regular | directory | symlink
  deriving DecidableEq, Repr

structure Query where
  /-- glob for the base name -/
  namePattern : Option Text := none
  /-- whether the base name is matched without regard to case -/
  ignoreCase : Bool := false
  /-- glob for the path as it is shown -/
  pathPattern : Option Text := none
  kind : Option Kind := none
  /-- only empty files and empty directories -/
  emptyOnly : Bool := false
  /-- the deepest depth visited; the root has depth 0 -/
  maxDepth : Option Nat := none
  /-- the shallowest depth that can match -/
  minDepth : Option Nat := none
  /-- size in bytes -/
  size : Option Comparison := none
  /-- age in whole days -/
  age : Option Comparison := none
  print : Bool := true
  /-- whether printing was asked for, and is not only the default -/
  explicitPrint : Bool := false
  delete : Bool := false
  deriving DecidableEq, Repr

end FileSearch
