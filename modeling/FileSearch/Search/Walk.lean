import FileSearch.FileSystem.Requests
import FileSearch.Query.Holds
import FileSearch.Search.Children

/-!
The walk of one root. Entries wait on a stack; a turn takes the top one, checks it against the
query, and puts the entries of a directory in its place, sorted by name. What a filter excludes is
not put on the stack, and what lies too deep is dropped when its turn comes. The kind of an entry
is fixed when its directory is listed, everything else is looked up at its turn.
Main statement: every walk ends, because the path of an entry is longer than that of its directory
and a path that is too long cannot be listed, whatever others do to the file system.
-/

namespace FileSearch

/-- What a walk is about. -/
structure Errand where
  setting : Setting
  query : Query
  filter : Option EntryFilter
  root : Text

structure WalkState where
  stack : List Item
  /-- the entries that matched, the first one first -/
  matched : List Entry
  world : World

namespace Walk

/-! ### Listing a directory -/

/-- The items below an item, in the order of their names. -/
def expand (e : Errand) (item : Item) : Search (List Item) := do
  if item.entry.isDirectory then
    let w ← get
    let entries ← Search.ofExcept (w.files.list e.setting.cwd item.entry.path)
    sift e.filter ((sortByName entries).map fun p => child e.root item p.1 p.2)
  else
    return []

/-! ### Visiting an entry -/

/-- What the file system answers about a path. -/
def probe (s : Setting) (files : FileSystem) (path : Text) : Probe where
  status _ := (files.status s.cwd path).map fun node => ⟨node.body.size, node.modified.toFloat⟩
  vacant _ := (files.list s.cwd path).map (·.isEmpty)

/-- Prints an entry that was found, if the query prints. -/
def report (e : Errand) (found : Bool) (entry : Entry) : Search Unit :=
  if found && e.query.print then Search.write e.setting (entry.display ++ ['\n']) else pure ()

/-- Checks an entry and prints it if it matches. -/
def visit (e : Errand) (item : Item) : Search Bool := do
  let w ← get
  let found ← Search.ofExcept <|
    e.query.holds item.entry (probe e.setting w.files item.entry.path) e.setting.now item.depth
  report e found item.entry
  return found

def tooDeep (q : Query) (item : Item) : Bool := q.maxDepth.any (· < item.depth)

/-- Passes over an item. -/
def drop (item : Item) : Search Unit :=
  if item.entry.isDirectory then Search.record (.pruned item.entry.path) else pure ()

/-- Deals with one item: whether it matches, and the items to put in its place. -/
def process (e : Errand) (item : Item) : Search (Bool × List Item) := do
  if tooDeep e.query item then
    drop item
    return (false, [])
  else
    let found ← visit e item
    let below ← expand e item
    return (found, below)

/-! ### Turns -/

inductive Turn where
  | done
  | failed (f : Fault) (world : World)
  | next (state : WalkState)

def turn (e : Errand) (st : WalkState) : Turn :=
  match st.stack with
  | [] => .done
  | item :: rest =>
    match process e item st.world with
    | .error f w => .failed f w
    | .ok (found, below) w => .next {
        stack := below ++ rest
        matched := if found then st.matched ++ [item.entry] else st.matched
        world := w }

/-! ### The end of a walk -/

/-- One height is replaced by any number of smaller ones. -/
def Lower (xs ys : List Nat) : Prop :=
  ∃ h rest below, ys = h :: rest ∧ xs = below ++ rest ∧ ∀ k ∈ below, k < h

theorem lower_wellFounded : WellFounded Lower := by
  have hcons : ∀ h rest, Acc Lower rest → Acc Lower (h :: rest) := by
    intro h
    induction h using Nat.strongRecOn with
    | ind h ih =>
      intro rest hrest
      refine ⟨_, fun xs hx => ?_⟩
      obtain ⟨h', rest', below, he, rfl, hb⟩ := hx
      obtain ⟨rfl, rfl⟩ := List.cons_eq_cons.1 he
      clear he
      induction below with
      | nil => exact hrest
      | cons k ks ihb =>
        exact ih k (hb k List.mem_cons_self) _ (ihb fun j hj => hb j (List.mem_cons_of_mem _ hj))
  refine ⟨fun xs => ?_⟩
  induction xs with
  | nil => exact ⟨_, fun _ ⟨_, _, _, h, _⟩ => by simp at h⟩
  | cons h rest ih => exact hcons h rest ih

/-- The bytes that the path of an item can still grow by. -/
def height (item : Item) : Nat := maxPathBytes - byteLength item.entry.path

/-- A path that is listed is short enough to grow. -/
theorem byteLength_lt_of_list {fs : FileSystem} {cwd : Location} {path : Text}
    {entries : List (Name × Node)} (h : fs.list cwd path = .ok entries) :
    byteLength path < maxPathBytes := by
  by_cases hp : maxPathBytes ≤ byteLength path
  · have : ∃ f, FileSystem.checkPath path = .error f := by
      unfold FileSystem.checkPath
      split
      · exact ⟨_, rfl⟩
      · split
        · exact ⟨_, rfl⟩
        · exact ⟨.system .nameTooLong path, rfl⟩
    obtain ⟨f, hf⟩ := this
    simp [FileSystem.list, FileSystem.locate, hf, bind, Except.bind] at h
  · omega

theorem height_lt_of_expand {e : Errand} {item : Item} {below : List Item} {w w' : World}
    (h : expand e item w = .ok below w') : ∀ i ∈ below, height i < height item := by
  rw [expand] at h
  cases hd : item.entry.isDirectory with
  | false =>
    rw [hd] at h
    obtain ⟨rfl, -⟩ := Search.pure_eq_ok_iff.1 h
    simp
  | true =>
    rw [hd] at h
    obtain ⟨v, v', -, h⟩ := Search.bind_eq_ok_iff.1 h
    obtain ⟨entries, v'', hl, h⟩ := Search.bind_eq_ok_iff.1 h
    obtain ⟨hl, -⟩ := Search.ofExcept_eq_ok_iff.1 hl
    intro i hi
    obtain ⟨p, -, rfl⟩ := List.mem_map.1 ((sift_sublist h).subset hi)
    have h1 := byteLength_lt_child e.root item p.1 p.2
    have h2 := byteLength_lt_of_list hl
    simp only [height]
    omega

theorem height_lt_of_process {e : Errand} {item : Item} {found : Bool} {below : List Item}
    {w w' : World} (h : process e item w = .ok (found, below) w') :
    ∀ i ∈ below, height i < height item := by
  rw [process] at h
  split at h
  · obtain ⟨-, v, -, h⟩ := Search.bind_eq_ok_iff.1 h
    obtain ⟨h, -⟩ := Search.pure_eq_ok_iff.1 h
    cases h
    simp
  · obtain ⟨f, v, -, h⟩ := Search.bind_eq_ok_iff.1 h
    obtain ⟨b, v', hb, h⟩ := Search.bind_eq_ok_iff.1 h
    obtain ⟨h, -⟩ := Search.pure_eq_ok_iff.1 h
    cases h
    exact height_lt_of_expand hb

theorem lower_of_turn {e : Errand} {st st' : WalkState} (h : turn e st = .next st') :
    Lower (st'.stack.map height) (st.stack.map height) := by
  unfold turn at h
  split at h
  · cases h
  · rename_i item rest hs
    split at h
    · cases h
    · rename_i found below w hp
      cases h
      refine ⟨height item, rest.map height, below.map height, by simp [hs], by simp, ?_⟩
      intro k hk
      obtain ⟨i, hi, rfl⟩ := List.mem_map.1 hk
      exact height_lt_of_process hp i hi

/-- Takes turns until the stack is empty or a fault ends the walk. -/
def run (e : Errand) (st : WalkState) : EStateM.Result Fault World (List Entry) :=
  match _h : turn e st with
  | .done => .ok st.matched st.world
  | .failed f w => .error f w
  | .next st' => run e st'
termination_by lower_wellFounded.wrap (st.stack.map height)
decreasing_by exact lower_of_turn _h

theorem run_of_done {e : Errand} {st : WalkState} (h : turn e st = .done) :
    run e st = .ok st.matched st.world := by
  rw [run]
  split <;> rename_i h' <;> rw [h] at h' <;> cases h'

theorem run_of_failed {e : Errand} {st : WalkState} {f : Fault} {w : World}
    (h : turn e st = .failed f w) : run e st = .error f w := by
  rw [run]
  split <;> rename_i h' <;> rw [h] at h' <;> cases h'
  rfl

theorem run_of_next {e : Errand} {st st' : WalkState} (h : turn e st = .next st') :
    run e st = run e st' := by
  rw [run]
  split <;> rename_i h' <;> rw [h] at h' <;> cases h'
  rfl

end Walk

/-- Walks a root; the answer is the entries that match, in the order of discovery. -/
def walk (e : Errand) : Search (List Entry) := do
  let w ← get
  let node ← Search.ofExcept (w.files.status e.setting.cwd e.root)
  fun world => Walk.run e {
    stack := [{ entry := Entry.root e.root node.body.kind, rel := [], depth := 0 }]
    matched := []
    world }

end FileSearch
