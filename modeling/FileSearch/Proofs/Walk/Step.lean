import FileSearch.Search.Walk

/-!
What one turn of a walk can do. An item that lies too deep is dropped. Any other item is checked,
its line is written if it is to be printed, others have their turn after that, and only then its
directory is listed. A turn fails where one of these requests fails.
Main statements: a turn that succeeds is a `Step` and one that fails is `Stuck`, and these say all
that a turn does to the stack, the entries that matched, the file system and the text written.
-/

namespace FileSearch

/-- The worlds differ at most in their logs. -/
structure OnlyLogs (w w' : World) : Prop where
  files : w'.files = w.files
  written : w'.written = w.written

namespace OnlyLogs

theorem refl (w : World) : OnlyLogs w w := ⟨rfl, rfl⟩

theorem trans {w v u : World} (h : OnlyLogs w v) (h' : OnlyLogs v u) : OnlyLogs w u :=
  ⟨h'.files.trans h.files, h'.written.trans h.written⟩

end OnlyLogs

namespace Search

variable {α β : Type} {x : Search α} {f : α → Search β} {a : α} {fault : Fault} {w v : World}

theorem bind_ok (h : x w = .ok a v) : (x >>= f) w = f a v := by
  change EStateM.bind x f w = _
  rw [EStateM.bind, h]

theorem bind_error (h : x w = .error fault v) : (x >>= f) w = .error fault v := by
  change EStateM.bind x f w = _
  rw [EStateM.bind, h]

theorem get_bind (f : World → Search β) (w : World) : ((get : Search World) >>= f) w = f w w := rfl

theorem ofExcept_bind_ok {y : Except Fault α} (h : y = .ok a) : (ofExcept y >>= f) w = f a w := by
  rw [h]
  rfl

theorem ofExcept_bind_error {y : Except Fault α} (h : y = .error fault) :
    (ofExcept y >>= f) w = .error fault w := by
  rw [h]
  rfl

/-- Whether a search ended with a fault. -/
def isError : EStateM.Result Fault World α → Bool
  | .ok _ _ => false
  | .error _ _ => true

theorem isError_iff {r : EStateM.Result Fault World α} :
    isError r = true ↔ ∃ fault w, r = .error fault w := by
  cases r <;> simp [isError]

theorem onlyLogs_record (r : LogRecord) (w : World) :
    ∃ w', record r w = .ok () w' ∧ OnlyLogs w w' :=
  ⟨{ w with log := w.log ++ [r] }, rfl, rfl, rfl⟩

end Search

namespace Walk

variable {e : Errand} {item : Item} {w : World}

/-! ### The items below an item -/

/-- The items of the entries of a directory, in the order of their names. -/
def childItems (e : Errand) (item : Item) (entries : List (Name × Node)) : List Item :=
  (sortByName entries).map fun p => child e.root item p.1 p.2

/-- Whether the filter answers and says that the item is excluded. -/
def isExcluded (filter : Option EntryFilter) (item : Item) : Bool :=
  match excluded filter item with
  | .ok b => b
  | .error _ => false

/-- The filter has an answer for the item. -/
def Answered (filter : Option EntryFilter) (item : Item) : Prop := ∃ b, excluded filter item = .ok b

theorem isExcluded_eq {filter : Option EntryFilter} {b : Bool} (h : excluded filter item = .ok b) :
    isExcluded filter item = b := by
  rw [isExcluded, h]

/-- The items that are put on the stack in the place of an item. -/
inductive Expands (e : Errand) (files : FileSystem) (item : Item) : List Item → Prop
  | leaf (hdir : item.entry.isDirectory = false) : Expands e files item []
  | listed {entries : List (Name × Node)} (hdir : item.entry.isDirectory = true)
      (hlist : files.list e.setting.cwd item.entry.path = .ok entries)
      (hfilter : ∀ i ∈ childItems e item entries, Answered e.filter i) :
      Expands e files item ((childItems e item entries).filter fun i => !isExcluded e.filter i)

/-- The directory of an item cannot be listed, or the filter fails on what is listed. -/
inductive ExpandFails (e : Errand) (files : FileSystem) (item : Item) (f : Fault) : Prop
  | list (hdir : item.entry.isDirectory = true)
      (hlist : files.list e.setting.cwd item.entry.path = .error f)
  | filter {entries : List (Name × Node)} {i : Item} (hdir : item.entry.isDirectory = true)
      (hlist : files.list e.setting.cwd item.entry.path = .ok entries)
      (hmem : i ∈ childItems e item entries) (hfilter : excluded e.filter i = .error f)

theorem ExpandFails.not_expands {files : FileSystem} {f : Fault} {below : List Item}
    (h : ExpandFails e files item f) : ¬ Expands e files item below := by
  intro hexp
  rcases hexp with hdir | ⟨hdir, hlist, hall⟩
  · rcases h with ⟨hdir', -⟩ | ⟨hdir', -, -, -⟩
    · simp [hdir] at hdir'
    · simp [hdir] at hdir'
  · rcases h with ⟨-, hlist'⟩ | ⟨-, hlist', hmem, hf⟩
    · rw [hlist] at hlist'
      cases hlist'
    · rw [hlist] at hlist'
      cases hlist'
      obtain ⟨b, hb⟩ := hall _ hmem
      rw [hb] at hf
      cases hf

theorem sift_result (filter : Option EntryFilter) (items : List Item) (w : World) :
    match sift filter items w with
    | .ok kept w' => OnlyLogs w w' ∧ (∀ i ∈ items, Answered filter i) ∧
        kept = items.filter fun i => !isExcluded filter i
    | .error f w' => OnlyLogs w w' ∧ ∃ i ∈ items, excluded filter i = .error f := by
  induction items generalizing w with
  | nil => exact ⟨.refl w, nofun, rfl⟩
  | cons item items ih =>
    rw [sift.eq_def]
    simp only
    cases hx : excluded filter item with
    | error f =>
      rw [Search.ofExcept_bind_error rfl]
      exact ⟨.refl w, item, List.mem_cons_self, hx⟩
    | ok out =>
      rw [Search.ofExcept_bind_ok rfl]
      have hout : isExcluded filter item = out := isExcluded_eq hx
      cases out with
      | true =>
        obtain ⟨v, hv, hlog⟩ := Search.onlyLogs_record (.excluded item.entry.path) w
        rw [if_pos rfl, Search.bind_ok hv]
        have hrest := ih v
        cases hs : sift filter items v with
        | error f u =>
          rw [hs] at hrest
          obtain ⟨hu, i, hi, hf⟩ := hrest
          exact ⟨hlog.trans hu, i, List.mem_cons_of_mem _ hi, hf⟩
        | ok kept u =>
          rw [hs] at hrest
          obtain ⟨hu, hall, rfl⟩ := hrest
          refine ⟨hlog.trans hu, List.forall_mem_cons.2 ⟨⟨_, hx⟩, hall⟩, ?_⟩
          rw [List.filter_cons, hout]
          rfl
      | false =>
        rw [if_neg Bool.false_ne_true]
        have hrest := ih w
        cases hs : sift filter items w with
        | error f u =>
          rw [hs] at hrest
          obtain ⟨hu, i, hi, hf⟩ := hrest
          rw [Search.bind_error hs]
          exact ⟨hu, i, List.mem_cons_of_mem _ hi, hf⟩
        | ok kept u =>
          rw [hs] at hrest
          obtain ⟨hu, hall, rfl⟩ := hrest
          rw [Search.bind_ok hs]
          refine ⟨hu, List.forall_mem_cons.2 ⟨⟨_, hx⟩, hall⟩, ?_⟩
          rw [List.filter_cons, hout]
          rfl

theorem expand_result (e : Errand) (item : Item) (w : World) :
    match expand e item w with
    | .ok below w' => OnlyLogs w w' ∧ Expands e w.files item below
    | .error f w' => OnlyLogs w w' ∧ ExpandFails e w.files item f := by
  unfold expand
  cases hdir : item.entry.isDirectory with
  | false => exact ⟨.refl w, .leaf hdir⟩
  | true =>
    rw [if_pos rfl, Search.get_bind]
    cases hlist : w.files.list e.setting.cwd item.entry.path with
    | error f =>
      rw [Search.ofExcept_bind_error rfl]
      exact ⟨.refl w, .list hdir hlist⟩
    | ok entries =>
      rw [Search.ofExcept_bind_ok rfl]
      have hsift := sift_result e.filter (childItems e item entries) w
      rw [childItems] at hsift
      cases hs : sift e.filter ((sortByName entries).map fun p => child e.root item p.1 p.2) w with
      | error f u =>
        rw [hs] at hsift
        obtain ⟨hu, i, hi, hf⟩ := hsift
        exact ⟨hu, .filter hdir hlist hi hf⟩
      | ok kept u =>
        rw [hs] at hsift
        obtain ⟨hu, hall, rfl⟩ := hsift
        exact ⟨hu, .listed hdir hlist hall⟩

/-! ### The line of an entry -/

/-- The line that is written for an entry. -/
def lineOf (entry : Entry) : Text := entry.display ++ ['\n']

/-- The world once a text is written and the others have had their turn. -/
def afterLine (s : Setting) (text : Text) (w : World) : World :=
  { w with
    files := s.others w.written.length text w.files
    written := w.written ++ [text] }

theorem write_of_refusal {s : Setting} {text : Text} {f : Fault}
    (h : Search.refusal? s w.written.length text = some f) :
    Search.write s text w = .error f w := by
  rw [Search.write, h]

theorem write_of_room {s : Setting} {text : Text}
    (h : Search.refusal? s w.written.length text = none) :
    Search.write s text w = .ok () (afterLine s text w) := by
  rw [Search.write, h]
  rfl

/-- What the query says of an item. -/
def verdict (e : Errand) (files : FileSystem) (item : Item) : Except Fault Bool :=
  e.query.holds item.entry (probe e.setting files item.entry.path) e.setting.now item.depth

/-- The worlds before and after an item is checked: a line is written if the item is found and to be
printed. -/
inductive Reports (e : Errand) (item : Item) (w : World) : Bool → World → Prop
  | line (hprint : e.query.print = true)
      (hroom : Search.refusal? e.setting w.written.length (lineOf item.entry) = none) :
      Reports e item w true (afterLine e.setting (lineOf item.entry) w)
  | silent {found : Bool} (hprint : (found && e.query.print) = false) : Reports e item w found w

theorem Reports.written {found : Bool} {v : World} (h : Reports e item w found v) :
    v.written = w.written ++ if found && e.query.print then [lineOf item.entry] else [] := by
  cases h with
  | line hprint =>
    rw [hprint]
    rfl
  | silent hprint =>
    rw [hprint]
    simp

/-- What is to be printed is not refused. -/
theorem Reports.room_of_print {found : Bool} {v : World} (h : Reports e item w found v)
    (hprint : (found && e.query.print) = true) :
    Search.refusal? e.setting w.written.length (lineOf item.entry) = none := by
  cases h with
  | line _ hroom => exact hroom
  | silent hsilent =>
    rw [hprint] at hsilent
    cases hsilent

theorem visit_result (e : Errand) (item : Item) (w : World) :
    match visit e item w with
    | .ok found w' => verdict e w.files item = .ok found ∧ Reports e item w found w'
    | .error f w' => w' = w ∧ (verdict e w.files item = .error f ∨
        verdict e w.files item = .ok true ∧ e.query.print = true ∧
          Search.refusal? e.setting w.written.length (lineOf item.entry) = some f) := by
  unfold visit
  rw [Search.get_bind, ← verdict]
  cases hverdict : verdict e w.files item with
  | error f =>
    rw [Search.ofExcept_bind_error rfl]
    exact ⟨rfl, .inl rfl⟩
  | ok found =>
    rw [Search.ofExcept_bind_ok rfl, report]
    cases hp : found && e.query.print with
    | false => exact ⟨rfl, .silent hp⟩
    | true =>
      obtain ⟨rfl, hprint⟩ := (Bool.and_eq_true _ _).mp hp
      rw [if_pos rfl, ← lineOf]
      cases hroom : Search.refusal? e.setting w.written.length (lineOf item.entry) with
      | some f =>
        rw [Search.bind_error (write_of_refusal hroom)]
        exact ⟨rfl, .inr ⟨rfl, hprint, rfl⟩⟩
      | none =>
        rw [Search.bind_ok (write_of_room hroom)]
        exact ⟨rfl, .line hprint hroom⟩

/-! ### Turns -/

/-- A turn that succeeds: whether the item is found, what is put in its place, and the world after
it. -/
inductive Step (e : Errand) (item : Item) (w : World) : Bool → List Item → World → Prop
  | deep {w' : World} (hdeep : tooDeep e.query item = true) (hlog : OnlyLogs w w') :
      Step e item w false [] w'
  | checked {found : Bool} {below : List Item} {v w' : World} (hdeep : tooDeep e.query item = false)
      (hverdict : verdict e w.files item = .ok found) (hreport : Reports e item w found v)
      (hexpand : Expands e v.files item below) (hlog : OnlyLogs v w') :
      Step e item w found below w'

/-- A turn that fails, and the world it leaves. -/
inductive Stuck (e : Errand) (item : Item) (w : World) : Fault → World → Prop
  | check {f : Fault} (hdeep : tooDeep e.query item = false)
      (hverdict : verdict e w.files item = .error f) : Stuck e item w f w
  | write {f : Fault} (hdeep : tooDeep e.query item = false)
      (hverdict : verdict e w.files item = .ok true) (hprint : e.query.print = true)
      (hrefusal : Search.refusal? e.setting w.written.length (lineOf item.entry) = some f) :
      Stuck e item w f w
  | expand {f : Fault} {found : Bool} {v w' : World} (hdeep : tooDeep e.query item = false)
      (hverdict : verdict e w.files item = .ok found) (hreport : Reports e item w found v)
      (hfail : ExpandFails e v.files item f) (hlog : OnlyLogs v w') : Stuck e item w f w'

theorem Stuck.not_deep {f : Fault} {w' : World} (h : Stuck e item w f w') :
    tooDeep e.query item = false := by
  cases h <;> assumption

theorem onlyLogs_drop (item : Item) (w : World) :
    ∃ w', drop item w = .ok () w' ∧ OnlyLogs w w' := by
  unfold drop
  split
  · exact Search.onlyLogs_record _ w
  · exact ⟨w, rfl, .refl w⟩

theorem process_result (e : Errand) (item : Item) (w : World) :
    match process e item w with
    | .ok (found, below) w' => Step e item w found below w'
    | .error f w' => Stuck e item w f w' := by
  unfold process
  cases hdeep : tooDeep e.query item with
  | true =>
    obtain ⟨v, hv, hlog⟩ := onlyLogs_drop item w
    rw [if_pos rfl, Search.bind_ok hv]
    exact .deep hdeep hlog
  | false =>
    rw [if_neg Bool.false_ne_true]
    have hvisit := visit_result e item w
    cases hx : visit e item w with
    | error f v =>
      rw [hx] at hvisit
      rw [Search.bind_error hx]
      obtain ⟨rfl, hverdict | ⟨hverdict, hprint, hrefusal⟩⟩ := hvisit
      · exact .check hdeep hverdict
      · exact .write hdeep hverdict hprint hrefusal
    | ok found v =>
      rw [hx] at hvisit
      obtain ⟨hverdict, hreport⟩ := hvisit
      rw [Search.bind_ok hx]
      have hexpand := expand_result e item v
      cases hy : expand e item v with
      | error f u =>
        rw [hy] at hexpand
        rw [Search.bind_error hy]
        exact .expand hdeep hverdict hreport hexpand.2 hexpand.1
      | ok below u =>
        rw [hy] at hexpand
        rw [Search.bind_ok hy]
        exact .checked hdeep hverdict hreport hexpand.2 hexpand.1

/-- The entries that matched, once an item was found or not. -/
def addMatch (matched : List Entry) (found : Bool) (item : Item) : List Entry :=
  if found then matched ++ [item.entry] else matched

/-- What a turn comes to. -/
inductive Turned (e : Errand) (st : WalkState) : Turn → Prop
  | done (hstack : st.stack = []) : Turned e st .done
  | failed {item : Item} {rest : List Item} {f : Fault} {w : World}
      (hstack : st.stack = item :: rest) (hstuck : Stuck e item st.world f w) :
      Turned e st (.failed f w)
  | next {item : Item} {rest below : List Item} {found : Bool} {st' : WalkState}
      (hstack : st.stack = item :: rest) (hstep : Step e item st.world found below st'.world)
      (hbelow : st'.stack = below ++ rest)
      (hmatched : st'.matched = addMatch st.matched found item) :
      Turned e st (.next st')

theorem turned_turn (e : Errand) (st : WalkState) : Turned e st (turn e st) := by
  unfold turn
  split
  · rename_i hstack
    exact .done hstack
  · rename_i item rest hstack
    have h := process_result e item st.world
    split
    · rename_i f w hp
      rw [hp] at h
      exact .failed hstack h
    · rename_i found below w hp
      rw [hp] at h
      exact .next hstack h rfl rfl

theorem turned_of_eq {st : WalkState} {t : Turn} (h : turn e st = t) : Turned e st t :=
  h ▸ turned_turn e st

/-! ### Several turns -/

/-- The state after the given number of turns, if the walk comes so far. -/
def turns (e : Errand) : Nat → WalkState → Option WalkState
  | 0, st => some st
  | n + 1, st =>
    match turn e st with
    | .next st' => turns e n st'
    | .done | .failed _ _ => none

theorem run_of_turns {n : Nat} {st st' : WalkState} (h : turns e n st = some st') :
    run e st = run e st' := by
  induction n generalizing st with
  | zero =>
    cases h
    rfl
  | succ n ih =>
    rw [turns] at h
    split at h
    · rename_i next hturn
      rw [run_of_next hturn]
      exact ih h
    · cases h
    · cases h

/-- A walk ends when turns have emptied the stack. -/
theorem run_of_turns_done {n : Nat} {st st' : WalkState} (h : turns e n st = some st')
    (hstack : st'.stack = []) : run e st = .ok st'.matched st'.world := by
  rw [run_of_turns h]
  refine run_of_done ?_
  rw [turn, hstack]

/-! ### Traces -/

/-- The items whose turn comes, in this order. -/
def popped (e : Errand) (st : WalkState) : List Item :=
  match _h : turn e st with
  | .done => []
  | .failed _ _ => st.stack.take 1
  | .next st' => st.stack.take 1 ++ popped e st'
termination_by lower_wellFounded.wrap (st.stack.map height)
decreasing_by exact lower_of_turn _h

/-- The items that are checked against the query, in this order. -/
def checked (e : Errand) (st : WalkState) : List Item :=
  (popped e st).filter fun item => !tooDeep e.query item

theorem popped_of_done {st : WalkState} (h : turn e st = .done) : popped e st = [] := by
  rw [popped]
  split <;> rename_i h' <;> rw [h] at h' <;> cases h'

theorem popped_of_failed {st : WalkState} {f : Fault} (h : turn e st = .failed f w) :
    popped e st = st.stack.take 1 := by
  rw [popped]
  split <;> rename_i h' <;> rw [h] at h' <;> cases h'

theorem popped_of_next {st st' : WalkState} (h : turn e st = .next st') :
    popped e st = st.stack.take 1 ++ popped e st' := by
  rw [popped]
  split <;> rename_i h' <;> rw [h] at h' <;> cases h'
  rfl

theorem checked_of_next {st st' : WalkState} {stack : List Item} (h : turn e st = .next st')
    (hstack : st.stack = item :: stack) :
    checked e st = (if tooDeep e.query item then [] else [item]) ++ checked e st' := by
  rw [checked, popped_of_next h, hstack, List.filter_append, checked]
  cases hdeep : tooDeep e.query item <;> simp [hdeep]

end Walk

end FileSearch
