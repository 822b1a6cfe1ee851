import FileSearch.Proofs.Walk.Listing

/-!
Walks with others at work at any time. A walk takes one action after the other: it drops an item,
checks it and writes its line, or lists its directory. Between two actions others may put any file
system in the place of the one before, and during a check as well, so that what a check answers is
left open.
Main statements: every run of a walk, whether or not it fails, is such a journey, and on a journey
the entries that matched are among the items that were checked, and the text written is their lines.
-/

namespace FileSearch.Walk

/-- A walk between two actions: its state, and the item that was just checked if its directory is
still to be listed. -/
structure Moment where
  state : WalkState
  opened : Option Item := none

/-- One action of the walk or of others, with the items that are checked in it. -/
inductive Moves (e : Errand) : Moment → List Item → Moment → Prop
  | change {m : Moment} (files : FileSystem) :
      Moves e m [] { m with state.world.files := files }
  | drop {item : Item} {rest : List Item} {matched : List Entry} {w w' : World}
      (hdeep : tooDeep e.query item = true) (hlog : OnlyLogs w w') :
      Moves e ⟨⟨item :: rest, matched, w⟩, none⟩ [] ⟨⟨rest, matched, w'⟩, none⟩
  | check {item : Item} {rest : List Item} {matched : List Entry} {found : Bool} {w w' : World}
      (hdeep : tooDeep e.query item = false) (hreport : Reports e item w found w') :
      Moves e ⟨⟨item :: rest, matched, w⟩, none⟩ [item]
        ⟨⟨rest, addMatch matched found item, w'⟩, some item⟩
  | list {item : Item} {rest below : List Item} {matched : List Entry} {w w' : World}
      (hexpand : Expands e w.files item below) (hlog : OnlyLogs w w') :
      Moves e ⟨⟨rest, matched, w⟩, some item⟩ [] ⟨⟨below ++ rest, matched, w'⟩, none⟩

/-- Any number of actions, with the items that are checked on the way. -/
inductive Journey (e : Errand) (first : Moment) : List Item → Moment → Prop
  | here : Journey e first [] first
  | go {items more : List Item} {m m' : Moment} (h : Journey e first items m)
      (hmove : Moves e m more m') : Journey e first (items ++ more) m'

/-- Where the walk of a root starts that is of the given kind. -/
def departure (e : Errand) (kind : Option Kind) (w : World) : Moment where
  state := ⟨[⟨Entry.root e.root kind, [], 0⟩], [], w⟩

variable {e : Errand} {first m m' m'' : Moment} {items more : List Item} {item : Item}
  {kind : Option Kind} {w w' : World} {st : WalkState}

/-! ### Runs are journeys -/

theorem Journey.trans (h : Journey e first items m) (h' : Journey e m more m') :
    Journey e first (items ++ more) m' := by
  induction h' with
  | here => rwa [List.append_nil]
  | go _ hmove ih =>
    rw [← List.append_assoc]
    exact ih.go hmove

theorem Moves.journey (h : Moves e m items m') : Journey e m items m' := by
  simpa using Journey.here.go h

/-- A turn that succeeds is one action or two. -/
theorem journey_of_next {st' : WalkState} {rest : List Item} (hturn : turn e st = .next st')
    (hstack : st.stack = item :: rest) :
    Journey e ⟨st, none⟩ (if tooDeep e.query item then [] else [item]) ⟨st', none⟩ := by
  obtain ⟨stack, matched, w⟩ := st
  obtain ⟨stack', matched', w'⟩ := st'
  obtain rfl : stack = item :: rest := hstack
  cases turned_of_eq hturn with
  | next hstack hstep hbelow hmatched =>
    obtain ⟨rfl, rfl⟩ := List.cons_eq_cons.1 hstack
    obtain rfl := hbelow
    obtain rfl := hmatched
    cases hstep with
    | deep hdeep hlog =>
      rw [hdeep, if_pos rfl]
      exact (Moves.drop hdeep hlog).journey
    | checked hdeep hverdict hreport hexpand hlog =>
      rw [hdeep, if_neg Bool.false_ne_true]
      exact (Moves.check hdeep hreport).journey.trans (Moves.list hexpand hlog).journey

/-- A run is a journey. At its end all that was checked is told, but for the next item if the run
fails when that is checked. -/
theorem journey_of_run (e : Errand) (st : WalkState) :
    ∃ items m, Journey e ⟨st, none⟩ items m ∧ checked e st <+: items ++ m.state.stack ∧
      match run e st with
      | .ok found w => m.state = ⟨[], found, w⟩
      | .error _ w => OnlyLogs m.state.world w := by
  induction st using run.induct e with
  | case1 st hturn =>
    obtain ⟨hstack⟩ := turned_of_eq hturn
    rw [run_of_done hturn, checked, popped_of_done hturn]
    refine ⟨[], ⟨st, none⟩, .here, List.nil_prefix, ?_⟩
    obtain ⟨stack, matched, w⟩ := st
    obtain rfl : stack = [] := hstack
    rfl
  | case2 st f w hturn =>
    cases turned_of_eq hturn with
    | @failed item rest _ _ hstack hstuck =>
      have hchecked : checked e st = [item] := by
        rw [checked, popped_of_failed hturn, hstack]
        simp [hstuck.not_deep]
      rw [run_of_failed hturn, hchecked]
      obtain ⟨stack, matched, v⟩ := st
      obtain rfl : stack = item :: rest := hstack
      cases hstuck with
      | check _ hverdict => exact ⟨[], _, .here, by simp, .refl _⟩
      | write _ hverdict hprint hroom => exact ⟨[], _, .here, by simp, .refl _⟩
      | expand hdeep hverdict hreport hfail hlog =>
        exact ⟨[item], _, (Moves.check hdeep hreport).journey, by simp, hlog⟩
  | case3 st st' hturn ih =>
    cases turned_of_eq hturn with
    | next hstack hstep hbelow hmatched =>
      obtain ⟨items, m, hjourney, hchecked, hend⟩ := ih
      rw [run_of_next hturn, checked_of_next hturn hstack]
      refine ⟨_, m, (journey_of_next hturn hstack).trans hjourney, ?_, hend⟩
      rwa [List.append_assoc, List.prefix_append_right_inj]

/-- The walk of a root is a journey from its start. -/
theorem journey_of_walk {top : Location}
    (hroot : w.files.locate e.setting.cwd false e.root = .ok top) :
    ∃ items m, Journey e (departure e (w.files.nodeAt top).body.kind w) items m ∧
      checked e (start e w top) <+: items ++ m.state.stack ∧
      match walk e w with
      | .ok found w' => m.state = ⟨[], found, w'⟩
      | .error _ w' => OnlyLogs m.state.world w' := by
  rw [walk_eq_run hroot]
  exact journey_of_run e (start e w top)

/-! ### What is told on a journey -/

/-- What a journey from the start of a walk keeps. -/
structure Faithful (e : Errand) (w : World) (items : List Item) (m : Moment) : Prop where
  opened : ∀ item, m.opened = some item → ∃ before, items = before ++ [item]
  matched : m.state.matched.Sublist (items.map Item.entry)
  written : m.state.world.written =
    w.written ++ if e.query.print then m.state.matched.map lineOf else []

theorem Faithful.move (h : Faithful e w items m) (hmove : Moves e m more m') :
    Faithful e w (items ++ more) m' := by
  cases hmove with
  | change files =>
    rw [List.append_nil]
    exact ⟨h.opened, h.matched, h.written⟩
  | drop hdeep hlog =>
    rw [List.append_nil]
    exact ⟨nofun, h.matched, hlog.written.trans h.written⟩
  | list hexpand hlog =>
    rw [List.append_nil]
    exact ⟨nofun, h.matched, hlog.written.trans h.written⟩
  | @check item rest matched found v v' hdeep hreport =>
    refine ⟨?_, ?_, ?_⟩
    · rintro _ ⟨⟩
      exact ⟨items, rfl⟩
    · rw [List.map_append]
      cases found with
      | false => exact h.matched.trans (List.sublist_append_left _ _)
      | true => exact h.matched.append (.refl _)
    · rw [hreport.written, h.written, List.append_assoc]
      cases found <;> cases e.query.print <;> simp [addMatch]

theorem Journey.faithful (h : Journey e (departure e kind w) items m) : Faithful e w items m := by
  induction h with
  | here => exact ⟨nofun, .slnil, by simp [departure]⟩
  | go _ hmove ih => exact ih.move hmove

end FileSearch.Walk
