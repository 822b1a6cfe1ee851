import FileSearch.FileSystem.Change
import FileSearch.Proofs.Walk.Listing

/-!
The walk against the recursive listing, on a file system that nobody else changes. The stack holds
places whose branches are still to come, so that the items that were checked and the branches of the
stack together are the listing at any time.
Main statements: a walk ends normally if and only if no request fails on the listing and there is
room for the lines, and then it checks the listing and nothing else, in the same order. A walk that
fails has checked the listing up to the item where it fails, and written the lines up to there.
-/

namespace FileSearch

/-- Nobody else changes the file system. -/
def Setting.Quiet (s : Setting) : Prop := ∀ index text files, s.others index text files = files

/-! ### Room for lines -/

/-- The lines have bytes and can all be written. -/
structure Fits (s : Setting) (w : World) (lines : List Text) : Prop where
  encoded : ∀ line ∈ lines, s.output.encodes line = true
  room : lines ≠ [] → ∀ n, s.capacity = some n → w.written.length + lines.length ≤ n

section Fits

variable {s : Setting} {w v : World} {line : Text} {lines more fewer : List Text}

theorem Search.refusal?_eq_none_iff {count : Nat} :
    Search.refusal? s count line = none ↔
      s.output.encodes line = true ∧ ∀ n, s.capacity = some n → count < n := by
  unfold Search.refusal?
  cases s.output.encodes line with
  | false => simp
  | true => cases s.capacity <;> simp

theorem fits_nil : Fits s w [] := ⟨List.forall_mem_nil _, fun h => absurd rfl h⟩

/-- Whether lines fit depends on what is written so far. -/
theorem fits_congr (hv : v.written = w.written) : Fits s v lines ↔ Fits s w lines :=
  ⟨fun h => ⟨h.encoded, hv ▸ h.room⟩, fun h => ⟨h.encoded, hv ▸ h.room⟩⟩

theorem fits_singleton :
    Fits s w [line] ↔ Search.refusal? s w.written.length line = none := by
  rw [Search.refusal?_eq_none_iff]
  constructor
  · rintro ⟨hencoded, hroom⟩
    exact ⟨hencoded line List.mem_cons_self, fun n hn => hroom (by simp) n hn⟩
  · rintro ⟨hencoded, hroom⟩
    exact ⟨List.forall_mem_singleton.2 hencoded, fun _ n hn => hroom n hn⟩

/-- Lines fit one after the other if they fit together. -/
theorem fits_append (hv : v.written = w.written ++ lines) :
    Fits s w (lines ++ more) ↔ Fits s w lines ∧ Fits s v more := by
  have hlength : v.written.length = w.written.length + lines.length := by
    rw [hv, List.length_append]
  constructor
  · rintro ⟨hencoded, hroom⟩
    obtain ⟨hfirst, hsecond⟩ := List.forall_mem_append.1 hencoded
    refine ⟨⟨hfirst, fun hlines n hn => ?_⟩, hsecond, fun hmore n hn => ?_⟩
    · have := hroom (by simp [hlines]) n hn
      rw [List.length_append] at this
      omega
    · have := hroom (by simp [hmore]) n hn
      rw [List.length_append] at this
      omega
  · rintro ⟨⟨hfirst, hlines⟩, hsecond, hmore⟩
    refine ⟨List.forall_mem_append.2 ⟨hfirst, hsecond⟩, fun hne n hn => ?_⟩
    rw [List.length_append]
    by_cases hnil : more = []
    · subst hnil
      exact hlines (by simpa using hne) n hn
    · have := hmore hnil n hn
      omega

theorem Fits.left (h : Fits s w (lines ++ more)) : Fits s w lines :=
  ((fits_append (v := { w with written := w.written ++ lines }) rfl).1 h).1

theorem Fits.right (hv : v.written = w.written ++ lines) (h : Fits s w (lines ++ more)) :
    Fits s v more :=
  ((fits_append hv).1 h).2

/-- A part of the lines fits as well. -/
theorem Fits.of_sublist (h : Fits s w lines) (hsub : fewer.Sublist lines) : Fits s w fewer := by
  refine ⟨fun line hline => h.encoded line (hsub.subset hline), fun hne n hn => ?_⟩
  have hlines : lines ≠ [] := by
    rintro rfl
    exact hne (List.sublist_nil.1 hsub)
  exact (Nat.add_le_add_left hsub.length_le _).trans (h.room hlines n hn)

/-- Whether lines fit does not depend on their order. -/
theorem fits_comm : Fits s w (lines ++ more) ↔ Fits s w (more ++ lines) := by
  have hswap (as bs : List Text) (h : Fits s w (as ++ bs)) : Fits s w (bs ++ as) := by
    obtain ⟨hencoded, hroom⟩ := h
    refine ⟨fun line hline => hencoded line ?_, fun hne n hn => ?_⟩
    · rw [List.mem_append] at hline ⊢
      exact hline.symm
    · rw [List.length_append, Nat.add_comm bs.length, ← List.length_append]
      refine hroom ?_ n hn
      rintro hnil
      obtain ⟨rfl, rfl⟩ := List.append_eq_nil_iff.1 hnil
      exact hne rfl
  exact ⟨hswap lines more, hswap more lines⟩

end Fits

namespace Walk

variable {e : Errand} {fs : FileSystem} {top : Location} {names : List Name}
  {todo rest : List (List Name)} {st st' : WalkState} {item : Item} {found : Bool}
  {below : List Item} {w v : World}

/-- The query has an answer for the item, and its directory can be listed and put to the filter. -/
structure Answers (e : Errand) (fs : FileSystem) (item : Item) : Prop where
  verdict : ∃ found, verdict e fs item = .ok found
  below : ∃ below, Expands e fs item below

/-- Whether the query answers and holds for the item. -/
def isFound (e : Errand) (fs : FileSystem) (item : Item) : Bool :=
  match verdict e fs item with
  | .ok found => found
  | .error _ => false

/-- The lines of those items for which the query holds. -/
def linesOf (e : Errand) (fs : FileSystem) (items : List Item) : List Text :=
  if e.query.print then (items.filter (isFound e fs)).map fun i => lineOf i.entry else []

/-- The lines of the entries that matched. -/
def printed (q : Query) (found : List Entry) : List Text :=
  if q.print then found.map lineOf else []

theorem isFound_eq (h : verdict e fs item = .ok found) : isFound e fs item = found := by
  rw [isFound, h]

theorem linesOf_cons (h : verdict e fs item = .ok found) (items : List Item) :
    linesOf e fs (item :: items) =
      (if found && e.query.print then [lineOf item.entry] else []) ++ linesOf e fs items := by
  rw [linesOf, linesOf, List.filter_cons, isFound_eq h]
  cases found <;> cases e.query.print <;> rfl

theorem printed_append (q : Query) (entries more : List Entry) :
    printed q (entries ++ more) = printed q entries ++ printed q more := by
  unfold printed
  split
  · rw [List.map_append]
  · rfl

theorem linesOf_eq (items : List Item) :
    linesOf e fs items = printed e.query ((items.filter (isFound e fs)).map Item.entry) := by
  rw [linesOf, printed, List.map_map]
  rfl

theorem linesOf_append (items more : List Item) :
    linesOf e fs (items ++ more) = linesOf e fs items ++ linesOf e fs more := by
  simp only [linesOf_eq, List.filter_append, List.map_append, printed_append]

theorem Reports.files (hquiet : e.setting.Quiet) (h : Reports e item w found v) :
    v.files = w.files := by
  cases h with
  | line => exact hquiet _ _ _
  | silent => rfl

/-- What is reported fits, so that only the lines after it matter. -/
theorem Reports.room (h : Reports e item w found v) (lines : List Text) :
    Fits e.setting w ((if found && e.query.print then [lineOf item.entry] else []) ++ lines) ↔
      Fits e.setting v lines := by
  rw [fits_append h.written]
  cases h with
  | silent hprint =>
    rw [hprint]
    exact and_iff_right fits_nil
  | line hprint hroom =>
    rw [hprint]
    exact and_iff_right (fits_singleton.2 hroom)

/-! ### The item where a walk fails -/

/-- A fault at an item whose turn comes after the text is written, and the entries that match there
all the same. If the line of the item is refused, it does not count; if its directory cannot be
listed, it does. -/
inductive FailsAt (e : Errand) (fs : FileSystem) (written : List Text) (item : Item) :
    Fault → List Entry → Prop
  | check {f : Fault} (hverdict : verdict e fs item = .error f) : FailsAt e fs written item f []
  | write {f : Fault} (hverdict : verdict e fs item = .ok true) (hprint : e.query.print = true)
      (hrefusal : Search.refusal? e.setting written.length (lineOf item.entry) = some f) :
      FailsAt e fs written item f []
  | expand {f : Fault} {found : Bool} (hverdict : verdict e fs item = .ok found)
      (hroom : (found && e.query.print) = true →
        Search.refusal? e.setting written.length (lineOf item.entry) = none)
      (hfail : ExpandFails e fs item f) : FailsAt e fs written item f (addMatch [] found item)

/-- A turn that fails leaves the files alone and has written what counts. -/
theorem Stuck.failsAt (hquiet : e.setting.Quiet) {f : Fault} (h : Stuck e item w f v) :
    ∃ last, FailsAt e w.files w.written item f last ∧ v.files = w.files ∧
      v.written = w.written ++ printed e.query last := by
  cases h with
  | check _ hverdict =>
    exact ⟨[], .check hverdict, rfl, by simp [printed]⟩
  | write _ hverdict hprint hrefusal =>
    exact ⟨[], .write hverdict hprint hrefusal, rfl, by simp [printed]⟩
  | @expand found u _ _ hverdict hreport hfail hlog =>
    have hfiles := hreport.files hquiet
    rw [hfiles] at hfail
    refine ⟨_, .expand hverdict hreport.room_of_print hfail, hlog.files.trans hfiles, ?_⟩
    rw [hlog.written, hreport.written, printed]
    cases found <;> cases e.query.print <;> rfl

/-- Where a walk fails, some request fails or there is no room for the line. -/
theorem FailsAt.not_answers_and_room {f : Fault} {last : List Entry} {earlier later : List Item}
    (h : FailsAt e fs (w.written ++ linesOf e fs earlier) item f last) :
    ¬ ((∀ i ∈ earlier ++ item :: later, Answers e fs i) ∧
      Fits e.setting w (linesOf e fs (earlier ++ item :: later))) := by
  rintro ⟨hall, hroom⟩
  obtain ⟨⟨b, hb⟩, below, hbelow⟩ := hall item (List.mem_append_right _ List.mem_cons_self)
  cases h with
  | check hverdict =>
    rw [hb] at hverdict
    cases hverdict
  | write hverdict hprint hrefusal =>
    rw [linesOf_append, linesOf_cons hverdict, hprint] at hroom
    let v : World := { w with written := w.written ++ linesOf e fs earlier }
    have hline : Search.refusal? e.setting v.written.length (lineOf item.entry) = none :=
      fits_singleton.1 (hroom.right rfl).left
    rw [hline] at hrefusal
    cases hrefusal
  | expand _ _ hfail => exact hfail.not_expands hbelow

/-! ### Branches that are still to come -/

/-- The stack holds the items of places that are scheduled, and nothing was changed. -/
structure Pending (e : Errand) (fs : FileSystem) (top : Location) (st : WalkState)
    (todo : List (List Name)) : Prop where
  stack : st.stack = todo.map (treeItem e fs top)
  scheduled : ∀ names ∈ todo, Scheduled e fs top names
  files : st.world.files = fs

/-- The items of the branches. -/
def itemsOf (e : Errand) (fs : FileSystem) (top : Location) (todo : List (List Name)) : List Item :=
  (todo.flatMap (branch e fs top)).map (treeItem e fs top)

theorem Pending.cons_inv (h : Pending e fs top st todo) {stack : List Item}
    (hstack : st.stack = item :: stack) :
    ∃ names rest, todo = names :: rest ∧ item = treeItem e fs top names ∧
      stack = rest.map (treeItem e fs top) := by
  have hmap := h.stack.symm.trans hstack
  obtain ⟨names, rest, rfl, rfl, rfl⟩ := List.map_eq_cons_iff.1 hmap
  exact ⟨names, rest, rfl, rfl, rfl⟩

theorem itemsOf_of_deep (hdeep : tooDeep e.query (treeItem e fs top names) = true) :
    itemsOf e fs top (names :: rest) = itemsOf e fs top rest := by
  rw [itemsOf, List.flatMap_cons, branch_of_deep hdeep]
  rfl

/-- The branch of a place is the place and the branches of its children. -/
theorem itemsOf_of_not_deep (hdeep : tooDeep e.query (treeItem e fs top names) = false)
    (h : Scheduled e fs top names) :
    itemsOf e fs top (names :: rest) =
      treeItem e fs top names :: itemsOf e fs top (kids e fs top names ++ rest) := by
  rw [itemsOf, List.flatMap_cons, branch_eq hdeep h.allowed, itemsOf, List.flatMap_append]
  rfl

/-- A turn takes the place on the top and leaves its children there. -/
theorem Pending.of_expands (hroot : e.root ≠ []) (h : Pending e fs top st (names :: rest))
    (hexp : Expands e fs (treeItem e fs top names) below)
    (hstack : st'.stack = below ++ rest.map (treeItem e fs top)) (hfiles : st'.world.files = fs) :
    Pending e fs top st' (kids e fs top names ++ rest) := by
  obtain ⟨rfl, hkids⟩ := below_of_expands hroot (h.scheduled names List.mem_cons_self) hexp
  refine ⟨by rw [hstack, List.map_append], fun k hk => ?_, hfiles⟩
  rcases List.mem_append.1 hk with hk | hk
  · exact hkids k hk
  · exact h.scheduled k (List.mem_cons_of_mem _ hk)

theorem Pending.of_deep (h : Pending e fs top st (names :: rest))
    (hstack : st'.stack = rest.map (treeItem e fs top)) (hfiles : st'.world.files = fs) :
    Pending e fs top st' rest :=
  ⟨hstack, fun k hk => h.scheduled k (List.mem_cons_of_mem _ hk), hfiles⟩

/-- What a turn makes of the places on the stack: the first one is dropped, or it is checked and its
children take its place. -/
inductive Advances (e : Errand) (fs : FileSystem) (top : Location) (st st' : WalkState) :
    List (List Name) → Prop
  | deep {names : List Name} {rest : List (List Name)}
      (hdeep : tooDeep e.query (treeItem e fs top names) = true)
      (hlog : OnlyLogs st.world st'.world) (hmatched : st'.matched = st.matched)
      (hpending : Pending e fs top st' rest) : Advances e fs top st st' (names :: rest)
  | checked {names : List Name} {rest : List (List Name)} {found : Bool} {below : List Item}
      {v : World} (hdeep : tooDeep e.query (treeItem e fs top names) = false)
      (hverdict : verdict e fs (treeItem e fs top names) = .ok found)
      (hreport : Reports e (treeItem e fs top names) st.world found v)
      (hexpand : Expands e fs (treeItem e fs top names) below) (hlog : OnlyLogs v st'.world)
      (hmatched : st'.matched = addMatch st.matched found (treeItem e fs top names))
      (hpending : Pending e fs top st' (kids e fs top names ++ rest)) :
      Advances e fs top st st' (names :: rest)

theorem Pending.eq_nil_of_done (h : Pending e fs top st todo) (hturn : turn e st = .done) :
    todo = [] := by
  obtain ⟨hstack⟩ := turned_of_eq hturn
  exact List.map_eq_nil_iff.1 (h.stack.symm.trans hstack)

/-- After a turn that succeeds there are places on the stack again. -/
theorem Pending.advances (hroot : e.root ≠ []) (hquiet : e.setting.Quiet)
    (h : Pending e fs top st todo) (hturn : turn e st = .next st') :
    Advances e fs top st st' todo := by
  cases turned_of_eq hturn with
  | next hstack hstep hbelow hmatched =>
    obtain ⟨names, rest, rfl, rfl, rfl⟩ := h.cons_inv hstack
    cases hstep with
    | deep hdeep hlog =>
      exact .deep hdeep hlog hmatched (h.of_deep hbelow (hlog.files.trans h.files))
    | checked hdeep hverdict hreport hexpand hlog =>
      have hfiles := hreport.files hquiet
      rw [h.files] at hverdict
      rw [hfiles, h.files] at hexpand
      exact .checked hdeep hverdict hreport hexpand hlog hmatched
        (h.of_expands hroot hexpand hbelow (by rw [hlog.files, hfiles, h.files]))

/-! ### Whole runs -/

/-- What a run comes to that has the items before it. -/
structure Finished (e : Errand) (fs : FileSystem) (st : WalkState) (items : List Item)
    (found : List Entry) (w : World) : Prop where
  answers : ∀ i ∈ items, Answers e fs i
  room : Fits e.setting st.world (linesOf e fs items)
  checked : checked e st = items
  found : found = st.matched ++ (items.filter (isFound e fs)).map Item.entry
  files : w.files = fs
  written : w.written = st.world.written ++ linesOf e fs items

/-- What a run comes to that fails at an item, with the items that it has dealt with before. -/
structure Broken (e : Errand) (fs : FileSystem) (st : WalkState) (earlier : List Item) (item : Item)
    (last : List Entry) (f : Fault) (w : World) : Prop where
  answers : ∀ i ∈ earlier, Answers e fs i
  room : Fits e.setting st.world (linesOf e fs earlier)
  fails : FailsAt e fs (st.world.written ++ linesOf e fs earlier) item f last
  checked : checked e st = earlier ++ [item]
  files : w.files = fs
  written : w.written = st.world.written ++ linesOf e fs earlier ++ printed e.query last

/-- A turn that drops its item changes nothing that is told of a run. -/
theorem Finished.of_deep {items : List Item} {entries : List Entry}
    (h : Finished e fs st' items entries w)
    (hchecked : Walk.checked e st = Walk.checked e st') (hmatched : st'.matched = st.matched)
    (hlog : OnlyLogs st.world st'.world) : Finished e fs st items entries w where
  answers := h.answers
  room := (fits_congr hlog.written).1 h.room
  checked := hchecked.trans h.checked
  found := by rw [h.found, hmatched]
  files := h.files
  written := by rw [h.written, hlog.written]

/-- A turn that checks its item puts it before what the rest of the run comes to. -/
theorem Finished.of_checked {items : List Item} {entries : List Entry}
    (h : Finished e fs st' items entries w) (hitem : Answers e fs item)
    (hchecked : Walk.checked e st = item :: Walk.checked e st')
    (hmatched : st'.matched = addMatch st.matched found item)
    (hverdict : Walk.verdict e fs item = .ok found) (hreport : Reports e item st.world found v)
    (hlog : OnlyLogs v st'.world) : Finished e fs st (item :: items) entries w where
  answers := List.forall_mem_cons.2 ⟨hitem, h.answers⟩
  room := by
    rw [linesOf_cons hverdict, hreport.room]
    exact (fits_congr hlog.written).1 h.room
  checked := by rw [hchecked, h.checked]
  found := by
    rw [h.found, hmatched, List.filter_cons, isFound_eq hverdict]
    cases found <;> simp [addMatch]
  files := h.files
  written := by
    rw [h.written, hlog.written, hreport.written, linesOf_cons hverdict, List.append_assoc]

theorem Broken.of_deep {earlier : List Item} {last : List Entry} {f : Fault}
    (h : Broken e fs st' earlier item last f w) (hchecked : Walk.checked e st = Walk.checked e st')
    (hlog : OnlyLogs st.world st'.world) : Broken e fs st earlier item last f w where
  answers := h.answers
  room := (fits_congr hlog.written).1 h.room
  fails := hlog.written ▸ h.fails
  checked := hchecked.trans h.checked
  files := h.files
  written := by rw [h.written, hlog.written]

theorem Broken.of_checked {earlier : List Item} {first : Item} {last : List Entry} {f : Fault}
    (h : Broken e fs st' earlier item last f w) (hfirst : Answers e fs first)
    (hchecked : Walk.checked e st = first :: Walk.checked e st')
    (hverdict : Walk.verdict e fs first = .ok found) (hreport : Reports e first st.world found v)
    (hlog : OnlyLogs v st'.world) : Broken e fs st (first :: earlier) item last f w := by
  have hwritten : st'.world.written ++ linesOf e fs earlier =
      st.world.written ++ linesOf e fs (first :: earlier) := by
    rw [hlog.written, hreport.written, linesOf_cons hverdict, List.append_assoc]
  exact {
    answers := List.forall_mem_cons.2 ⟨hfirst, h.answers⟩
    room := by
      rw [linesOf_cons hverdict, hreport.room]
      exact (fits_congr hlog.written).1 h.room
    fails := hwritten ▸ h.fails
    checked := by rw [hchecked, h.checked, List.cons_append]
    files := h.files
    written := by rw [h.written, hwritten] }

/-- A turn that fails has dealt with no item before. -/
theorem Pending.broken (hquiet : e.setting.Quiet) (h : Pending e fs top st todo) {f : Fault}
    (hturn : turn e st = .failed f w) :
    ∃ item later last, itemsOf e fs top todo = item :: later ∧
      Broken e fs st [] item last f w := by
  cases turned_of_eq hturn with
  | @failed item _ _ _ hstack hstuck =>
    have hchecked : checked e st = [] ++ [item] := by
      rw [checked, popped_of_failed hturn, hstack]
      simp [hstuck.not_deep]
    obtain ⟨names, rest, rfl, rfl, -⟩ := h.cons_inv hstack
    obtain ⟨last, hfails, hfiles, hwritten⟩ := hstuck.failsAt hquiet
    have hlines : linesOf e fs [] = [] := by simp [linesOf]
    rw [h.files] at hfails hfiles
    exact ⟨_, _, last,
      itemsOf_of_not_deep hstuck.not_deep (h.scheduled _ List.mem_cons_self),
      List.forall_mem_nil _, hlines ▸ fits_nil, by simpa [hlines], hchecked, hfiles,
      by simpa [hlines]⟩

/-- A run deals with the branches on the stack, all of them or up to an item where it fails. -/
theorem run_pending (hroot : e.root ≠ []) (hquiet : e.setting.Quiet)
    (h : Pending e fs top st todo) :
    match run e st with
    | .ok found w => Finished e fs st (itemsOf e fs top todo) found w
    | .error f w => ∃ earlier item later last,
        itemsOf e fs top todo = earlier ++ item :: later ∧
          Broken e fs st earlier item last f w := by
  induction st using run.induct e generalizing todo with
  | case1 st hturn =>
    obtain rfl := h.eq_nil_of_done hturn
    rw [run_of_done hturn]
    have hlines : linesOf e fs [] = [] := by simp [linesOf]
    have hchecked : checked e st = [] := by simp [checked, popped_of_done hturn]
    exact ⟨List.forall_mem_nil _, by simp [itemsOf, hlines, fits_nil], hchecked,
      by simp [itemsOf], h.files, by simp [itemsOf, hlines]⟩
  | case2 st f w hturn =>
    rw [run_of_failed hturn]
    obtain ⟨item, later, last, hitems, hbroken⟩ := h.broken hquiet hturn
    exact ⟨[], item, later, last, hitems, hbroken⟩
  | case3 st st' hturn ih =>
    rw [run_of_next hturn]
    have hadvances := h.advances hroot hquiet hturn
    cases hadvances with
    | deep hdeep hlog hmatched hpending =>
      have hnext := ih hpending
      have hchecked := checked_of_next hturn h.stack
      rw [hdeep, if_pos rfl, List.nil_append] at hchecked
      rw [itemsOf_of_deep hdeep]
      cases hrun : run e st' with
      | ok entries w =>
        rw [hrun] at hnext
        exact hnext.of_deep hchecked hmatched hlog
      | error f w =>
        rw [hrun] at hnext
        obtain ⟨earlier, item, later, last, hitems, hbroken⟩ := hnext
        exact ⟨earlier, item, later, last, hitems, hbroken.of_deep hchecked hlog⟩
    | checked hdeep hverdict hreport hexpand hlog hmatched hpending =>
      have hnext := ih hpending
      have hchecked := checked_of_next hturn h.stack
      rw [hdeep, if_neg Bool.false_ne_true, List.singleton_append] at hchecked
      rw [itemsOf_of_not_deep hdeep (h.scheduled _ List.mem_cons_self)]
      cases hrun : run e st' with
      | ok entries w =>
        rw [hrun] at hnext
        exact hnext.of_checked ⟨⟨_, hverdict⟩, _, hexpand⟩ hchecked hmatched hverdict hreport hlog
      | error f w =>
        rw [hrun] at hnext
        obtain ⟨earlier, item, later, last, hitems, hbroken⟩ := hnext
        exact ⟨_ :: earlier, item, later, last, by rw [hitems, List.cons_append],
          hbroken.of_checked ⟨⟨_, hverdict⟩, _, hexpand⟩ hchecked hverdict hreport hlog⟩

/-! ### Walks of a root -/

theorem pending_start (hroot : w.files.locate e.setting.cwd false e.root = .ok top) :
    Pending e w.files top (start e w top) [[]] := by
  refine ⟨rfl, fun names hnames => ?_, rfl⟩
  obtain rfl := List.mem_singleton.1 hnames
  exact ⟨fun _ => by simpa using hroot, isAllowed_nil⟩

/-- A walk that fails has dealt with the listing up to an item. -/
theorem walk_broken (hquiet : e.setting.Quiet)
    (hroot : w.files.locate e.setting.cwd false e.root = .ok top) {f : Fault}
    (h : walk e w = .error f v) :
    ∃ earlier item later last, listing e w.files top = earlier ++ item :: later ∧
      Broken e w.files (start e w top) earlier item last f v := by
  have hrun := run_pending (root_ne_nil hroot) hquiet (pending_start hroot)
  rw [walk_eq_run hroot] at h
  rwa [h, itemsOf, List.flatMap_singleton, ← listing] at hrun

/-- A walk of a root that can be looked up either finishes the listing or fails. -/
theorem walk_result (hquiet : e.setting.Quiet)
    (hroot : w.files.locate e.setting.cwd false e.root = .ok top) :
    match walk e w with
    | .ok found w' => Finished e w.files (start e w top) (listing e w.files top) found w'
    | .error _ _ => ¬ ((∀ item ∈ listing e w.files top, Answers e w.files item) ∧
        Fits e.setting w (linesOf e w.files (listing e w.files top))) := by
  cases hwalk : walk e w with
  | ok found w' =>
    have hrun := run_pending (root_ne_nil hroot) hquiet (pending_start hroot)
    rw [walk_eq_run hroot] at hwalk
    rwa [hwalk, itemsOf, List.flatMap_singleton, ← listing] at hrun
  | error f w' =>
    obtain ⟨earlier, item, later, last, hlisting, hbroken⟩ := walk_broken hquiet hroot hwalk
    rw [hlisting]
    exact hbroken.fails.not_answers_and_room

end Walk

open Walk in
/-- The walk with a stack does what the recursive listing says. It ends normally if and only if no
request fails on the listing and there is room for the lines. Then it has checked the listing, in
this order, its answer is the entries for which the query holds, and it has written their lines. -/
theorem walk_refines_listing {e : Errand} {w : World} {top : Location} (hquiet : e.setting.Quiet)
    (hroot : w.files.locate e.setting.cwd false e.root = .ok top) :
    ((∃ found w', walk e w = .ok found w') ↔
      (∀ item ∈ listing e w.files top, Answers e w.files item) ∧
        Fits e.setting w (linesOf e w.files (listing e w.files top))) ∧
    ∀ found w', walk e w = .ok found w' →
      checked e (start e w top) = listing e w.files top ∧
      found = ((listing e w.files top).filter (isFound e w.files)).map Item.entry ∧
      found.length = (listing e w.files top).countP (isFound e w.files) ∧
      w'.files = w.files ∧
      w'.written = w.written ++ linesOf e w.files (listing e w.files top) := by
  have h := walk_result hquiet hroot
  constructor
  · constructor
    · rintro ⟨found, w', hwalk⟩
      rw [hwalk] at h
      exact ⟨h.answers, h.room⟩
    · intro hgood
      cases hwalk : walk e w with
      | ok found w' => exact ⟨found, w', rfl⟩
      | error f w' =>
        rw [hwalk] at h
        exact absurd hgood h
  · intro found w' hwalk
    rw [hwalk] at h
    refine ⟨h.checked, h.found, ?_, h.files, h.written⟩
    rw [h.found, List.countP_eq_length_filter]
    simp [start]

/-! ### A small tree -/

/-- A directory with a file, a directory that holds a file, and a link to the latter. -/
def smallTree : FileSystem :=
  ChangeSite.applyAll ⟨[], ⟨0, 0⟩, none⟩ (.empty ⟨0, 0⟩)
    [.add ['r', '/', 'l'] ⟨.symlink ['a'], ⟨0, 0⟩⟩, .add ['r', '/', 'b'] ⟨.file {}, ⟨0, 0⟩⟩,
      .add ['r', '/', 'a', '/', 'x'] ⟨.file {}, ⟨0, 0⟩⟩]

/-- Walks the directory; what is called b is excluded. -/
def smallErrand : Errand where
  setting := { cwd := [], now := 0, stamp := ⟨0, 0⟩ }
  query := {}
  filter := some fun rel _ => .ok (rel == ['b'])
  root := ['r']

/-- The small tree is listed in the order of the names, without the file that is excluded, and
without what the link leads to. -/
theorem walk_refines_listing_smallTree :
    ((Walk.listing smallErrand smallTree [⟨['r'], rfl, by decide⟩]).filter
        (Walk.isFound smallErrand smallTree)).map (fun i => i.entry.path) =
      [['r'], ['r', '/', 'a'], ['r', '/', 'a', '/', 'x'], ['r', '/', 'l']] := by
  have hroot : smallTree.locate [] false ['r'] = .ok [⟨['r'], rfl, by decide⟩] := rfl
  have hwalk : ∃ found w', walk smallErrand ⟨smallTree, [], []⟩ = .ok found w' ∧
      found.map Entry.path =
        [['r'], ['r', '/', 'a'], ['r', '/', 'a', '/', 'x'], ['r', '/', 'l']] := by
    rw [Walk.walk_eq_run (e := smallErrand) hroot, Walk.run_of_turns_done (n := 4) rfl rfl]
    exact ⟨_, _, rfl, rfl⟩
  obtain ⟨found, w', hwalk, hpaths⟩ := hwalk
  have h := walk_refines_listing (e := smallErrand) (w := ⟨smallTree, [], []⟩)
    (fun _ _ _ => rfl) hroot
  rw [(h.2 found w' hwalk).2.1, List.map_map] at hpaths
  exact hpaths

end FileSearch
