import FileSearch.Proofs.CommandLine.Cut
import FileSearch.Proofs.Ignore.Spoiled

/-!
How the command line ends. A search that ends normally and a reader that has gone end it well, and
what is wrong with the expression or refused by the file system is reported.
Main statement: with no NUL in its arguments, the command line ends with a status of its own, unless
an ignore file cannot be compiled or a path or a line has no bytes; these are the faults it does not
report.
-/

namespace FileSearch

open IgnoreFile (Spoils)

namespace CommandLine

variable {s : Setting} {options : Options} {args paths tokens : List Text} {w v : World} {n : Nat}
  {f : Fault}

/-! ### Sources of filters -/

theorem sourceAnswers_sourceOf (s : Setting) (options : Options) :
    SourceAnswers (sourceOf s options) := by
  intro files root made hmade item
  unfold sourceOf at hmade
  split at hmade
  · change IgnoreFile.source s.ignoring s.cwd files root = .ok made at hmade
    unfold IgnoreFile.source at hmade
    cases hread : IgnoreFile.ofRoot? s.ignoring files s.cwd root with
    | error f =>
      rw [hread] at hmade
      cases hmade
    | ok ignores? =>
      rw [hread] at hmade
      cases hmade
      cases ignores? with
      | none => exact ⟨false, rfl⟩
      | some ignores => exact ⟨_, rfl⟩
  · cases hmade
    exact ⟨false, rfl⟩

theorem filterOf_sourceOf_error_iff {files : FileSystem} {root : Text} :
    filterOf (sourceOf s options) files root = .error f ↔
      options.gitignore = true ∧ IgnoreFile.ofRoot? s.ignoring files s.cwd root = .error f := by
  unfold sourceOf
  cases options.gitignore with
  | false => simp [filterOf]
  | true =>
    change IgnoreFile.source s.ignoring s.cwd files root = .error f ↔ _
    unfold IgnoreFile.source
    cases IgnoreFile.ofRoot? s.ignoring files s.cwd root <;>
      simp [bind, Except.bind, pure, Except.pure]

theorem nul_not_mem_rootsOf (hnul : ∀ path ∈ paths, '\x00' ∉ path) :
    ∀ root ∈ rootsOf paths, '\x00' ∉ root := by
  unfold rootsOf
  split
  · simp
  · exact hnul

/-! ### Faults that are not reported -/

/-- A search comes to a root, once all roots before it are dealt with. -/
structure ComesTo (s : Setting) (options : Options) (paths tokens : List Text) (w : World)
    (q : Query) (root : Text) (v : World) : Prop where
  compiled : compile tokens = .ok q
  roots : ∃ before after n, rootsOf paths = before ++ root :: after ∧
    (∀ r ∈ before, s.paths.encodes r = true) ∧
    find s q (sourceOf s options) before w = .ok n v

/-- What the command line does not foresee, at a root that its search comes to: the path of the root
has no bytes, or the ignore file cannot be compiled, or the line of an entry has no bytes. -/
inductive Unforeseen (s : Setting) (options : Options) (paths tokens : List Text) (w : World) :
    Fault → Prop
  | path {q : Query} {root : Text} {v : World} (hcomes : ComesTo s options paths tokens w q root v)
      (hpath : s.paths.encodes root = false) : Unforeseen s options paths tokens w .unencodable
  | ignoreFile {q : Query} {root : Text} {v : World} {bytes : List UInt8} {f : Fault}
      (hcomes : ComesTo s options paths tokens w q root v) (hpath : s.paths.encodes root = true)
      (hgitignore : options.gitignore = true)
      (hread : v.files.read s.cwd (joinPath root IgnoreFile.fileName) = .ok bytes)
      (hspoils : Spoils s.ignoring bytes f) : Unforeseen s options paths tokens w f
  | line {q : Query} {root : Text} {v : World} (hcomes : ComesTo s options paths tokens w q root v)
      (hpath : s.paths.encodes root = true)
      (hline : HasUnwritable s q (sourceOf s options) root v) :
      Unforeseen s options paths tokens w .unencodable

theorem Unforeseen.not_reported (h : Unforeseen s options paths tokens w f) :
    f.isReported = false := by
  cases h with
  | path => rfl
  | ignoreFile _ _ _ _ hspoils => exact (IgnoreFile.spoils_iff.1 hspoils).2
  | line => rfl

/-- What is not foreseen ends the search. -/
theorem Unforeseen.search_eq (h : Unforeseen s options paths tokens w f) :
    ∃ v, search s options paths tokens w = .error f v := by
  cases h with
  | @path q root v hcomes hpath =>
    obtain ⟨hcompile, before, after, n, hroots, hbefore, hfind⟩ := hcomes
    rw [search_of_compile hcompile, hroots, searchRoots_of_unencodable hbefore hpath]
    exact ⟨v, Search.bind_ok hfind⟩
  | @ignoreFile q root v bytes _ hcomes hpath hgitignore hread hspoils =>
    obtain ⟨hcompile, before, after, n, hroots, hbefore, hfind⟩ := hcomes
    obtain ⟨hfails, hreported⟩ := IgnoreFile.spoils_iff.1 hspoils
    have hrules : IgnoreFile.ofRoot? s.ignoring v.files s.cwd root = .error f :=
      IgnoreFile.ofRoot?_eq_error_iff.2
        ⟨IgnoreFile.isSerious_of_not_reported hreported, .inr ⟨bytes, hread, hfails⟩⟩
    have hfilter : filterFor (sourceOf s options) root v = .error f v :=
      filterFor_of_error (filterOf_sourceOf_error_iff.2 ⟨hgitignore, hrules⟩)
    rw [search_of_compile hcompile, hroots]
    exact ⟨v, searchRoots_of_findRoot_error hbefore hpath hfind (Search.bind_error hfilter)⟩
  | line hcomes hpath hline =>
    obtain ⟨hcompile, before, after, n, hroots, hbefore, hfind⟩ := hcomes
    obtain ⟨u, hfails⟩ := hline.findRoot_eq
    rw [search_of_compile hcompile, hroots]
    exact ⟨u, searchRoots_of_findRoot_error hbefore hpath hfind hfails⟩

/-- A search fails with a fault that is reported, or for a reason that is not foreseen. -/
theorem search_faults (hs : ∀ q, compile tokens = .ok q → KeepsAges s q)
    (hages : ∀ q, compile tokens = .ok q → HasAges s q w.files)
    (hnul : ∀ path ∈ paths, '\x00' ∉ path)
    (h : search s options paths tokens w = .error f v) :
    f.isReported = true ∨ Unforeseen s options paths tokens w f := by
  cases hcompile : compile tokens with
  | error reason =>
    rw [search_of_compile_error hcompile] at h
    cases h
    exact .inl rfl
  | ok q =>
    rw [search_of_compile hcompile] at h
    have hroots := nul_not_mem_rootsOf hnul
    have hsource := sourceAnswers_sourceOf s options
    rcases searchRoots_error_inv h with
      ⟨known, unknown, hsplit, hknown, hfind⟩ |
        ⟨before, root, after, n, hsplit, hbefore, hpath, hfind, rfl⟩
    · rw [hsplit] at hroots
      rcases find_faults (hs q hcompile) hsource (hages q hcompile)
          (fun r hr => hroots r (List.mem_append_left _ hr)) hfind with
        hreported | ⟨before, root, after, n, u, rfl, hbefore, hfails⟩
      · exact .inl hreported
      have hcomes : ComesTo s options paths tokens w q root u :=
        ⟨hcompile, before, after ++ unknown, n, by simpa using hsplit,
          fun r hr => hknown r (List.mem_append_left _ hr), hbefore⟩
      have hpath := hknown root (by simp)
      rcases hfails with hfilter | ⟨rfl, hline⟩
      · obtain ⟨hgitignore, hfails⟩ := filterOf_sourceOf_error_iff.1 hfilter
        obtain ⟨-, hread | ⟨bytes, hread, hbytes⟩⟩ := IgnoreFile.ofRoot?_eq_error_iff.1 hfails
        · have hnul := nul_not_mem_joinPath (hroots root (by simp))
            (by decide : '\x00' ∉ IgnoreFile.fileName)
          exact .inl (FileSystem.failsWith_read u.files s.cwd hnul f hread).isReported
        · cases hreported : f.isReported with
          | true => exact .inl rfl
          | false =>
            exact .inr (.ignoreFile hcomes hpath hgitignore hread
              (IgnoreFile.spoils_iff.2 ⟨hbytes, hreported⟩))
      · exact .inr (.line hcomes hpath hline)
    · exact .inr (.path ⟨hcompile, before, after, n, hsplit, hbefore, hfind⟩ hpath)

/-! ### Endings -/

theorem ending_afterFault_iff {errors : Text} {g : Fault} :
    (afterFault errors g w).ending = .escaped f ↔ g = f ∧ f.isReported = false := by
  unfold afterFault
  split
  · rename_i hbroken
    subst hbroken
    simp only [reduceCtorEq, false_iff, not_and]
    rintro rfl
    decide
  · split
    · rename_i hreported
      simp only [reduceCtorEq, false_iff, not_and]
      rintro rfl
      simp [hreported]
    · rename_i hreported
      simp only [Ending.escaped.injEq]
      constructor
      · rintro rfl
        exact ⟨rfl, by simpa using hreported⟩
      · exact And.left

theorem ending_reportOf_iff {r : EStateM.Result Fault World Nat} :
    (reportOf options r).ending = .escaped f ↔ (∃ v, r = .error f v) ∧ f.isReported = false := by
  cases r with
  | ok n v => simp [reportOf]
  | error g v =>
    rw [reportOf, ending_afterFault_iff]
    simp

theorem afterFault_of_reported {errors : Text} (h : f.isReported = true) :
    afterFault errors f w =
      if f = .brokenPipe then { ending := .finished 0, errors, closed := true, world := w }
      else { ending := .finished 1, errors := errors ++ errorLine f.message, world := w } := by
  simp only [afterFault, h, if_true]

end CommandLine

/-- A directory whose ignore file is not UTF-8, and a file whose name is not ASCII. -/
def foreignTree : FileSystem :=
  ChangeSite.applyAll ⟨[], ⟨0, 0⟩, none⟩ (.empty ⟨0, 0⟩)
    [.add "r/.gitignore".toList ⟨.file { bytes := [0xff] }, ⟨0, 0⟩⟩, .add ['é'] ⟨.file {}, ⟨0, 0⟩⟩]

/-- Only the characters of ASCII have bytes. -/
def asciiOnly : Encoding := ⟨fun c => c.toNat < 128, fun _ h => by simpa using h⟩

end FileSearch
