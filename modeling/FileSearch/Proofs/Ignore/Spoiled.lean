import FileSearch.Ignore.File
import FileSearch.Proofs.Search.Faults

/-!
Ignore files that cannot be compiled: they are not UTF-8, or the compiler refuses their lines.
Main statements: reading the ignore file of a root fails if and only if the file system refuses to
read it, other than because it is not there, or its bytes cannot be compiled; and the bytes for
which the fault is not reported are those of the two kinds.
-/

namespace FileSearch.IgnoreFile

variable {compiler : IgnoreCompiler} {bytes : List UInt8} {files : FileSystem} {cwd : Location}
  {root : Text} {f : Fault}

/-- The bytes cannot be compiled, and with which fault, if it is not reported. -/
inductive Spoils (compiler : IgnoreCompiler) (bytes : List UInt8) : Fault → Prop
  | undecodable (hbytes : decodeUtf8 bytes = none) : Spoils compiler bytes .undecodable
  | lines {text : Text} {f : Fault} (hbytes : decodeUtf8 bytes = some text)
      (hlines : compiler (textLines text) = .error f) (hreported : f.isReported = false) :
      Spoils compiler bytes f

/-- The fault does not mean that there is no ignore file. -/
def IsSerious (f : Fault) : Prop :=
  ∀ path, f ≠ .system .noEntry path ∧ f ≠ .system .notDirectory path

theorem isSerious_of_not_reported (h : f.isReported = false) : IsSerious f := by
  intro path
  constructor
  · rintro rfl
    cases h
  · rintro rfl
    cases h

theorem spoils_iff :
    Spoils compiler bytes f ↔ ofBytes compiler bytes = .error f ∧ f.isReported = false := by
  unfold ofBytes
  constructor
  · rintro (hbytes | ⟨hbytes, hlines, hreported⟩)
    · rw [hbytes]
      exact ⟨rfl, rfl⟩
    · rw [hbytes]
      exact ⟨hlines, hreported⟩
  · rintro ⟨hfails, hreported⟩
    cases hbytes : decodeUtf8 bytes with
    | none =>
      rw [hbytes] at hfails
      cases hfails
      exact .undecodable hbytes
    | some text =>
      rw [hbytes] at hfails
      exact .lines hbytes hfails hreported

theorem ofRoot?_eq_error_iff :
    ofRoot? compiler files cwd root = .error f ↔ IsSerious f ∧
      (files.read cwd (joinPath root fileName) = .error f ∨
        ∃ bytes, files.read cwd (joinPath root fileName) = .ok bytes ∧
          ofBytes compiler bytes = .error f) := by
  have hbind : files.read cwd (joinPath root fileName) >>= ofBytes compiler = .error f ↔
      (files.read cwd (joinPath root fileName) = .error f ∨
        ∃ bytes, files.read cwd (joinPath root fileName) = .ok bytes ∧
          ofBytes compiler bytes = .error f) := by
    cases files.read cwd (joinPath root fileName) <;> simp [bind, Except.bind]
  rw [← hbind, ofRoot?]
  split
  · rename_i path hmissing
    simp only [reduceCtorEq, false_iff, not_and]
    rintro hserious hf
    rw [hmissing] at hf
    exact (hserious path).1 (Except.error.inj hf).symm
  · rename_i path hmissing
    simp only [reduceCtorEq, false_iff, not_and]
    rintro hserious hf
    rw [hmissing] at hf
    exact (hserious path).2 (Except.error.inj hf).symm
  · rename_i g hentry hdirectory hfails
    rw [hfails]
    simp only [Except.error.injEq]
    refine ⟨?_, And.right⟩
    rintro rfl
    refine ⟨fun path => ⟨?_, ?_⟩, rfl⟩
    · rintro rfl
      exact hentry path rfl
    · rintro rfl
      exact hdirectory path rfl
  · rename_i ignores hok
    rw [hok]
    simp

end FileSearch.IgnoreFile
