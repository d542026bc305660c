import Rexec.Environment
import Rexec.Lib.Paths

/-!
# The search path of the host

At its start the host puts `.local/bin` and `.cargo/bin` of the home directory in
front of `PATH`, each if it is a directory and not listed yet.  Every command
inherits this `PATH`.

* `augmentedPath` and `addUserBinDirsToPath` are the functions of the host.
* `Missing` says which of the candidates are added.
* `augmented_path` is the law of the function; `addUserBinDirs_idem` and
  `getenv_addUserBinDirs` say what follows for the environment of the host.
-/

namespace Rexec

open Environ Paths

/-- The directories that are to be searched first. -/
def candidates (home : Path) : List Path :=
  [push home (bytes ".local/bin"), push home (bytes ".cargo/bin")]

/-- The paths of a `PATH`, or none without one. -/
def listed (current : Option (List UInt8)) : List Path :=
  (current.map splitPaths).getD []

/-- A directory that is not listed. -/
def missing (isDir : Path → Bool) (current : List Path) (candidate : Path) : Bool :=
  isDir candidate && !current.any fun path => same path candidate

def augmentedPath (home : Path) (current : Option (List UInt8)) (isDir : Path → Bool) :
    Option (List UInt8) :=
  let current := listed current
  let additions := (candidates home).filter (missing isDir current)
  if additions = [] then none else joinPaths (additions ++ current)

def addUserBinDirsToPath (isDir : Path → Bool) (environ : Entries) : Entries :=
  match getenv (bytes "HOME") environ with
  | none => environ
  | some home =>
      match augmentedPath home (getenv (bytes "PATH") environ) isDir with
      | none => environ
      | some path => setenv (bytes "PATH") path environ

/-! ## The law of `augmented_path` -/

section Law

variable {home : Path} {current : Option (List UInt8)} {isDir : Path → Bool}

/-- A candidate is a directory, and no listed path is the same. -/
def Missing (isDir : Path → Bool) (current : List Path) (candidate : Path) : Prop :=
  isDir candidate = true ∧ ∀ path ∈ current, ¬ same path candidate = true

instance (isDir : Path → Bool) (current : List Path) :
    DecidablePred (Missing isDir current) := fun candidate =>
  inferInstanceAs (Decidable (isDir candidate = true ∧ _))

theorem missing_iff {paths : List Path} {candidate : Path} :
    missing isDir paths candidate = true ↔ Missing isDir paths candidate := by
  simp [missing, Missing]

theorem colon_mem_candidate {candidate : Path} (h : candidate ∈ candidates home) :
    colon ∈ candidate ↔ colon ∈ home := by
  have hpush : ∀ dir, dir.head? ≠ some slash → colon ∉ dir →
      (colon ∈ push home dir ↔ colon ∈ home) := by
    intro dir hrelative hcolon
    rw [mem_push hrelative (by decide)]
    simp [hcolon]
  rcases List.mem_pair.mp h with rfl | rfl
  · exact hpush _ (by decide) (by decide)
  · exact hpush _ (by decide) (by decide)

theorem colon_notin_listed {path : Path} (h : path ∈ listed current) : colon ∉ path := by
  cases current with
  | none => cases h
  | some list => exact colon_notin_splitPaths list path h

/-- The candidates that are added. -/
theorem filter_missing (paths : List Path) :
    (candidates home).filter (missing isDir paths) =
      (candidates home).filter (Missing isDir paths) :=
  List.filter_congr fun candidate _ => by
    rw [Bool.eq_iff_iff, missing_iff, decide_eq_true_eq]

theorem augmentedPath_eq_none_iff :
    augmentedPath home current isDir = none ↔
      (∀ candidate ∈ candidates home, ¬ Missing isDir (listed current) candidate) ∨
        colon ∈ home := by
  simp only [augmentedPath]
  rw [filter_missing]
  split
  · rename_i hnone
    rw [List.filter_eq_nil_iff] at hnone
    simpa using Or.inl hnone
  · rename_i hsome
    rw [joinPaths_eq_none_iff]
    have hadded : ∃ candidate ∈ candidates home, Missing isDir (listed current) candidate := by
      rw [List.filter_eq_nil_iff] at hsome
      push Not at hsome
      simpa using hsome
    constructor
    · rintro ⟨path, hpath, hcolon⟩
      rcases List.mem_append.mp hpath with hpath | hpath
      · exact .inr ((colon_mem_candidate (List.mem_filter.mp hpath).1).mp hcolon)
      · exact absurd hcolon (colon_notin_listed hpath)
    · rintro (hall | hcolon)
      · obtain ⟨candidate, hmem, hmissing⟩ := hadded
        exact absurd hmissing (hall candidate hmem)
      · obtain ⟨candidate, hmem, hmissing⟩ := hadded
        refine ⟨candidate, ?_, (colon_mem_candidate hmem).mpr hcolon⟩
        simp [hmem, hmissing]

/-- The new `PATH` lists the missing candidates, and then what was listed. -/
theorem listed_augmentedPath {path : List UInt8}
    (h : augmentedPath home current isDir = some path) :
    listed (some path) =
      (candidates home).filter (Missing isDir (listed current)) ++ listed current := by
  simp only [augmentedPath] at h
  rw [filter_missing] at h
  split at h
  · cases h
  · rename_i hsome
    exact splitPaths_of_join (by simp [hsome]) h

/-- What is listed now is not missing any more. -/
theorem augmentedPath_again {path : List UInt8}
    (h : augmentedPath home current isDir = some path) :
    augmentedPath home (some path) isDir = none := by
  rw [augmentedPath_eq_none_iff, listed_augmentedPath h]
  refine .inl ?_
  rintro candidate hmem ⟨hdir, hnew⟩
  have hold : Missing isDir (listed current) candidate :=
    ⟨hdir, fun path hpath => hnew path (List.mem_append_right _ hpath)⟩
  have hadded : candidate ∈ (candidates home).filter (Missing isDir (listed current)) := by
    simp [hmem, hold]
  exact hnew candidate (List.mem_append_left _ hadded) (same_refl candidate)

/-- A directory of the home: behind a slash, unless the home is empty or ends in one. -/
def below (home : Path) (dir : String) : Path :=
  home ++ (if home = [] ∨ home.getLast? = some slash then [] else [slash]) ++ bytes dir

theorem candidates_eq (home : Path) :
    candidates home = [below home ".local/bin", below home ".cargo/bin"] := by
  have hpush : ∀ dir, (bytes dir).head? ≠ some slash → push home (bytes dir) = below home dir := by
    intro dir hrelative
    rw [push, if_neg hrelative, below]
    split <;> simp
  rw [candidates, hpush _ (by decide), hpush _ (by decide)]

theorem listed_eq (current : Option (List UInt8)) :
    listed current = current.elim [] splitPaths := by
  cases current <;> rfl

/--
For a home without a colon nothing is done exactly if neither `.local/bin` nor
`.cargo/bin` of it is missing; else the new `PATH` lists those that are missing, in this
order, in front of what was listed, and doing it again does nothing.  For a home with a
colon nothing is ever done, and the environment of the host stays as it is.
-/
theorem augmented_path (home : Path) (isDir : Path → Bool) :
    (colon ∉ home → ∀ current,
      (augmentedPath home current isDir = none ↔
        ¬ Missing isDir (current.elim [] splitPaths) (below home ".local/bin") ∧
          ¬ Missing isDir (current.elim [] splitPaths) (below home ".cargo/bin")) ∧
      ∀ path, augmentedPath home current isDir = some path →
        splitPaths path =
          [below home ".local/bin", below home ".cargo/bin"].filter
              (Missing isDir (current.elim [] splitPaths)) ++ current.elim [] splitPaths ∧
        augmentedPath home (some path) isDir = none) ∧
    (colon ∈ home →
      (∀ current, augmentedPath home current isDir = none) ∧
      ∀ environ, getenv (bytes "HOME") environ = some home →
        addUserBinDirsToPath isDir environ = environ) := by
  constructor
  · intro hcolon current
    rw [← listed_eq, ← candidates_eq]
    refine ⟨?_, fun path h => ⟨listed_augmentedPath h, augmentedPath_again h⟩⟩
    rw [augmentedPath_eq_none_iff, or_iff_left hcolon, candidates_eq]
    simp
  · intro hcolon
    have hnone : ∀ current, augmentedPath home current isDir = none := fun current =>
      augmentedPath_eq_none_iff.mpr (.inr hcolon)
    refine ⟨hnone, fun environ hhome => ?_⟩
    simp only [addUserBinDirsToPath, hhome, hnone]

/-- `/home/test` with every directory there, and `/usr/bin:/bin`. -/
theorem augmented_path_homeTest :
    ∃ path, path = bytes "/home/test/.local/bin:/home/test/.cargo/bin:/usr/bin:/bin" ∧
      augmentedPath (bytes "/home/test") (some (bytes "/usr/bin:/bin")) (fun _ => true) =
        some path ∧
      splitPaths path =
        [bytes "/home/test/.local/bin", bytes "/home/test/.cargo/bin", bytes "/usr/bin",
          bytes "/bin"] ∧
      augmentedPath (bytes "/home/test") (some path) (fun _ => true) = none := by
  have hpath : augmentedPath (bytes "/home/test") (some (bytes "/usr/bin:/bin"))
      (fun _ => true) =
        some (bytes "/home/test/.local/bin:/home/test/.cargo/bin:/usr/bin:/bin") := by
    decide
  obtain ⟨hlisted, hagain⟩ := ((augmented_path _ _).1 (by decide) _).2 _ hpath
  exact ⟨_, rfl, hpath, hlisted.trans (by decide), hagain⟩

end Law

/-! ## The environment of the host -/

section Host

variable {isDir : Path → Bool} {environ : Entries}

/-- Only `PATH` changes. -/
theorem getenv_addUserBinDirs {name : List UInt8} (hname : equals ∉ name)
    (hpath : name ≠ bytes "PATH") :
    getenv name (addUserBinDirsToPath isDir environ) = getenv name environ := by
  unfold addUserBinDirsToPath
  split
  · rfl
  · split
    · rfl
    · rw [getenv_setenv hname (by decide), if_neg hpath]

/-- A host started in the environment of a host leaves it as it is. -/
theorem addUserBinDirs_idem :
    addUserBinDirsToPath isDir (addUserBinDirsToPath isDir environ) =
      addUserBinDirsToPath isDir environ := by
  rcases hhome : getenv (bytes "HOME") environ with _ | home
  · simp only [addUserBinDirsToPath, hhome]
  · rcases haug : augmentedPath home (getenv (bytes "PATH") environ) isDir with _ | path
    · simp only [addUserBinDirsToPath, hhome, haug]
    · have hset : addUserBinDirsToPath isDir environ = setenv (bytes "PATH") path environ := by
        simp only [addUserBinDirsToPath, hhome, haug]
      have hhome' : getenv (bytes "HOME") (setenv (bytes "PATH") path environ) = some home := by
        rw [← hset, getenv_addUserBinDirs (by decide) (by decide), hhome]
      have hpath : getenv (bytes "PATH") (setenv (bytes "PATH") path environ) = some path := by
        rw [getenv_setenv (by decide) (by decide), if_pos rfl]
      rw [hset]
      simp only [addUserBinDirsToPath, hhome', hpath, augmentedPath_again haug]

end Host

end Rexec
