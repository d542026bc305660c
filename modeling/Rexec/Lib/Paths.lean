import Mathlib.Tactic

/-!
# Paths and search paths

A path is a string of bytes; two paths are the same if they have the same
components, which repeated separators, separators at the end and `.` inside do
not change.  A search path lists paths with a colon between them.

* `components`, `same` and `push` are those of a path with `/` as its separator.
* `splitPaths` and `joinPaths` read and write a search path.
* `splitPaths_of_join`: a search path that was written is read as it was, empty
  paths included.
-/

namespace Rexec
namespace Paths

def slash : UInt8 := 0x2f

def dot : UInt8 := 0x2e

def colon : UInt8 := 0x3a

abbrev Path := List UInt8

/-! ## Components -/

inductive Component where
  | rootDir
  | curDir
  | parentDir
  | normal (name : List UInt8)
deriving DecidableEq

/-- A `.` counts at the beginning of a relative path only. -/
def components (path : Path) : List Component :=
  let segments := path.splitOn slash
  let first : List Component :=
    if path.head? = some slash then [.rootDir]
    else if segments.head? = some [dot] then [.curDir]
    else []
  let named := segments.filter fun s => s ≠ [] ∧ s ≠ [dot]
  first ++ named.map fun s => if s = [dot, dot] then .parentDir else .normal s

/-- The equality of paths. -/
def same (p q : Path) : Bool :=
  components p == components q

theorem same_refl (p : Path) : same p p = true :=
  BEq.refl _

example : same [slash, 0x61, slash, slash, dot, slash, 0x62, slash] [slash, 0x61, slash, 0x62] =
    true := by
  decide

/-- The path `path` below `base`; an absolute one replaces it. -/
def push (base path : Path) : Path :=
  if path.head? = some slash then path
  else if base = [] ∨ base.getLast? = some slash then base ++ path
  else base ++ slash :: path

/-- A byte of a relative path that is put below a base comes from one of the two. -/
theorem mem_push {base path : Path} {b : UInt8} (hrelative : path.head? ≠ some slash)
    (hb : b ≠ slash) : b ∈ push base path ↔ b ∈ base ∨ b ∈ path := by
  unfold push
  rw [if_neg hrelative]
  split
  · exact List.mem_append
  · simp [hb]

/-! ## Search paths -/

def splitPaths (list : List UInt8) : List Path :=
  list.splitOn colon

/-- A path with a colon in it cannot be listed. -/
def joinPaths (paths : List Path) : Option (List UInt8) :=
  if ∀ p ∈ paths, colon ∉ p then some ([colon].intercalate paths) else none

theorem colon_notin_splitPaths (list : List UInt8) :
    ∀ p ∈ splitPaths list, colon ∉ p := by
  unfold splitPaths
  induction list with
  | nil => simp
  | cons b list ih =>
      intro p hp
      rw [List.splitOn_cons_eq_if_modifyHead] at hp
      split at hp
      · rcases List.mem_cons.mp hp with rfl | hp
        · simp
        · exact ih p hp
      · rename_i hb
        rcases hsplit : list.splitOn colon with _ | ⟨first, rest⟩
        · rw [hsplit] at hp
          cases hp
        · rw [hsplit, List.modifyHead_cons] at hp
          rw [hsplit] at ih
          rcases List.mem_cons.mp hp with rfl | hp
          · have hfirst := ih first (List.mem_cons_self ..)
            have hne : colon ≠ b := fun h => hb (by simp [h])
            simp [hfirst, hne]
          · exact ih p (List.mem_cons_of_mem _ hp)

theorem joinPaths_eq_none_iff {paths : List Path} :
    joinPaths paths = none ↔ ∃ p ∈ paths, colon ∈ p := by
  unfold joinPaths
  split
  · rename_i h
    simpa using h
  · rename_i h
    simpa using h

/-- What was written is read back. -/
theorem splitPaths_of_join {paths : List Path} {list : List UInt8} (hne : paths ≠ [])
    (h : joinPaths paths = some list) : splitPaths list = paths := by
  unfold joinPaths at h
  split at h
  · rename_i hcolon
    cases h
    exact List.splitOn_intercalate colon hcolon hne
  · cases h

end Paths
end Rexec
