import Mathlib.Tactic

/-!
# The environment of a process

An environment is a list of byte strings `name=value`, of which the first with a
name counts.  `setenv` puts a new value in the place of this entry, or an entry
at the end.

`getenv_setenv` is the law of one assignment, and `getenv_setenvs` that of a
sequence of them: a name has the value of its last assignment, or else the one it
had.
-/

namespace Rexec
namespace Environ

/-- The byte between a name and its value. -/
def equals : UInt8 := 0x3d

/-- The environment: entries `name=value`. -/
abbrev Entries := List (List UInt8)

/-- The entry sets this name. -/
def sets (name entry : List UInt8) : Bool :=
  (name ++ [equals]).isPrefixOf entry

/-- The value of an entry that sets the name. -/
def valueIn (name entry : List UInt8) : List UInt8 :=
  entry.drop (name.length + 1)

def getenv (name : List UInt8) (environ : Entries) : Option (List UInt8) :=
  (environ.find? (sets name)).map (valueIn name)

/-- `setenv` that overwrites. -/
def setenv (name value : List UInt8) : Entries → Entries
  | [] => [name ++ equals :: value]
  | entry :: rest =>
      if sets name entry then (name ++ equals :: value) :: rest
      else entry :: setenv name value rest

/-- A name that `setenv` takes. -/
def settable (name : List UInt8) : Bool :=
  decide (name ≠ []) && decide (equals ∉ name)

theorem sets_iff {name entry : List UInt8} :
    sets name entry = true ↔ ∃ value, entry = name ++ equals :: value := by
  rw [sets, List.isPrefixOf_iff_prefix]
  constructor
  · rintro ⟨value, rfl⟩
    exact ⟨value, by simp⟩
  · rintro ⟨value, rfl⟩
    exact ⟨value, by simp⟩

theorem valueIn_entry (name value : List UInt8) :
    valueIn name (name ++ equals :: value) = value := by
  rw [valueIn, ← List.drop_drop, List.drop_left]
  rfl

/-- An entry has one name. -/
theorem sets_entry_iff {name name' : List UInt8} (hname : equals ∉ name)
    (hname' : equals ∉ name') (value : List UInt8) :
    sets name (name' ++ equals :: value) = true ↔ name = name' := by
  rw [sets_iff]
  constructor
  · rintro ⟨value', h⟩
    induction name generalizing name' with
    | nil =>
        cases name' with
        | nil => rfl
        | cons b name' =>
            obtain ⟨rfl, -⟩ := List.cons_eq_cons.mp h
            exact absurd (List.mem_cons_self ..) hname'
    | cons b name ih =>
        cases name' with
        | nil =>
            obtain ⟨rfl, -⟩ := List.cons_eq_cons.mp h
            exact absurd (List.mem_cons_self ..) hname
        | cons c name' =>
            obtain ⟨rfl, hrest⟩ := List.cons_eq_cons.mp h
            rw [ih (fun hb => hname (List.mem_cons_of_mem _ hb))
              (fun hb => hname' (List.mem_cons_of_mem _ hb)) hrest]
  · rintro rfl
    exact ⟨value, rfl⟩

/-- An assignment gives its name the value, and leaves the other names alone. -/
theorem getenv_setenv {name name' : List UInt8} (hname : equals ∉ name)
    (hname' : equals ∉ name') (value : List UInt8) (environ : Entries) :
    getenv name (setenv name' value environ) =
      if name = name' then some value else getenv name environ := by
  have hentry := sets_entry_iff hname hname' value
  induction environ with
  | nil =>
      by_cases h : name = name'
      · subst h
        simp [getenv, setenv, hentry.mpr rfl, valueIn_entry]
      · simp [getenv, setenv, h, mt hentry.mp h]
  | cons entry rest ih =>
      by_cases hset : sets name' entry = true
      · obtain ⟨old, rfl⟩ := sets_iff.mp hset
        have hold := sets_entry_iff hname hname' old
        rw [setenv, if_pos hset]
        by_cases h : name = name'
        · subst h
          simp [getenv, hentry.mpr rfl, valueIn_entry]
        · simp [getenv, h, mt hentry.mp h, mt hold.mp h]
      · rw [setenv, if_neg hset]
        by_cases hthis : sets name entry = true
        · have h : name ≠ name' := fun heq => hset (heq ▸ hthis)
          simp [getenv, hthis, h]
        · simpa [getenv, hthis] using ih

/-- A sequence of assignments. -/
def setenvs (assignments : List (List UInt8 × List UInt8)) (environ : Entries) : Entries :=
  assignments.foldl (fun environ a => setenv a.1 a.2 environ) environ

/-- A name has the value of its last assignment, or else the one it had. -/
theorem getenv_setenvs {name : List UInt8} (hname : equals ∉ name)
    {assignments : List (List UInt8 × List UInt8)}
    (hnames : ∀ a ∈ assignments, equals ∉ a.1) (environ : Entries) :
    getenv name (setenvs assignments environ) =
      ((assignments.reverse.find? fun a => a.1 = name).map Prod.snd).or
        (getenv name environ) := by
  induction assignments using List.reverseRecOn with
  | nil => rfl
  | append_singleton assignments a ih =>
      have hlast : setenvs (assignments ++ [a]) environ =
          setenv a.1 a.2 (setenvs assignments environ) := by
        simp [setenvs]
      rw [hlast, getenv_setenv hname (hnames a (by simp)),
        ih fun b hb => hnames b (by simp [hb]), List.reverse_append, List.reverse_singleton,
        List.singleton_append, List.find?_cons]
      by_cases h : a.1 = name
      · simp [h]
      · simp [h, Ne.symm h]

end Environ
end Rexec
