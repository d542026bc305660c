import Mathlib.Tactic

/-!
# Reorder buffers

Items arrive tagged with a number, in any order, and must leave in number order
without gaps.  The buffer keeps the next number to leave and the items that
arrived early.  An arrival is stored and then the run of consecutive items that
starts at `next` is let go.

The meaning of a buffer is `Represents S out b`: `S` is what has arrived, `out`
what has left.  Everything below the first number that has not arrived has left,
in order, and what arrived above it waits.  `submit_represents` is the one law
of the operation; `represents_complete` reads off what it means when no number
is missing.
-/

namespace Rexec
namespace Reorder

universe u

variable {α : Type u}

structure Buffer (α : Type u) where
  next : Nat
  pending : Std.ExtTreeMap Nat α

def empty : Buffer α := ⟨0, ∅⟩

/-- Let go of the consecutive items from `next` on; the number bounds the rounds. -/
def drain : Nat → Buffer α → Buffer α × List α
  | 0, b => (b, [])
  | n + 1, b =>
      match b.pending[b.next]? with
      | none => (b, [])
      | some a =>
          let rest := drain n ⟨b.next + 1, b.pending.erase b.next⟩
          (rest.1, a :: rest.2)

/-- Store an arrival, then drain; a round removes one item, so these suffice. -/
def submit (b : Buffer α) (seq : Nat) (a : α) : Buffer α × List α :=
  let pending := b.pending.insert seq a
  drain (pending.size + 1) ⟨b.next, pending⟩

/-- The buffer agrees with the arrivals `S` and the departures `out`. -/
structure Holds (S : Nat → Option α) (out : List α) (b : Buffer α) : Prop where
  length : out.length = b.next
  released : ∀ k, k < b.next → out[k]? = S k
  waiting : ∀ k, b.pending[k]? = if b.next ≤ k then S k else none

/-- `Holds`, and the next number has not arrived. -/
structure Represents (S : Nat → Option α) (out : List α) (b : Buffer α) : Prop
    extends Holds S out b where
  frontier : S b.next = none

theorem represents_empty :
    Represents (fun _ => none) [] (empty : Buffer α) where
  length := rfl
  released := fun k hk => by simp [empty] at hk
  waiting := fun k => by simp [empty]
  frontier := rfl

/-- One round of the drain. -/
theorem Holds.round
    {S : Nat → Option α} {out : List α} {b : Buffer α} {a : α}
    (h : Holds S out b) (ha : b.pending[b.next]? = some a) :
    Holds S (out ++ [a]) ⟨b.next + 1, b.pending.erase b.next⟩ where
  length := by simp [h.length]
  released := by
    intro k hk
    have hSa : S b.next = some a := by
      have := h.waiting b.next
      rw [ha, if_pos (Nat.le_refl _)] at this
      exact this.symm
    by_cases hlt : k < b.next
    · rw [List.getElem?_append_left (by rw [h.length]; exact hlt)]
      exact h.released k hlt
    · obtain rfl : k = b.next := by
        simp only at hk
        omega
      rw [hSa, ← h.length]
      simp
  waiting := by
    intro k
    rw [Std.ExtTreeMap.getElem?_erase, h.waiting k]
    by_cases hk : b.next = k
    · subst hk
      simp
    · have hcmp : compare b.next k ≠ .eq := by
        simpa using hk
      rw [if_neg hcmp]
      by_cases hle : b.next ≤ k
      · rw [if_pos hle, if_pos (by simp only; omega)]
      · rw [if_neg hle, if_neg (by simp only; omega)]

/-- Taking out an item that is there makes the map smaller. -/
theorem size_erase_lt
    {m : Std.ExtTreeMap Nat α} {k : Nat} {a : α} (ha : m[k]? = some a) :
    (m.erase k).size < m.size := by
  have hcontains : m.contains k = true := by
    rw [Std.ExtTreeMap.contains_eq_isSome_getElem?, ha]
    rfl
  have hpos : m.size ≠ 0 := by
    intro h0
    rw [← Std.ExtTreeMap.eq_empty_iff_size_eq_zero] at h0
    rw [h0] at hcontains
    simp at hcontains
  rw [Std.ExtTreeMap.size_erase, if_pos hcontains]
  omega

theorem drain_represents
    {S : Nat → Option α} {n : Nat} {b : Buffer α} {out : List α}
    (hn : b.pending.size < n) (h : Holds S out b) :
    Represents S (out ++ (drain n b).2) (drain n b).1 := by
  induction n generalizing b out with
  | zero => omega
  | succ n ih =>
      cases ha : b.pending[b.next]? with
      | none =>
          have hfrontier := h.waiting b.next
          rw [ha, if_pos (Nat.le_refl _)] at hfrontier
          simp only [drain, ha, List.append_nil]
          exact ⟨h, hfrontier.symm⟩
      | some a =>
          have hsize : (b.pending.erase b.next).size < n := by
            have hless := size_erase_lt ha
            omega
          have hrest := ih (b := ⟨b.next + 1, b.pending.erase b.next⟩) hsize
            (h.round ha)
          simpa [drain, ha] using hrest

/-- A number that has not arrived is not below `next`. -/
theorem Holds.next_le
    {S : Nat → Option α} {out : List α} {b : Buffer α} {seq : Nat}
    (h : Holds S out b) (hfresh : S seq = none) : b.next ≤ seq := by
  by_contra hlt
  have hsome := h.released seq (by omega)
  rw [hfresh, List.getElem?_eq_none_iff, h.length] at hsome
  omega

/-- A new arrival is stored. -/
theorem Holds.insert
    {S : Nat → Option α} {out : List α} {b : Buffer α} {seq : Nat}
    (h : Holds S out b) (hfresh : S seq = none) (a : α) :
    Holds (Function.update S seq (some a)) out ⟨b.next, b.pending.insert seq a⟩ where
  length := h.length
  released := by
    intro k hk
    have hseq := h.next_le hfresh
    simp only at hk
    rw [Function.update_of_ne (by omega)]
    exact h.released k hk
  waiting := by
    intro k
    rw [Std.ExtTreeMap.getElem?_insert]
    by_cases hk : seq = k
    · subst hk
      simp [h.next_le hfresh]
    · have hcmp : compare seq k ≠ .eq := by
        simpa using hk
      rw [if_neg hcmp, Function.update_of_ne (Ne.symm hk)]
      exact h.waiting k

/-- **The law of `submit`**: a new arrival, and what it lets go of. -/
theorem submit_represents
    {S : Nat → Option α} {out : List α} {b : Buffer α} {seq : Nat} {a : α}
    (h : Represents S out b) (hfresh : S seq = none) :
    Represents (Function.update S seq (some a))
      (out ++ (submit b seq a).2) (submit b seq a).1 :=
  drain_represents (Nat.lt_succ_self _) (h.toHolds.insert hfresh a)

/-- What has left is what arrived below `next`. -/
theorem Represents.getElem?_out
    {S : Nat → Option α} {out : List α} {b : Buffer α}
    (h : Represents S out b) {k : Nat} {a : α} (ha : out[k]? = some a) :
    S k = some a := by
  have hlt : k < b.next := by
    rw [← h.length]
    exact (List.getElem?_eq_some_iff.mp ha).1
  rw [← h.released k hlt, ha]

/-- An item has left exactly when nothing at or below its number is missing. -/
theorem Represents.lt_next_iff
    {S : Nat → Option α} {out : List α} {b : Buffer α}
    (h : Represents S out b) (k : Nat) :
    k < b.next ↔ ∀ j, j ≤ k → S j ≠ none := by
  constructor
  · intro hk j hj hnone
    have hrel := h.released j (by omega)
    rw [hnone, List.getElem?_eq_none_iff, h.length] at hrel
    omega
  · intro hall
    by_contra hge
    exact hall b.next (by omega) h.frontier

/-- What has left is determined by what has arrived. -/
theorem Represents.out_unique
    {S : Nat → Option α} {out out' : List α} {b b' : Buffer α}
    (h : Represents S out b) (h' : Represents S out' b') : out = out' := by
  have hnext : b.next = b'.next := by
    apply Nat.le_antisymm
    · exact Nat.le_of_not_lt fun hlt => (h.lt_next_iff _).mp hlt _ (Nat.le_refl _) h'.frontier
    · exact Nat.le_of_not_lt fun hlt => (h'.lt_next_iff _).mp hlt _ (Nat.le_refl _) h.frontier
  apply List.ext_getElem?
  intro k
  by_cases hk : k < b.next
  · rw [h.released k hk, h'.released k (by omega)]
  · rw [List.getElem?_eq_none (by rw [h.length]; omega),
      List.getElem?_eq_none (by rw [h'.length]; omega)]

/-- When exactly the numbers below `n` have arrived, all have left in order. -/
theorem represents_complete
    {S : Nat → Option α} {out : List α} {b : Buffer α} {n : Nat}
    (h : Represents S out b) (hS : ∀ k, S k ≠ none ↔ k < n) :
    b.next = n ∧ out.length = n ∧ (∀ k, k < n → out[k]? = S k) ∧
      b.pending = ∅ := by
  have hnext : b.next = n := by
    have hge : ¬ b.next < n := fun hlt => (hS b.next).mpr hlt h.frontier
    have hle : ¬ n < b.next := by
      intro hlt
      have := (h.lt_next_iff n).mp hlt n (Nat.le_refl n)
      exact absurd ((hS n).mp this) (Nat.lt_irrefl n)
    omega
  refine ⟨hnext, h.length.trans hnext, ?_, ?_⟩
  · intro k hk
    exact h.released k (by omega)
  · apply Std.ExtTreeMap.ext_getElem?
    intro k
    rw [h.waiting k]
    by_cases hk : b.next ≤ k
    · rw [if_pos hk]
      by_contra hne
      have := (hS k).mp (by simpa using hne)
      omega
    · rw [if_neg hk]
      simp

end Reorder
end Rexec
