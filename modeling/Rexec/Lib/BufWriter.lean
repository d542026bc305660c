import Mathlib.Tactic

/-!
# Buffered writers

A writer with a buffer in front of a device that may fail.  Data that fits goes
to the buffer; when there is no room the buffer is first flushed; data of at
least the capacity goes straight to the device.  A flush that fails keeps what
the device did not take; a direct write that fails leaves a first part of the
data behind and discards the rest.

`Writer.total` is what a writer stands for: the content of the device and then
the buffer.  A write that succeeds adds its data to it, a write that fails adds
a first part of the data, and a flush changes nothing (`writeAll_cases`,
`flushBuf_total`).
-/

namespace Rexec
namespace BufWriter

universe u

variable {α : Type u}

structure Writer (α : Type u) where
  device : List α
  buffer : List α
deriving DecidableEq

/-- How a transfer to the device goes: all of it, or just so many items. -/
abbrev Transfer := Option Nat

namespace Writer

def empty : Writer α := ⟨[], []⟩

def total (w : Writer α) : List α :=
  w.device ++ w.buffer

/-- Write out the buffer; what is not taken stays in it. -/
def flushBuf (w : Writer α) : Transfer → Writer α × Bool
  | none => (⟨w.device ++ w.buffer, []⟩, true)
  | some n => (⟨w.device ++ w.buffer.take n, w.buffer.drop n⟩, decide (w.buffer.length ≤ n))

/-- Write to the device directly; what is not taken is lost. -/
def writeDevice (w : Writer α) (data : List α) : Transfer → Writer α × Bool
  | none => (⟨w.device ++ data, w.buffer⟩, true)
  | some n => (⟨w.device ++ data.take n, w.buffer⟩, decide (data.length ≤ n))

/-- Flush the buffer if there is no room for `n` items. -/
def makeRoom (capacity : Nat) (w : Writer α) (n : Nat) (before : Transfer) :
    Writer α × Bool :=
  if capacity - w.buffer.length < n then w.flushBuf before else (w, true)

/-- Take data for which there is room now, or which no buffer holds. -/
def place (capacity : Nat) (w : Writer α) (data : List α) (direct : Transfer) :
    Writer α × Bool :=
  if capacity ≤ data.length then w.writeDevice data direct
  else (⟨w.device, w.buffer ++ data⟩, true)

/-- Write all of the data; `before` is the outcome of the flush that makes room, and
`direct` of the write that passes the buffer by. -/
def writeAll (capacity : Nat) (w : Writer α) (data : List α) (before direct : Transfer) :
    Writer α × Bool :=
  if data.length < capacity - w.buffer.length then (⟨w.device, w.buffer ++ data⟩, true)
  else
    match w.makeRoom capacity data.length before with
    | (w', true) => w'.place capacity data direct
    | (w', false) => (w', false)

/-! ### What the operations do -/

variable {w : Writer α} {o before direct : Transfer} {data : List α} {capacity n : Nat}

theorem flushBuf_total : (w.flushBuf o).1.total = w.total := by
  cases o <;> simp [flushBuf, total, List.append_assoc]

theorem flushBuf_device : w.device <+: (w.flushBuf o).1.device := by
  cases o <;> simp [flushBuf]

/-- A flush that succeeds leaves nothing in the buffer. -/
theorem flushBuf_ok (h : (w.flushBuf o).2 = true) :
    (w.flushBuf o).1 = ⟨w.total, []⟩ := by
  cases o with
  | none => rfl
  | some n =>
      have hn : w.buffer.length ≤ n := by simpa [flushBuf] using h
      simp [flushBuf, total, List.take_of_length_le hn, List.drop_eq_nil_of_le hn]

/-- Where a write to the device has nothing to overtake, it adds what it takes. -/
theorem writeDevice_cases (h : w.buffer = [] ∨ data = []) :
    ((w.writeDevice data o).2 = true ∧
        (w.writeDevice data o).1.total = w.total ++ data) ∨
      ((w.writeDevice data o).2 = false ∧
        ∃ k, (w.writeDevice data o).1.total = w.total ++ data.take k) := by
  have hmove : ∀ l : List α, (w.buffer = [] ∨ l = []) →
      total ⟨w.device ++ l, w.buffer⟩ = w.total ++ l := by
    rintro l (hl | rfl)
    · simp [total, hl]
    · simp [total]
  cases o with
  | none => exact Or.inl ⟨rfl, hmove data h⟩
  | some k =>
      have htake : total ⟨w.device ++ data.take k, w.buffer⟩ = w.total ++ data.take k :=
        hmove _ (h.imp id fun h => by rw [h, List.take_nil])
      by_cases hk : data.length ≤ k
      · refine Or.inl ⟨by simp [writeDevice, hk], ?_⟩
        rw [List.take_of_length_le hk] at htake
        simpa [writeDevice, List.take_of_length_le hk] using htake
      · exact Or.inr ⟨by simp [writeDevice, hk], k, htake⟩

theorem makeRoom_total : (w.makeRoom capacity n before).1.total = w.total := by
  unfold makeRoom
  split
  · exact flushBuf_total
  · rfl

theorem makeRoom_device : w.device <+: (w.makeRoom capacity n before).1.device := by
  unfold makeRoom
  split
  · exact flushBuf_device
  · exact List.prefix_refl _

/-- After room was made, data as long as the whole buffer finds it empty. -/
theorem makeRoom_empty (h : (w.makeRoom capacity data.length before).2 = true)
    (hlong : capacity ≤ data.length) :
    (w.makeRoom capacity data.length before).1.buffer = [] ∨ data = [] := by
  unfold makeRoom at h ⊢
  split at h
  · rw [if_pos (by assumption), flushBuf_ok h]
    exact Or.inl rfl
  · rename_i hroom
    rw [if_neg hroom]
    by_cases hcapacity : capacity = 0
    · exact Or.inr (List.eq_nil_of_length_eq_zero (by omega))
    · have hnil : w.buffer = [] := List.eq_nil_of_length_eq_zero (by omega)
      exact Or.inl hnil

theorem place_cases (h : capacity ≤ data.length → w.buffer = [] ∨ data = []) :
    ((w.place capacity data direct).2 = true ∧
        (w.place capacity data direct).1.total = w.total ++ data) ∨
      ((w.place capacity data direct).2 = false ∧
        ∃ k, (w.place capacity data direct).1.total = w.total ++ data.take k) := by
  unfold place
  split
  · rename_i hlong
    exact writeDevice_cases (h hlong)
  · exact Or.inl ⟨rfl, by simp [total]⟩

theorem place_device : w.device <+: (w.place capacity data direct).1.device := by
  unfold place
  split
  · cases direct <;> simp [writeDevice]
  · exact List.prefix_refl _

theorem writeAll_device : w.device <+: (w.writeAll capacity data before direct).1.device := by
  unfold writeAll
  split
  · exact List.prefix_refl _
  · have hroom : w.device <+: (w.makeRoom capacity data.length before).1.device :=
      makeRoom_device
    split
    · rename_i w' heq
      rw [heq] at hroom
      exact hroom.trans place_device
    · rename_i w' heq
      rw [heq] at hroom
      exact hroom

/-- A write adds its data to what the writer stands for, or fails and adds a first
part of it. -/
theorem writeAll_cases :
    ((w.writeAll capacity data before direct).2 = true ∧
        (w.writeAll capacity data before direct).1.total = w.total ++ data) ∨
      ((w.writeAll capacity data before direct).2 = false ∧
        ∃ k, (w.writeAll capacity data before direct).1.total = w.total ++ data.take k) := by
  unfold writeAll
  split
  · exact Or.inl ⟨rfl, by simp [total]⟩
  · have htotal : (w.makeRoom capacity data.length before).1.total = w.total := makeRoom_total
    split
    · rename_i w' heq
      have hempty : capacity ≤ data.length →
          (w.makeRoom capacity data.length before).1.buffer = [] ∨ data = [] :=
        makeRoom_empty (by rw [heq])
      rw [heq] at htotal hempty
      rw [← htotal]
      exact place_cases hempty
    · rename_i w' heq
      rw [heq] at htotal
      exact Or.inr ⟨rfl, 0, by rw [htotal, List.take_zero, List.append_nil]⟩

theorem writeAll_ok {w' : Writer α}
    (h : w.writeAll capacity data before direct = (w', true)) :
    w'.total = w.total ++ data := by
  rcases writeAll_cases (w := w) with ⟨-, ht⟩ | ⟨hf, -⟩
  · rw [h] at ht
    exact ht
  · rw [h] at hf
    cases hf

/-- On a device that takes everything every write succeeds. -/
theorem writeAll_none : (w.writeAll capacity data none none).2 = true := by
  have hroom : (w.makeRoom capacity data.length none).2 = true := by
    unfold makeRoom
    split <;> rfl
  unfold writeAll
  split
  · rfl
  · split
    · unfold place
      split <;> rfl
    · rename_i w' heq
      rw [heq] at hroom
      cases hroom

/-- Data as long as the capacity passes an empty buffer by. -/
theorem writeAll_long (hempty : w.buffer = []) (hlong : capacity ≤ data.length) :
    w.writeAll capacity data none direct = w.writeDevice data direct := by
  obtain ⟨device, buffer⟩ := w
  obtain rfl : buffer = [] := hempty
  have hroom : makeRoom capacity ⟨device, []⟩ data.length none = (⟨device, []⟩, true) := by
    unfold makeRoom
    split
    · rw [flushBuf, List.append_nil]
    · rfl
  rw [writeAll, if_neg (by simpa using hlong), hroom]
  exact if_pos hlong

end Writer
end BufWriter
end Rexec
