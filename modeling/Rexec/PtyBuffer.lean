import Mathlib.Tactic

/-!
# The output filter and the PTY buffer

`OutputFilter::push` is a machine of five states that reads one byte at a time.
The PTY reader appends each chunk to the raw output, and its filtered form to
the filtered output; the console thread takes what is pending.
-/

namespace Rexec

/-- The state of `OutputFilter`. -/
inductive FilterState where
  | normal
  | esc
  | csi
  | stringSeq
  | stringSeqSawEsc
deriving DecidableEq, Repr

namespace FilterState

/-- One byte: the next state and the bytes put out. -/
def pushByte : FilterState → UInt8 → FilterState × List UInt8
  | .normal, b =>
      if b = 0x1b then (.esc, [])
      else if b = 0x0d then (.normal, [0x0a])
      else (.normal, [b])
  | .esc, b =>
      if b = 0x5b then (.csi, [])
      else if b = 0x5d ∨ b = 0x50 ∨ b = 0x58 ∨ b = 0x5e ∨ b = 0x5f then
        (.stringSeq, [])
      else if b = 0x1b then (.esc, [])
      else (.normal, [])
  | .csi, b => if 0x40 ≤ b ∧ b ≤ 0x7e then (.normal, []) else (.csi, [])
  | .stringSeq, b =>
      if b = 0x07 then (.normal, [])
      else if b = 0x1b then (.stringSeqSawEsc, [])
      else (.stringSeq, [])
  | .stringSeqSawEsc, b =>
      if b = 0x5c then (.normal, [])
      else if b = 0x1b then (.stringSeqSawEsc, [])
      else (.stringSeq, [])

/-- `OutputFilter::push`. -/
def push : FilterState → List UInt8 → FilterState × List UInt8
  | s, [] => (s, [])
  | s, b :: bs =>
      let one := pushByte s b
      let rest := push one.1 bs
      (rest.1, one.2 ++ rest.2)

/-- Pushing two chunks is pushing their concatenation. -/
theorem push_append (s : FilterState) (as bs : List UInt8) :
    push s (as ++ bs) =
      ((push (push s as).1 bs).1, (push s as).2 ++ (push (push s as).1 bs).2) := by
  induction as generalizing s with
  | nil => rfl
  | cons a as ih => simp [push, ih]

end FilterState

structure PtyBuffer where
  rawPending : List UInt8
  rawTotal : List UInt8
  filteredTotal : List UInt8
  eof : Bool
  consoleOutput : Bool

namespace PtyBuffer

/-- The buffer a spawned command starts with. -/
def new (silent : Bool) : PtyBuffer :=
  { rawPending := [], rawTotal := [], filteredTotal := [], eof := false
    consoleOutput := !silent }

/-- What `pty_reader` does with one chunk, under the lock. -/
def append (filter : FilterState) (g : PtyBuffer) (chunk : List UInt8) :
    FilterState × PtyBuffer :=
  let pushed := filter.push chunk
  (pushed.1,
    { g with
        rawPending := if g.consoleOutput then g.rawPending ++ chunk else g.rawPending
        rawTotal := g.rawTotal ++ chunk
        filteredTotal := g.filteredTotal ++ pushed.2 })

/-- The last thing `pty_reader` does. -/
def setEof (g : PtyBuffer) : PtyBuffer :=
  { g with eof := true }

/-- `std::mem::take(&mut g.raw_pending)`. -/
def take (g : PtyBuffer) : List UInt8 × PtyBuffer :=
  (g.rawPending, { g with rawPending := [] })

end PtyBuffer
end Rexec
