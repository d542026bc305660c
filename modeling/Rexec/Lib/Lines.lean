import Mathlib.Tactic

/-!
# Streams of terminated lines

A stream over an alphabet with a terminator `nl` is cut after every
terminator.  `split` is what a reader that returns one line at a time, with its
terminator, returns until the end of the stream; only the last line may lack
one.

`IsLine` is a complete line.  The facts used elsewhere are that a concatenation
of complete lines is cut back into them (`split_flatten`), that the first of them
is determined by the stream they spell (`IsLine.append_inj`), and that any first
part of such a stream is some of its lines and a part of the next one
(`flatten_eq_append`).
-/

namespace Rexec
namespace Lines

universe u

variable {α : Type u} (nl : α)

/-- Cut a stream after every terminator. -/
def split [DecidableEq α] : List α → List (List α)
  | [] => []
  | c :: cs =>
      if c = nl then [c] :: split cs
      else
        match split cs with
        | [] => [[c]]
        | l :: ls => (c :: l) :: ls

/-- The lines of a stream that are complete. -/
def completeLines [DecidableEq α] (s : List α) : List (List α) :=
  (split nl s).filter (nl ∈ ·)

/-- Take the first complete line off a stream. -/
def takeLine [DecidableEq α] : List α → Option (List α × List α)
  | [] => none
  | c :: cs =>
      if c = nl then some ([c], cs)
      else (takeLine cs).map fun p => (c :: p.1, p.2)

/-- A complete line: its terminator is its last character and the only one. -/
def IsLine (l : List α) : Prop :=
  ∃ body, nl ∉ body ∧ l = body ++ [nl]

variable {nl}

theorem IsLine.ne_nil {l : List α} (h : IsLine nl l) : l ≠ [] := by
  obtain ⟨body, _, rfl⟩ := h
  simp

theorem IsLine.terminated {l : List α} (h : IsLine nl l) : nl ∈ l := by
  obtain ⟨body, _, rfl⟩ := h
  simp

/-- The first complete line of a stream is cut off first. -/
theorem split_line_append
    [DecidableEq α] {l : List α} (hl : IsLine nl l) (rest : List α) :
    split nl (l ++ rest) = l :: split nl rest := by
  obtain ⟨body, hbody, rfl⟩ := hl
  induction body with
  | nil => simp [split]
  | cons c body ih =>
      have hc : c ≠ nl := by
        rintro rfl
        exact hbody (by simp)
      have htail := ih (fun h => hbody (by simp [h]))
      simp only [List.cons_append] at htail ⊢
      rw [split, if_neg hc, htail]

/-- A concatenation of complete lines is cut back into them. -/
theorem split_flatten
    [DecidableEq α] {ls : List (List α)} (hls : ∀ l ∈ ls, IsLine nl l) :
    split nl ls.flatten = ls := by
  induction ls with
  | nil => rfl
  | cons l ls ih =>
      rw [List.flatten_cons, split_line_append (hls l (by simp)),
        ih (fun l' hl' => hls l' (by simp [hl']))]

/-- A stream starts with at most one complete line. -/
theorem IsLine.append_inj
    {l l' r r' : List α} (hl : IsLine nl l) (hl' : IsLine nl l')
    (h : l ++ r = l' ++ r') :
    l = l' ∧ r = r' := by
  obtain ⟨body, hbody, rfl⟩ := hl
  obtain ⟨body', hbody', rfl⟩ := hl'
  induction body generalizing body' with
  | nil =>
      cases body' with
      | nil => simpa using h
      | cons c body' =>
          simp only [List.nil_append, List.cons_append, List.cons.injEq] at h
          exact absurd (by simp [← h.1]) hbody'
  | cons c body ih =>
      cases body' with
      | nil =>
          simp only [List.nil_append, List.cons_append, List.cons.injEq] at h
          exact absurd (by simp [h.1]) hbody
      | cons c' body' =>
          simp only [List.cons_append, List.cons.injEq] at h
          obtain ⟨rfl, h⟩ := h
          obtain ⟨hl, hr⟩ := ih (fun hm => hbody (by simp [hm])) body'
            (fun hm => hbody' (by simp [hm])) h
          exact ⟨by rw [List.cons_append, hl, List.cons_append], hr⟩

theorem takeLine_line_append
    [DecidableEq α] {l : List α} (hl : IsLine nl l) (rest : List α) :
    takeLine nl (l ++ rest) = some (l, rest) := by
  obtain ⟨body, hbody, rfl⟩ := hl
  induction body with
  | nil => simp [takeLine]
  | cons c body ih =>
      have hc : c ≠ nl := by
        rintro rfl
        exact hbody (by simp)
      have htail := ih (fun h => hbody (by simp [h]))
      simp only [List.cons_append] at htail ⊢
      rw [takeLine, if_neg hc, htail, Option.map_some]

theorem takeLine_eq_none
    [DecidableEq α] {s : List α} (h : nl ∉ s) :
    takeLine nl s = none := by
  induction s with
  | nil => rfl
  | cons c cs ih =>
      have hc : c ≠ nl := by
        rintro rfl
        exact h (by simp)
      rw [takeLine, if_neg hc, ih (fun hm => h (by simp [hm])), Option.map_none]

/-- A stream with a terminator starts with a complete line. -/
theorem exists_line_append
    [DecidableEq α] {s : List α} (h : nl ∈ s) :
    ∃ l rest, IsLine nl l ∧ s = l ++ rest := by
  induction s with
  | nil => cases h
  | cons c cs ih =>
      by_cases hc : c = nl
      · exact ⟨[c], cs, ⟨[], by simp, by simp [hc]⟩, rfl⟩
      · have hcs : nl ∈ cs := by
          rcases List.mem_cons.mp h with hnl | hcs
          · exact absurd hnl.symm hc
          · exact hcs
        obtain ⟨l, rest, ⟨body, hbody, rfl⟩, rfl⟩ := ih hcs
        refine ⟨c :: (body ++ [nl]), rest, ⟨c :: body, ?_, rfl⟩, rfl⟩
        simp [hbody, Ne.symm hc]

theorem takeLine_eq_some
    [DecidableEq α] {s l rest : List α} (h : takeLine nl s = some (l, rest)) :
    IsLine nl l ∧ s = l ++ rest := by
  by_cases hnl : nl ∈ s
  · obtain ⟨l', rest', hl', rfl⟩ := exists_line_append hnl
    rw [takeLine_line_append hl'] at h
    cases h
    exact ⟨hl', rfl⟩
  · rw [takeLine_eq_none hnl] at h
    cases h

/-- Only an empty list of lines spells a stream without terminator. -/
theorem eq_nil_of_flatten
    {ls : List (List α)} (hls : ∀ l ∈ ls, IsLine nl l) (h : nl ∉ ls.flatten) :
    ls = [] := by
  cases ls with
  | nil => rfl
  | cons l ls =>
      have hl := (hls l (by simp)).terminated
      exact absurd (by simp [hl]) h

/-- The first part of a stream of lines. -/
theorem flatten_eq_append
    {ls : List (List α)} {u v : List α} (hls : ∀ l ∈ ls, IsLine nl l)
    (h : u ++ v = ls.flatten) :
    ∃ a b part, ls = a ++ b ∧ u = a.flatten ++ part ∧ nl ∉ part ∧
      part ++ v = b.flatten := by
  induction ls generalizing u with
  | nil =>
      obtain ⟨rfl, rfl⟩ := List.append_eq_nil_iff.mp h
      exact ⟨[], [], [], by simp⟩
  | cons l ls ih =>
      rw [List.flatten_cons] at h
      rcases List.append_eq_append_iff.mp h with ⟨c, hl, hv⟩ | ⟨c, rfl, hc⟩
      · by_cases hu : nl ∈ u
        · obtain ⟨l', rest, hl', rfl⟩ : ∃ l' rest, IsLine nl l' ∧ u = l' ++ rest := by
            classical exact exists_line_append hu
          have hcut : l ++ [] = l' ++ (rest ++ c) := by
            rw [List.append_nil, hl, List.append_assoc]
          obtain ⟨rfl, hrest⟩ := (hls l (by simp)).append_inj hl' hcut
          obtain ⟨rfl, rfl⟩ := List.append_eq_nil_iff.mp hrest.symm
          exact ⟨[l], ls, [], rfl, by simp, by simp, by simpa using hv⟩
        · exact ⟨[], l :: ls, u, rfl, rfl, hu, by simpa using h⟩
      · obtain ⟨a, b, part, rfl, rfl, hpart, hb⟩ :=
          ih (fun m hm => hls m (by simp [hm])) hc.symm
        exact ⟨l :: a, b, part, rfl, by simp, hpart, hb⟩

/-- Every stream is some complete lines and a part of one. -/
theorem exists_lines (nl : α) (s : List α) :
    ∃ (ls : List (List α)) (part : List α),
      (∀ l ∈ ls, IsLine nl l) ∧ nl ∉ part ∧ s = ls.flatten ++ part := by
  induction s using List.reverseRecOn with
  | nil => exact ⟨[], [], by simp, by simp, rfl⟩
  | append_singleton s c ih =>
      obtain ⟨ls, part, hls, hpart, rfl⟩ := ih
      by_cases hc : c = nl
      · subst hc
        refine ⟨ls ++ [part ++ [c]], [], ?_, by simp, by simp⟩
        intro l hl
        rcases List.mem_append.mp hl with hl | hl
        · exact hls l hl
        · exact ⟨part, hpart, List.mem_singleton.mp hl⟩
      · exact ⟨ls, part ++ [c], hls, by simp [hpart, Ne.symm hc], by simp⟩

/-- What is left after the complete lines is read as one more line, if it is not
empty. -/
theorem split_flatten_append
    [DecidableEq α] {ls : List (List α)} {part : List α}
    (hls : ∀ l ∈ ls, IsLine nl l) (hpart : nl ∉ part) :
    split nl (ls.flatten ++ part) = ls ++ if part = [] then [] else [part] := by
  have hrest : ∀ part : List α, nl ∉ part →
      split nl part = if part = [] then [] else [part] := by
    intro part hpart
    induction part with
    | nil => rfl
    | cons c cs ih =>
        have hc : c ≠ nl := by
          rintro rfl
          exact hpart (by simp)
        rw [split, if_neg hc, ih fun hm => hpart (by simp [hm])]
        by_cases hcs : cs = [] <;> simp [hcs]
  induction ls with
  | nil => exact hrest part hpart
  | cons l ls ih =>
      rw [List.flatten_cons, List.append_assoc, split_line_append (hls l (by simp)),
        ih fun m hm => hls m (by simp [hm])]
      rfl

theorem completeLines_flatten_append
    [DecidableEq α] {ls : List (List α)} {part : List α}
    (hls : ∀ l ∈ ls, IsLine nl l) (hpart : nl ∉ part) :
    completeLines nl (ls.flatten ++ part) = ls := by
  have hfilter : ls.filter (nl ∈ ·) = ls :=
    List.filter_eq_self.mpr fun l hl => by simpa using (hls l hl).terminated
  rw [completeLines, split_flatten_append hls hpart, List.filter_append, hfilter]
  split <;> simp [hpart]

end Lines
end Rexec
