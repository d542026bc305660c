import Mathlib.Tactic
import Mathlib.Data.List.TakeWhile

/-!
# Machines given by a partial step function

A machine is a function `step : σ → ε → Option σ`: the label `e` carries every
choice the environment makes, and `none` says that `e` is not enabled in the
current state.  A run is a list of labels performed in order.

The module has the three rules every development over such a machine uses:

* `run_induction`: a property of the pair (labels performed, state reached)
  that holds at the start and survives one step holds along every run;
* `run_invariant`: the same for a property of the state alone;
* `run_invariant_along`: the same when every step of the run meets a side
  condition `G` in the state it is taken from.

`run_countP_le` counts labels by what they use up, and `run_le_peak` is the rule for
a bound by the largest size of a state so far.  It ends with families of machines,
where one component moves at a time.
-/

namespace Rexec
namespace Machine

universe u v w

section Runs

variable {σ : Type u} {ε : Type v} (step : σ → ε → Option σ)

/-- Perform a list of labels; the run fails at the first one not enabled. -/
def run : σ → List ε → Option σ
  | s, [] => some s
  | s, e :: es => (step s e).bind fun t => run t es

@[simp] theorem run_nil (s : σ) : run step s [] = some s := rfl

theorem run_cons (s : σ) (e : ε) (es : List ε) :
    run step s (e :: es) = (step s e).bind fun t => run step t es := rfl

theorem run_append (s : σ) (es fs : List ε) :
    run step s (es ++ fs) = (run step s es).bind fun t => run step t fs := by
  induction es generalizing s with
  | nil => rfl
  | cons e es ih =>
      rw [List.cons_append, run_cons, run_cons, Option.bind_assoc]
      congr 1
      funext t
      exact ih t

/-- Peel the last label off a successful run. -/
theorem run_concat {s t : σ} {es : List ε} {e : ε} :
    run step s (es ++ [e]) = some t ↔
      ∃ m, run step s es = some m ∧ step m e = some t := by
  rw [run_append, Option.bind_eq_some_iff]
  constructor
  · rintro ⟨m, hm, hstep⟩
    exact ⟨m, hm, by simpa [run_cons] using hstep⟩
  · rintro ⟨m, hm, hstep⟩
    exact ⟨m, hm, by simpa [run_cons] using hstep⟩

/-- A run of one step. -/
theorem run_singleton {s t : σ} {e : ε} (h : step s e = some t) :
    run step s [e] = some t := by
  rw [run_cons, h]
  rfl

theorem run_of_cons {s m t : σ} {e : ε} {es : List ε} (h : step s e = some m)
    (hrun : run step m es = some t) : run step s (e :: es) = some t := by
  rw [run_cons, h]
  exact hrun

theorem run_of_append {s m t : σ} {es fs : List ε} (h : run step s es = some m)
    (hrun : run step m fs = some t) : run step s (es ++ fs) = some t := by
  rw [run_append, h]
  exact hrun

/-- A run of a machine is a run of the machine it is a part of. -/
theorem run_map {τ δ : Type*} {step : σ → ε → Option σ} {wide : τ → δ → Option τ}
    (f : σ → τ) (g : ε → δ)
    (hstep : ∀ s e t, step s e = some t → wide (f s) (g e) = some (f t)) {s t : σ}
    {es : List ε} (hrun : run step s es = some t) : run wide (f s) (es.map g) = some (f t) := by
  induction es generalizing s with
  | nil =>
      cases hrun
      rfl
  | cons e es ih =>
      rw [run_cons, Option.bind_eq_some_iff] at hrun
      obtain ⟨m, hm, hrest⟩ := hrun
      exact run_of_cons wide (hstep s e m hm) (ih hrest)

/-- Every prefix of a run is a run. -/
theorem run_split {s t : σ} {es fs : List ε}
    (h : run step s (es ++ fs) = some t) :
    ∃ m, run step s es = some m ∧ run step m fs = some t := by
  rw [run_append, Option.bind_eq_some_iff] at h
  exact h

/-- The step of a run that takes a given event of it. -/
theorem exists_step_of_run {s t : σ} {es fs : List ε} {e : ε}
    (h : run step s (es ++ e :: fs) = some t) :
    ∃ m m', run step s es = some m ∧ step m e = some m' := by
  obtain ⟨m, hm, hrest⟩ := run_split step h
  rw [run_cons, Option.bind_eq_some_iff] at hrest
  obtain ⟨m', hstep, -⟩ := hrest
  exact ⟨m, m', hm, hstep⟩

variable {step}

/-- Induction on a run, from its first state, adding one label at the end. -/
theorem run_induction {s₀ : σ} {P : List ε → σ → Prop}
    (hinit : P [] s₀)
    (hstep : ∀ es s e t,
      run step s₀ es = some s → P es s → step s e = some t → P (es ++ [e]) t)
    {es : List ε} {s : σ} (h : run step s₀ es = some s) :
    P es s := by
  induction es using List.reverseRecOn generalizing s with
  | nil =>
      cases h
      exact hinit
  | append_singleton es e ih =>
      obtain ⟨m, hm, hlast⟩ := (run_concat step).mp h
      exact hstep es m e s hm (ih hm) hlast

/-- An invariant of the step function holds along every run. -/
theorem run_invariant {I : σ → Prop}
    (hstep : ∀ s e t, I s → step s e = some t → I t)
    {s t : σ} {es : List ε} (hs : I s) (h : run step s es = some t) :
    I t :=
  run_induction (P := fun _ s => I s) hs (fun _ s e t _ hI he => hstep s e t hI he) h

/-- Along a run, every step meets `G` in the state it is taken from. -/
def Along (step : σ → ε → Option σ) (G : σ → ε → Prop) : σ → List ε → Prop
  | _, [] => True
  | s, e :: es => G s e ∧ ∀ t, step s e = some t → Along step G t es

theorem along_of_cons {G : σ → ε → Prop} {s t : σ} {e : ε} {es : List ε} (h : G s e)
    (hstep : step s e = some t) (hrest : Along step G t es) : Along step G s (e :: es) := by
  refine ⟨h, fun m hm => ?_⟩
  rw [hstep] at hm
  cases hm
  exact hrest

theorem along_append {G : σ → ε → Prop} {s : σ} {es fs : List ε} :
    Along step G s (es ++ fs) ↔
      Along step G s es ∧ ∀ m, run step s es = some m → Along step G m fs := by
  induction es generalizing s with
  | nil => simp [Along]
  | cons e es ih =>
      simp only [List.cons_append, Along, ih, run_cons, Option.bind_eq_some_iff]
      constructor
      · rintro ⟨hG, hrest⟩
        refine ⟨⟨hG, fun t ht => (hrest t ht).1⟩, ?_⟩
        rintro m ⟨t, ht, hm⟩
        exact (hrest t ht).2 m hm
      · rintro ⟨⟨hG, hrest⟩, hlast⟩
        exact ⟨hG, fun t ht => ⟨hrest t ht, fun m hm => hlast m ⟨t, ht, hm⟩⟩⟩

/-- Labels that meet `G` in every state. -/
theorem along_of_forall {G : σ → ε → Prop} {s : σ} {es : List ε}
    (h : ∀ e ∈ es, ∀ s, G s e) :
    Along step G s es := by
  induction es generalizing s with
  | nil => trivial
  | cons e es ih => exact ⟨h e (by simp) s, fun t _ => ih fun e' he' => h e' (by simp [he'])⟩

theorem along_and {G H : σ → ε → Prop} {s : σ} {es : List ε}
    (hG : Along step G s es) (hH : Along step H s es) :
    Along step (fun s e => G s e ∧ H s e) s es := by
  induction es generalizing s with
  | nil => trivial
  | cons e es ih => exact ⟨⟨hG.1, hH.1⟩, fun t ht => ih (hG.2 t ht) (hH.2 t ht)⟩

/-- The side condition at the last label of a run. -/
theorem along_concat {G : σ → ε → Prop} {s m : σ} {es : List ε} {e : ε}
    (h : Along step G s (es ++ [e])) (hm : run step s es = some m) :
    Along step G s es ∧ G m e := by
  obtain ⟨hpre, hlast⟩ := along_append.mp h
  exact ⟨hpre, (hlast m hm).1⟩

/-- `run_induction` for runs whose steps all meet `G`. -/
theorem run_induction_along {G : σ → ε → Prop} {s₀ : σ} {P : List ε → σ → Prop}
    (hinit : P [] s₀)
    (hstep : ∀ es s e t,
      run step s₀ es = some s → P es s → G s e → step s e = some t → P (es ++ [e]) t)
    {es : List ε} {s : σ}
    (hG : Along step G s₀ es) (h : run step s₀ es = some s) :
    P es s := by
  induction es using List.reverseRecOn generalizing s with
  | nil =>
      cases h
      exact hinit
  | append_singleton es e ih =>
      obtain ⟨m, hm, hlast⟩ := (run_concat step).mp h
      obtain ⟨hpre, hlastG⟩ := along_concat hG hm
      exact hstep es m e s hm (ih hpre hm) hlastG hlast

/-- `run_invariant` for runs whose steps all meet `G`. -/
theorem run_invariant_along {G : σ → ε → Prop} {I : σ → Prop}
    (hstep : ∀ s e t, I s → G s e → step s e = some t → I t)
    {s t : σ} {es : List ε}
    (hs : I s) (hG : Along step G s es) (h : run step s es = some t) :
    I t :=
  run_induction_along (P := fun _ s => I s) hs
    (fun _ s e t _ hI hGe he => hstep s e t hI hGe he) hG h

end Runs

section Traces

variable {ε : Type v}

/-- What stands at a position of a trace with one more label. -/
theorem getElem?_concat {es : List ε} {e x : ε} {i : Nat} :
    (es ++ [e])[i]? = some x ↔ es[i]? = some x ∨ (i = es.length ∧ e = x) := by
  rcases Nat.lt_trichotomy i es.length with hlt | rfl | hgt
  · rw [List.getElem?_append_left hlt]
    constructor
    · exact Or.inl
    · rintro (h | ⟨rfl, -⟩)
      · exact h
      · omega
  · simp
  · have hlong : es.length + 1 ≤ i := hgt
    have hnone : (es ++ [e])[i]? = none := by simpa using hlong
    have hnone' : es[i]? = none := by
      rw [List.getElem?_eq_none_iff]
      omega
    rw [hnone, hnone']
    constructor
    · intro h
      cases h
    · rintro (h | ⟨rfl, -⟩)
      · cases h
      · omega

theorem mem_concat_of_ne {es : List ε} {e x : ε} (hx : x ≠ e) : x ∈ es ++ [e] ↔ x ∈ es := by
  rw [List.mem_append, List.mem_singleton]
  exact ⟨fun hmem => hmem.resolve_right hx, .inl⟩

theorem lt_length_of_getElem? {es : List ε} {x : ε} {i : Nat}
    (h : es[i]? = some x) : i < es.length :=
  (List.getElem?_eq_some_iff.mp h).1

/-- A longer trace keeps the places of a shorter one. -/
theorem getElem?_of_prefix {es fs : List ε} {x : ε} {i : Nat} (h : es <+: fs)
    (hi : es[i]? = some x) : fs[i]? = some x := by
  obtain ⟨gs, rfl⟩ := h
  rw [List.getElem?_append_left (lt_length_of_getElem? hi)]
  exact hi

/-- Some label of the trace meets `p`, and every label behind it meets `q`. -/
def Since (es : List ε) (p q : ε → Prop) : Prop :=
  ∃ before x after, es = before ++ x :: after ∧ p x ∧ ∀ y ∈ after, q y

theorem since_here {es : List ε} {p q : ε → Prop} {e : ε} (h : p e) :
    Since (es ++ [e]) p q :=
  ⟨es, e, [], rfl, h, by simp⟩

theorem Since.concat {es : List ε} {p q : ε → Prop} {e : ε}
    (h : Since es p q) (he : q e) : Since (es ++ [e]) p q := by
  obtain ⟨before, x, after, rfl, hx, hafter⟩ := h
  refine ⟨before, x, after ++ [e], by simp, hx, ?_⟩
  intro y hy
  rcases List.mem_append.mp hy with hy | hy
  · exact hafter y hy
  · rw [List.mem_singleton.mp hy]
    exact he

/-- What no later label can do as long as `Since` holds, none of them has done. -/
theorem Since.and {es : List ε} {p q r : ε → Prop} (h : Since es p q)
    (hr : ∀ before x after, es = before ++ x :: after → Since before p q → r x) :
    Since es p fun y => q y ∧ r y := by
  obtain ⟨before, x, after, rfl, hx, hafter⟩ := h
  refine ⟨before, x, after, rfl, hx, fun y hy => ⟨hafter y hy, ?_⟩⟩
  obtain ⟨front, back, rfl⟩ := List.append_of_mem hy
  refine hr (before ++ x :: front) y back (by simp) ⟨before, x, front, rfl, hx, ?_⟩
  intro z hz
  exact hafter z (by simp [hz])

/-- Where the last label stands that meets `p`. -/
theorem split_last_unique {p : ε → Prop} {front front' after after' : List ε} {x x' : ε}
    (h : front ++ x :: after = front' ++ x' :: after') (hx : p x) (hx' : p x')
    (hafter : ∀ y ∈ after, ¬ p y) (hafter' : ∀ y ∈ after', ¬ p y) :
    front = front' ∧ x = x' ∧ after = after' := by
  rcases List.append_eq_append_iff.mp h with ⟨mid, rfl, hmid⟩ | ⟨mid, rfl, hmid⟩
  · cases mid with
    | nil =>
        obtain ⟨rfl, rfl⟩ := List.cons_eq_cons.mp hmid
        exact ⟨(List.append_nil _).symm, rfl, rfl⟩
    | cons y mid =>
        obtain ⟨rfl, rfl⟩ := List.cons_eq_cons.mp hmid
        exact absurd hx' (hafter _ (by simp))
  · cases mid with
    | nil =>
        obtain ⟨rfl, rfl⟩ := List.cons_eq_cons.mp hmid
        exact ⟨List.append_nil _, rfl, rfl⟩
    | cons y mid =>
        obtain ⟨rfl, rfl⟩ := List.cons_eq_cons.mp hmid
        exact absurd hx (hafter' _ (by simp))

/-- The labels before the first one that meets `p`. -/
def before (p : ε → Bool) (es : List ε) : List ε :=
  es.takeWhile fun e => !p e

section Before

variable {p : ε → Bool} {es : List ε}

theorem before_of_none (h : es.any p = false) : before p es = es := by
  rw [before, List.takeWhile_eq_self_iff]
  intro e he
  rw [List.any_eq_false] at h
  simpa using h e he

theorem before_append_cons {e : ε} {fs : List ε} (h : es.any p = false) (he : p e = true) :
    before p (es ++ e :: fs) = es := by
  rw [List.any_eq_false] at h
  have hes : ∀ x ∈ es, (!p x) = true := fun x hx => by simpa using h x hx
  rw [before, List.takeWhile_append_of_pos hes, List.takeWhile_cons]
  simp [he]

/-- What one more label adds: nothing, as soon as some label meets `p`. -/
theorem before_concat (p : ε → Bool) (es : List ε) (e : ε) :
    before p (es ++ [e]) = if es.any p || p e then before p es else es ++ [e] := by
  induction es with
  | nil => cases h : p e <;> simp [before, h]
  | cons a es ih =>
      cases ha : p a with
      | true => simp [before, ha]
      | false =>
          have hcons : ∀ fs, before p (a :: fs) = a :: before p fs := fun fs => by
            simp [before, ha]
          rw [List.cons_append, hcons, hcons, ih, List.any_cons, ha, Bool.false_or]
          split <;> rfl

end Before

/-- What the last label that has a value of `f` tells. -/
def latest {α : Type w} (f : ε → Option α) (es : List ε) : Option α :=
  (es.filterMap f).getLast?

theorem latest_append {α : Type w} (f : ε → Option α) (es fs : List ε) :
    latest f (es ++ fs) = (latest f fs).or (latest f es) := by
  rw [latest, List.filterMap_append, List.getLast?_append]
  rfl

theorem latest_concat {α : Type w} (f : ε → Option α) (es : List ε) (e : ε) :
    latest f (es ++ [e]) = (f e).or (latest f es) := by
  rw [latest_append]
  cases h : f e <;> simp [latest, h]

end Traces

section Measure

variable {σ : Type u} {ε : Type v} {step : σ → ε → Option σ}

/--
Reachability by a measure: if, as long as the goal is not met, some label leads
to a state of the region with a smaller measure, then a run meets the goal.
-/
theorem exists_run_of_measure {I goal : σ → Prop} {ok : ε → Prop} (size : σ → Nat)
    (hstep : ∀ s, I s → ¬ goal s →
      ∃ e t, ok e ∧ step s e = some t ∧ I t ∧ size t < size s)
    (s : σ) (hs : I s) :
    ∃ es t, (∀ e ∈ es, ok e) ∧ run step s es = some t ∧ I t ∧ goal t := by
  by_cases hgoal : goal s
  · exact ⟨[], s, by simp, rfl, hs, hgoal⟩
  · obtain ⟨e, m, hok, hm, hI, hlt⟩ := hstep s hs hgoal
    obtain ⟨es, t, hall, hrun, ht, hgoal'⟩ :=
      exists_run_of_measure size hstep m hI
    refine ⟨e :: es, t, ?_, ?_, ht, hgoal'⟩
    · intro e' he'
      rcases List.mem_cons.mp he' with rfl | he'
      · exact hok
      · exact hall e' he'
    · rw [run_cons, hm]
      exact hrun
termination_by size s

/-- Labels that each use up some of a budget are at most as many as the budget. -/
theorem run_countP_le {I : σ → Prop} (counts : ε → Bool) (used : σ → Nat)
    (hstep : ∀ s e t, I s → step s e = some t → I t ∧ used s + (counts e).toNat ≤ used t)
    {s t : σ} {es : List ε} (hs : I s) (h : run step s es = some t) :
    es.countP counts ≤ used t := by
  refine (run_induction (P := fun es t => I t ∧ es.countP counts ≤ used t)
    ⟨hs, Nat.zero_le _⟩ ?_ h).2
  intro es t e u _ ⟨hI, hle⟩ he
  obtain ⟨hI', hused⟩ := hstep t e u hI he
  refine ⟨hI', ?_⟩
  rw [List.countP_append, List.countP_singleton]
  cases hcounts : counts e
  · simp only [hcounts, Bool.toNat_false] at hused
    simp only [Bool.false_eq_true, if_false]
    omega
  · simp only [hcounts, Bool.toNat_true] at hused
    simp only [if_true]
    omega

end Measure

section Peak

variable {σ : Type u} {ε : Type v} (step : σ → ε → Option σ) (size : σ → Nat)

/-- The largest size of a state on the run. -/
def peak : σ → List ε → Nat
  | s, [] => size s
  | s, e :: es => max (size s) ((step s e).elim 0 fun t => peak t es)

variable {step}

theorem peak_concat {s m t : σ} {es : List ε} {e : ε} (hm : run step s es = some m)
    (ht : step m e = some t) :
    peak step size s (es ++ [e]) = max (peak step size s es) (size t) := by
  induction es generalizing s with
  | nil =>
      cases hm
      simp [peak, ht]
  | cons e' es ih =>
      rw [run_cons, Option.bind_eq_some_iff] at hm
      obtain ⟨s', hs', hm⟩ := hm
      simp only [List.cons_append, peak, hs', Option.elim_some]
      rw [ih hm, max_assoc]

/-- A quantity that a step raises only as far as the size then stays below the peak. -/
theorem run_le_peak {I : σ → Prop} (quantity : σ → Nat) {c : Nat} {s₀ : σ}
    (hs : I s₀) (hinit : quantity s₀ ≤ c + size s₀)
    (hstep : ∀ s e t, I s → step s e = some t →
      I t ∧ (quantity t ≤ quantity s ∨ quantity t ≤ c + size t))
    {es : List ε} {s : σ} (h : run step s₀ es = some s) :
    I s ∧ quantity s ≤ c + peak step size s₀ es := by
  refine run_induction (P := fun es s => I s ∧ quantity s ≤ c + peak step size s₀ es)
    ⟨hs, hinit⟩ ?_ h
  intro es s e t hrun ⟨hI, hle⟩ ht
  obtain ⟨hI', hquantity⟩ := hstep s e t hI ht
  refine ⟨hI', ?_⟩
  rw [peak_concat size hrun ht]
  have hpeak := le_max_left (peak step size s₀ es) (size t)
  have hsize := le_max_right (peak step size s₀ es) (size t)
  rcases hquantity with hquantity | hquantity
  · omega
  · omega

end Peak

section Families

variable {ι : Type u} {σ : Type v} [DecidableEq ι]

/-- A property of every component survives a move of one of them. -/
theorem forall_update {P : ι → σ → Prop} {f : ι → σ} {i : ι} {s : σ}
    (hf : ∀ j, P j (f j)) (hs : P i s) :
    ∀ j, P j (Function.update f i s j) := by
  intro j
  by_cases hj : j = i
  · subst hj
    simpa using hs
  · simpa [Function.update_of_ne hj] using hf j

end Families

end Machine
end Rexec
