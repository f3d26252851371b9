import Mathlib.Data.List.Induction
import Mathlib.Tactic.Common

/-!
# Lankeeper.Lib.Machine — runs of event-driven machines

A `Machine` takes one step per event. Which events may happen where is not part
of the machine but a `guard` on the steps of a run, so that one machine serves
several assumptions about its runs.

* `Reachable.invariant` — what holds at the start and is kept by every guarded
  step holds throughout; `Guarded.history` — the same of the events so far;
* `run_iff_guarded_on` — what holds all along a run, as a guard on its steps;
  `run_iff_since` — what holds at its end, by the steps that brought it about;
* `observe` — the machine with a history variable beside it, which sees every
  step and influences none;
* `Guarded.simulates` — where every guarded step is some actions of another system,
  a run is those actions in a row.
-/

namespace Lankeeper.Lib

open List

/-- A machine that takes one step per event. -/
structure Machine (σ ε : Type*) where
  Init : σ → Prop
  step : σ → ε → σ

namespace Machine

variable {σ ε α γ τ : Type*} {M : Machine σ ε} {guard guard' : σ → ε → Prop} {s : σ} {P : σ → Prop}

variable (M) in
/-- The states of runs whose every step meets the guard. -/
inductive Reachable (guard : σ → ε → Prop) : σ → Prop
  | init {s : σ} : M.Init s → Reachable guard s
  | step {s : σ} {e : ε} : Reachable guard s → guard s e → Reachable guard (M.step s e)

/-- **Invariant rule.** -/
theorem Reachable.invariant (hinit : ∀ s, M.Init s → P s)
    (hstep : ∀ s e, P s → guard s e → P (M.step s e)) (h : M.Reachable guard s) : P s := by
  induction h with
  | init hs => exact hinit _ hs
  | step _ hg ih => exact hstep _ _ ih hg

/-! ## Runs as event lists -/

variable (M) in
/-- The state after a list of events. -/
def run (s : σ) (es : List ε) : σ :=
  es.foldl M.step s

theorem run_append (s : σ) (es es' : List ε) : M.run s (es ++ es') = M.run (M.run s es) es' :=
  foldl_append

@[simp] theorem run_concat (s : σ) (es : List ε) (e : ε) :
    M.run s (es ++ [e]) = M.step (M.run s es) e :=
  run_append s es [e]

/-- Every step of a run meets the guard. -/
def Guarded (M : Machine σ ε) (guard : σ → ε → Prop) : σ → List ε → Prop
  | _, [] => True
  | s, e :: es => guard s e ∧ Guarded M guard (M.step s e) es

instance Guarded.decidable [∀ s e, Decidable (guard s e)] :
    (s : σ) → (es : List ε) → Decidable (Guarded M guard s es)
  | _, [] => isTrue trivial
  | s, e :: es =>
    have := Guarded.decidable (M.step s e) es
    inferInstanceAs (Decidable (guard s e ∧ Guarded M guard (M.step s e) es))

variable {es : List ε} {E : ε → Prop} {start : γ} {update : γ → σ → ε → γ}

/-- The guard, at each step of a run. -/
theorem guarded_iff :
    Guarded M guard s es ↔ ∀ pre e, pre ++ [e] <+: es → guard (M.run s pre) e := by
  induction es generalizing s with
  | nil => simp [Guarded]
  | cons e es ih =>
    rw [Guarded, ih]
    constructor
    · rintro ⟨he, hes⟩ pre e' hpre
      rcases pre with _ | ⟨e'', pre⟩
      · rw [nil_append, cons_prefix_cons] at hpre
        rw [hpre.1]
        exact he
      · rw [cons_append, cons_prefix_cons] at hpre
        rw [hpre.1]
        exact hes pre e' hpre.2
    · intro h
      refine ⟨h [] e (by simp), ?_⟩
      intro pre e' hpre
      exact h (e :: pre) e' (cons_prefix_cons.mpr ⟨rfl, hpre⟩)

theorem guarded_append {es es' : List ε} :
    Guarded M guard s (es ++ es') ↔ Guarded M guard s es ∧ Guarded M guard (M.run s es) es' := by
  induction es generalizing s with
  | nil => simp only [nil_append, Guarded, true_and, run, foldl_nil]
  | cons e es ih => simp only [cons_append, Guarded, ih, and_assoc, run, foldl_cons]

theorem Reachable.run (h : M.Reachable guard s) (hes : Guarded M guard s es) :
    M.Reachable guard (M.run s es) := by
  induction es generalizing s with
  | nil => exact h
  | cons e es ih => exact ih (h.step hes.1) hes.2

/-- The invariant rule for what is said of the events of a run and the state they lead to. -/
theorem Guarded.history {P : List ε → σ → Prop} (hs : P [] s)
    (hstep : ∀ pre e, P pre (M.run s pre) → guard (M.run s pre) e →
      P (pre ++ [e]) (M.step (M.run s pre) e)) (hes : Guarded M guard s es) :
    P es (M.run s es) := by
  rw [guarded_iff] at hes
  induction es using reverseRecOn with
  | nil => exact hs
  | append_singleton es e ih =>
    have hpre := ih fun pre e' hpre => hes pre e' (hpre.trans (prefix_append es [e]))
    rw [run_concat]
    exact hstep es e hpre (hes es e (prefix_refl _))

/-- What every step keeps. -/
theorem run_invariant (hstep : ∀ s e, P s → P (M.step s e)) (hs : P s)
    (es : List ε) : P (M.run s es) := by
  induction es generalizing s with
  | nil => exact hs
  | cons e es ih => exact ih (hstep s e hs)

/-- What some steps bring about and others undo holds after a run exactly if it held
before or some step brought it about, and no step since has undone it. -/
theorem run_iff_since {brings undoes : σ → ε → Prop}
    (hstep : ∀ s e, E e → (P (M.step s e) ↔ brings s e ∨ P s ∧ ¬ undoes s e)) (s : σ)
    (hes : ∀ e ∈ es, E e) :
    P (M.run s es) ↔ (P s ∧ Guarded M (fun s e => ¬ undoes s e) s es) ∨
      ∃ pre e rest, es = pre ++ e :: rest ∧ brings (M.run s pre) e ∧
        Guarded M (fun s e => ¬ undoes s e) (M.run s (pre ++ [e])) rest := by
  induction es generalizing s with
  | nil => simp [run, Guarded]
  | cons e es ih =>
    have hrun : M.run s (e :: es) = M.run (M.step s e) es := rfl
    have hes' : ∀ e ∈ es, E e := fun e' he' => hes e' (mem_cons_of_mem e he')
    rw [hrun, ih (M.step s e) hes', hstep s e (hes e mem_cons_self)]
    constructor
    · rintro (⟨hbrings | ⟨hP, hkept⟩, hrest⟩ | ⟨pre, e', rest, rfl, hbrings, hrest⟩)
      · exact .inr ⟨[], e, es, rfl, hbrings, hrest⟩
      · exact .inl ⟨hP, hkept, hrest⟩
      · exact .inr ⟨e :: pre, e', rest, rfl, hbrings, hrest⟩
    · rintro (⟨hP, hkept, hrest⟩ | ⟨pre, e', rest, heq, hbrings, hrest⟩)
      · exact .inl ⟨.inr ⟨hP, hkept⟩, hrest⟩
      -- the step is the first of the run, or one behind it
      rcases pre with _ | ⟨e'', pre⟩
      · rw [nil_append, List.cons.injEq] at heq
        rw [heq.1, heq.2]
        exact .inl ⟨.inl hbrings, hrest⟩
      · rw [cons_append, List.cons.injEq] at heq
        rw [heq.1]
        exact .inr ⟨pre, e', rest, heq.2, hbrings, hrest⟩

/-- What no step undoes holds after a run exactly if it held before or some step of the
run brought it about. -/
theorem run_iff_brought {brings : σ → ε → Prop}
    (hstep : ∀ s e, P (M.step s e) ↔ P s ∨ brings s e) (s : σ) (es : List ε) :
    P (M.run s es) ↔ P s ∨ ∃ pre e, pre ++ [e] <+: es ∧ brings (M.run s pre) e := by
  have hkept (s : σ) (es : List ε) : Guarded M (fun _ _ => ¬ False) s es :=
    guarded_iff.mpr fun _ _ _ => not_false
  have hstep' : ∀ s e, True → (P (M.step s e) ↔ brings s e ∨ P s ∧ ¬ False) := by
    intro s e _
    rw [hstep, or_comm, not_false_iff, and_true]
  refine (run_iff_since hstep' s fun _ _ => trivial).trans ?_
  refine or_congr (and_iff_left (hkept s es)) (exists_congr fun pre => exists_congr fun e => ?_)
  constructor
  · rintro ⟨rest, rfl, h, -⟩
    exact ⟨⟨rest, by simp⟩, h⟩
  · rintro ⟨⟨rest, rfl⟩, h⟩
    exact ⟨rest, by simp, h, hkept _ _⟩

/-- What has to hold all along a run does so exactly if every step meets the guard, once
the guard says when it is kept, by the help of more than itself. Only the events of the
run have to be looked at. -/
theorem run_iff_guarded_strengthened {J P : σ → Prop} (hJ : ∀ s, J s → P s)
    (hguard : ∀ s e, E e → J s → P (M.step s e) → guard s e)
    (hkeep : ∀ s e, E e → J s → guard s e → J (M.step s e)) (hs : J s) (hes : ∀ e ∈ es, E e) :
    (∀ pre, pre <+: es → P (M.run s pre)) ↔ Guarded M guard s es := by
  induction es generalizing s with
  | nil =>
    constructor
    · intro _
      trivial
    · intro _ pre hpre
      rw [prefix_nil.mp hpre]
      exact hJ s hs
  | cons e es ih =>
    have he : E e := hes e mem_cons_self
    have hes' : ∀ e ∈ es, E e := fun e' he' => hes e' (mem_cons_of_mem e he')
    constructor
    · intro h
      have hg : guard s e := hguard s e he hs (h [e] (by simp))
      refine ⟨hg, (ih (hkeep s e he hs hg) hes').mp ?_⟩
      intro pre hpre
      exact h (e :: pre) (cons_prefix_cons.mpr ⟨rfl, hpre⟩)
    · rintro ⟨hg, hguarded⟩ pre hpre
      rcases pre with _ | ⟨e', pre⟩
      · exact hJ s hs
      · obtain ⟨rfl, htail⟩ := cons_prefix_cons.mp hpre
        exact (ih (hkeep s e' he hs hg) hes').mpr hguarded pre htail

/-- What holds at the start of a run, where the guard says exactly when a step from a state
with the invariant keeps it. -/
theorem run_iff_guarded_on {I P : σ → Prop} (hinv : ∀ s e, E e → I s → I (M.step s e))
    (hstep : ∀ s e, E e → I s → P s → (P (M.step s e) ↔ guard s e)) (hI : I s) (hs : P s)
    (hes : ∀ e ∈ es, E e) : (∀ pre, pre <+: es → P (M.run s pre)) ↔ Guarded M guard s es :=
  run_iff_guarded_strengthened (J := fun s => I s ∧ P s) (fun _ h => h.2)
    (fun s e he h => (hstep s e he h.1 h.2).mp)
    (fun s e he h hg => ⟨hinv s e he h.1, (hstep s e he h.1 h.2).mpr hg⟩) ⟨hI, hs⟩ hes

theorem run_iff_guarded_of_invariant {I P : σ → Prop} (hinv : ∀ s e, I s → I (M.step s e))
    (hstep : ∀ s e, I s → P s → (P (M.step s e) ↔ guard s e)) (hI : I s) (hs : P s)
    (es : List ε) : (∀ pre, pre <+: es → P (M.run s pre)) ↔ Guarded M guard s es :=
  run_iff_guarded_on (E := fun _ => True) (fun s e _ => hinv s e) (fun s e _ => hstep s e) hI hs
    (fun _ _ => trivial)

theorem run_iff_guarded (hstep : ∀ s e, P s → (P (M.step s e) ↔ guard s e))
    (hs : P s) (es : List ε) : (∀ pre, pre <+: es → P (M.run s pre)) ↔ Guarded M guard s es :=
  run_iff_guarded_of_invariant (I := fun _ => True) (fun _ _ _ => trivial)
    (fun s e _ => hstep s e) trivial hs es

/-! ## History variables -/

variable (M) in
/-- The machine with a history variable beside it. -/
def observe (start : γ) (update : γ → σ → ε → γ) : Machine (σ × γ) ε where
  Init x := M.Init x.1 ∧ x.2 = start
  step x e := (M.step x.1 e, update x.2 x.1 e)

theorem observe_run_fst (s : σ) (g : γ) (es : List ε) :
    ((M.observe start update).run (s, g) es).1 = M.run s es := by
  induction es generalizing s g with
  | nil => rfl
  | cons e es ih => exact ih ..

/-! ## Simulation -/

variable (M) in
/-- What a run does, in the actions of another system. -/
def trace (acts : σ → ε → List α) : σ → List ε → List α
  | _, [] => []
  | s, e :: es => acts s e ++ trace acts (M.step s e) es

/-- **Simulation rule**: where the actions of every guarded step can be taken, those of
a run can. -/
theorem Guarded.simulates {acts : σ → ε → List α} {next : τ → α → Option τ} {R : σ → τ → Prop}
    (hstep : ∀ s e a, R s a → guard s e →
      ∃ a', (acts s e).foldlM next a = some a' ∧ R (M.step s e) a')
    {a : τ} (hs : R s a) (hes : Guarded M guard s es) :
    ∃ a', (M.trace acts s es).foldlM next a = some a' ∧ R (M.run s es) a' := by
  induction es generalizing s a with
  | nil => exact ⟨a, rfl, hs⟩
  | cons e es ih =>
    obtain ⟨a₁, hacts, hr⟩ := hstep s e a hs hes.1
    obtain ⟨a₂, htrace, hr'⟩ := ih hr hes.2
    refine ⟨a₂, ?_, hr'⟩
    rw [trace, foldlM_append, hacts]
    exact htrace

end Machine

end Lankeeper.Lib
