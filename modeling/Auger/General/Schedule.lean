import Mathlib.Logic.Function.Basic
import Mathlib.Data.List.Infix

set_option autoImplicit false

/-! Runs of a machine under an arbitrary schedule of its steps. -/

namespace Auger.General.Schedule

variable {σ α : Type} (step : σ → α → σ)

def run (start : σ) (schedule : List α) : σ := schedule.foldl step start

/-- Each step of the schedule is taken where `allowed` lets it. -/
def Guarded (allowed : σ → α → Prop) : σ → List α → Prop
  | _, [] => True
  | s, action :: rest => allowed s action ∧ Guarded allowed (step s action) rest

/-- The states a schedule passes through, the first and the last included. -/
def Visited (start : σ) (schedule : List α) (s : σ) : Prop :=
  ∃ before, before <+: schedule ∧ s = run step start before

@[simp] theorem run_nil (start : σ) : run step start [] = start := rfl

@[simp] theorem run_cons (start : σ) (action : α) (rest : List α) :
    run step start (action :: rest) = run step (step start action) rest := rfl

variable {step} {allowed : σ → α → Prop}

theorem Guarded.append {start : σ} {first second : List α} (guarded : Guarded step allowed start (first ++ second)) :
    Guarded step allowed start first ∧ Guarded step allowed (run step start first) second := by
  induction first generalizing start with
  | nil => exact ⟨trivial, guarded⟩
  | cons action rest ih =>
      obtain ⟨here, later⟩ := guarded
      obtain ⟨before, after⟩ := ih later
      exact ⟨⟨here, before⟩, after⟩

theorem guarded_of_forall {start : σ} {schedule : List α} (each : ∀ action ∈ schedule, ∀ s, allowed s action) :
    Guarded step allowed start schedule := by
  induction schedule generalizing start with
  | nil => trivial
  | cons action rest ih =>
      exact ⟨each action List.mem_cons_self start, ih fun later member => each later (List.mem_cons_of_mem _ member)⟩

theorem run_invariant {inv : σ → Prop}
    (keeps : ∀ s action, inv s → allowed s action → inv (step s action)) {start : σ} {schedule : List α}
    (initial : inv start) (guarded : Guarded step allowed start schedule) : inv (run step start schedule) := by
  induction schedule generalizing start with
  | nil => exact initial
  | cons action rest ih => exact ih (keeps start action initial guarded.1) guarded.2

theorem run_keeps (inv : σ → Prop) (keeps : ∀ s action, inv s → inv (step s action)) {start : σ}
    (schedule : List α) (initial : inv start) : inv (run step start schedule) := by
  induction schedule generalizing start with
  | nil => exact initial
  | cons action rest ih => exact ih (keeps start action initial)

/-- An invariant may also use facts about all states on the way. -/
theorem guarded_of_visited {start : σ} {schedule : List α} {fact : σ → Prop}
    (guarded : Guarded step allowed start schedule) (known : ∀ s, Visited step start schedule s → fact s) :
    Guarded step (fun s action => fact s ∧ allowed s action) start schedule := by
  induction schedule generalizing start with
  | nil => trivial
  | cons action rest ih =>
      refine ⟨⟨known start ⟨[], List.nil_prefix, rfl⟩, guarded.1⟩, ih guarded.2 ?_⟩
      rintro s ⟨before, inside, rfl⟩
      exact known _ ⟨action :: before, List.cons_prefix_cons.mpr ⟨rfl, inside⟩, rfl⟩

section
variable {τ β : Type}

/-- The events a run goes through, where each step tells its own. -/
def trace (step : σ → α → σ) (events : σ → α → List β) : σ → List α → List β
  | _, [] => []
  | s, action :: rest => events s action ++ trace step events (step s action) rest

@[simp] theorem trace_nil (events : σ → α → List β) (start : σ) : trace step events start [] = [] := rfl

@[simp] theorem trace_cons (events : σ → α → List β) (start : σ) (action : α) (rest : List α) :
    trace step events start (action :: rest) = events start action ++ trace step events (step start action) rest :=
  rfl

theorem run_append (start : σ) (first second : List α) :
    run step start (first ++ second) = run step (run step start first) second := List.foldl_append

/-- Steps that are runs of another machine on related states add up to such a run. -/
theorem run_simulates {spec : τ → β → τ} {related : σ → τ → Prop} {events : σ → α → List β}
    (simulates : ∀ s action t, related s t → allowed s action → related (step s action) (run spec t (events s action)))
    {start : σ} {other : τ} {schedule : List α} (initial : related start other)
    (guarded : Guarded step allowed start schedule) :
    related (run step start schedule) (run spec other (trace step events start schedule)) := by
  induction schedule generalizing start other with
  | nil => exact initial
  | cons action rest ih =>
      rw [run_cons, trace_cons, run_append]
      exact ih (simulates start action other initial guarded.1) guarded.2

/-- A machine whose steps are runs of another one, seen through `abs`, runs as it does. -/
theorem run_refines {spec : τ → β → τ} (abs : σ → τ) {events : σ → α → List β} {inv : σ → Prop}
    (keeps : ∀ s action, inv s → allowed s action → inv (step s action))
    (refines : ∀ s action, inv s → allowed s action → abs (step s action) = run spec (abs s) (events s action))
    {start : σ} {schedule : List α} (initial : inv start) (guarded : Guarded step allowed start schedule) :
    abs (run step start schedule) = run spec (abs start) (trace step events start schedule) := by
  have simulates : ∀ s action t, inv s ∧ abs s = t → allowed s action →
      inv (step s action) ∧ abs (step s action) = run spec t (events s action) := by
    rintro s action t ⟨sound, rfl⟩ here
    exact ⟨keeps s action sound here, refines s action sound here⟩
  exact (run_simulates simulates ⟨initial, rfl⟩ guarded).2

end

end Auger.General.Schedule
