import Mathlib.Data.List.Basic

/-!
# Runs

A machine takes one event after the other. `Every` says that something holds
at each event of a run, in the state the event meets. Two such properties that
agree on every single event, where an invariant holds, agree on whole runs
(`every_iff`); one that each event meets and that keeps the invariant holds at
every event (`every_of_invariant`).
-/

namespace Runs

variable {S E : Type}

/-- The state the events lead to. -/
def run (step : S → E → S) (s : S) (events : List E) : S := events.foldl step s

/-- `P` holds at every event, in the state reached before it. -/
def Every (step : S → E → S) (P : S → E → Prop) (s : S) (events : List E) : Prop :=
  ∀ before e after, events = before ++ e :: after → P (run step s before) e

/-- What the events of a run give, one after the other. -/
def collect {α : Type} (step : S → E → S) (f : S → E → List α) (s : S) : List E → List α
  | [] => []
  | e :: events => f s e ++ collect step f (step s e) events

variable {step : S → E → S} {P Q : S → E → Prop} {I : S → Prop} {A : E → Prop}

@[simp] theorem run_nil : run step s [] = s := rfl
@[simp] theorem run_cons : run step s (e :: events) = run step (step s e) events := rfl

theorem run_append (s : S) (events events' : List E) :
    run step s (events ++ events') = run step (run step s events) events' :=
  List.foldl_append

theorem collect_append {α : Type} (f : S → E → List α) (s : S) (events events' : List E) :
    collect step f s (events ++ events') =
      collect step f s events ++ collect step f (run step s events) events' := by
  induction events generalizing s with
  | nil => rfl
  | cons e events ih => rw [List.cons_append, collect, collect, ih, run_cons, List.append_assoc]

theorem every_nil : Every step P s [] := by
  intro before e after h
  simp at h

theorem every_cons : Every step P s (e :: events) ↔ P s e ∧ Every step P (step s e) events := by
  constructor
  · intro h
    refine ⟨h [] e events rfl, fun before e' after he => ?_⟩
    exact h (e :: before) e' after (by rw [he, List.cons_append])
  · rintro ⟨hP, h⟩ before e' after he
    cases before with
    | nil =>
      obtain ⟨rfl, rfl⟩ := List.cons.inj he
      exact hP
    | cons e'' before =>
      obtain ⟨rfl, rfl⟩ := List.cons.inj he
      exact h before e' after rfl

theorem every_append : Every step P s (events ++ events') ↔
    Every step P s events ∧ Every step P (run step s events) events' := by
  induction events generalizing s with
  | nil => exact ⟨fun h => ⟨every_nil, h⟩, fun h => h.2⟩
  | cons e events ih => rw [List.cons_append, every_cons, every_cons, ih, run_cons, and_assoc]

theorem every_event {C : E → Prop} : Every step (fun _ e => C e) s events ↔ ∀ e ∈ events, C e := by
  constructor
  · intro h e he
    obtain ⟨before, after, rfl⟩ := List.append_of_mem he
    exact h before e after rfl
  · rintro h before e after rfl
    exact h e (by simp)

/-- Properties that agree wherever the invariant holds agree on runs. -/
theorem every_iff (hs : I s) (he : ∀ e ∈ events, A e)
    (keep : ∀ s e, I s → A e → P s e → I (step s e))
    (h : ∀ s e, I s → A e → (P s e ↔ Q s e)) :
    Every step P s events ↔ Every step Q s events := by
  induction events generalizing s with
  | nil => exact ⟨fun _ => every_nil, fun _ => every_nil⟩
  | cons e events ih =>
    have hea : A e := he e List.mem_cons_self
    have hrest : ∀ e' ∈ events, A e' := fun e' hm => he e' (List.mem_cons_of_mem _ hm)
    rw [every_cons, every_cons, ← h s e hs hea]
    refine and_congr_right fun hP => ?_
    exact ih (keep s e hs hea hP) hrest

theorem every_of_invariant (hs : I s) (he : ∀ e ∈ events, A e)
    (h : ∀ s e, I s → A e → P s e ∧ I (step s e)) : Every step P s events := by
  have hall : Every step P s events ↔ Every step (fun _ _ => True) s events :=
    every_iff hs he (fun s e hs he _ => (h s e hs he).2)
      (fun s e hs he => iff_of_true (h s e hs he).1 trivial)
  exact hall.mpr fun _ _ _ _ => trivial

end Runs
