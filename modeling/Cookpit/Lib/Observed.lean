import Mathlib.Data.List.Basic

/-!
# Components with one observer

A component holds at most one observer and calls it while a request runs:
begin, any number of updates, end. The observer, or another thread between
two calls, may subscribe and unsubscribe at every call; `react` says when,
as a function of all calls made so far, so that a statement for every
`react` is one for every pattern of re-entrancy.

A computation stops with a `Fault` and keeps the state it stopped in: what
was published, and what was stored, before an exception is thrown stays.
-/

namespace Observed

/-- What a computation can stop with: undefined behaviour, or an exception. -/
inductive Fault (ε : Type)
  | nullObserver
  | outOfBounds
  | thrown (e : ε)
  deriving DecidableEq, Repr

inductive Call (V : Type)
  | onBeginUpdate
  | onUpdate (viewData : V)
  | onEndUpdate
  deriving DecidableEq, Repr

def Call.viewData? : Call V → Option V
  | .onUpdate v => some v
  | _ => none

/-- Observers are told apart by a number. -/
abbrev Observer := Nat

/-- What happens to the subscription between two calls. -/
inductive Lifecycle
  | subscribe (observer : Observer)
  | unsubscribe
  deriving DecidableEq, Repr

def Lifecycle.apply : Option Observer → Lifecycle → Option Observer
  | _, .subscribe o => some o
  | _, .unsubscribe => none

/-- Every call made, in order, with the observer that received it. -/
abbrev Calls (V : Type) := List (Observer × Call V)

abbrev Reaction (V : Type) := Calls V → List Lifecycle

structure State (V σ : Type) where
  observer : Option Observer
  calls : Calls V
  react : Reaction V
  /-- The data members of the component. -/
  self : σ

abbrev M (ε V σ : Type) := ExceptT (Fault ε) (StateM (State V σ))

def State.Quiet (s : State V σ) : Prop := ∀ calls, s.react calls = []

def State.notified (s : State V σ) (o : Observer) (c : Call V) : State V σ :=
  { s with
    calls := s.calls ++ [(o, c)]
    observer := (s.react (s.calls ++ [(o, c)])).foldl Lifecycle.apply s.observer }

/-- `observer_->c()`: a call through the pointer, null or not. -/
def notify (c : Call V) : M ε V σ Unit := do
  match (← get).observer with
  | none => throw .nullObserver
  | some o => modify (·.notified o c)

/-- `if (observer_) { x }`. -/
def ifObserved (x : M ε V σ Unit) : M ε V σ Unit := do
  if (← get).observer.isSome then x else pure ()

/-- The last two calls of a request, under one test of the pointer. -/
def publish (viewData : V) : M ε V σ Unit := ifObserved do
  notify (.onUpdate viewData)
  notify .onEndUpdate

def setObserver (observer : Option Observer) : M ε V σ Unit := modify fun s => { s with observer }

def modifySelf (f : σ → σ) : M ε V σ Unit := modify fun s => { s with self := f s.self }

def attempt (x : Except (Fault ε) α) : M ε V σ α := ExceptT.mk (pure x)

-- ---------------------------------------------------------------------------
-- Running
-- ---------------------------------------------------------------------------

variable {V σ ε : Type} {s : State V σ}

def exec (x : M ε V σ α) (s : State V σ) : Except (Fault ε) α × State V σ := x.run.run s

theorem exec_bind (x : M ε V σ α) (f : α → M ε V σ β) (s : State V σ) :
    exec (x >>= f) s =
      match exec x s with
      | (.ok a, s') => exec (f a) s'
      | (.error e, s') => (.error e, s') := by
  simp only [exec, ExceptT.run_bind, StateT.run_bind]
  cases x.run.run s with
  | mk r s' => cases r <;> rfl

@[simp] theorem exec_pure (a : α) (s : State V σ) :
    exec (pure a : M ε V σ α) s = (.ok a, s) := rfl

@[simp] theorem exec_throw (e : Fault ε) (s : State V σ) :
    exec (throw e : M ε V σ α) s = (.error e, s) := rfl

@[simp] theorem exec_get (s : State V σ) : exec (get : M ε V σ (State V σ)) s = (.ok s, s) := rfl

@[simp] theorem exec_setObserver (observer : Option Observer) (s : State V σ) :
    exec (setObserver observer : M ε V σ Unit) s = (.ok (), { s with observer }) := rfl

@[simp] theorem exec_modifySelf (f : σ → σ) (s : State V σ) :
    exec (modifySelf f : M ε V σ Unit) s = (.ok (), { s with self := f s.self }) := rfl

@[simp] theorem exec_attempt (x : Except (Fault ε) α) (s : State V σ) :
    exec (attempt x : M ε V σ α) s = (x, s) := rfl

theorem exec_notify_some {c : Call V} (h : s.observer = some o) :
    exec (notify c : M ε V σ Unit) s = (.ok (), s.notified o c) := by
  rw [notify, exec_bind]
  simp only [exec_get, h]
  rfl

theorem exec_notify_none {c : Call V} (h : s.observer = none) :
    exec (notify c : M ε V σ Unit) s = (.error .nullObserver, s) := by
  rw [notify, exec_bind]
  simp only [exec_get, h, exec_throw]

theorem exec_ifObserved_some {x : M ε V σ Unit} (h : s.observer = some o) :
    exec (ifObserved x) s = exec x s := by
  rw [ifObserved, exec_bind]
  simp only [exec_get, h, Option.isSome_some, if_true]

theorem exec_ifObserved_none {x : M ε V σ Unit} (h : s.observer = none) :
    exec (ifObserved x) s = (.ok (), s) := by
  rw [ifObserved, exec_bind]
  simp [h]

@[simp] theorem State.notified_self (s : State V σ) : (s.notified o c).self = s.self := rfl

theorem exec_publish_some {v : V} (h : s.observer = some o) :
    exec (publish v : M ε V σ Unit) s =
      exec (notify .onEndUpdate) (s.notified o (.onUpdate v)) := by
  rw [publish, exec_ifObserved_some h, exec_bind, exec_notify_some h]

theorem exec_publish_none {v : V} (h : s.observer = none) :
    exec (publish v : M ε V σ Unit) s = (.ok (), s) :=
  exec_ifObserved_none h

/-- A call through the pointer can only fail by the pointer being null, and
touches no data member. -/
theorem exec_notify_result (c : Call V) (s : State V σ) :
    (exec (notify c : M ε V σ Unit) s).1 =
        (if s.observer = none then .error .nullObserver else .ok ()) ∧
      (exec (notify c : M ε V σ Unit) s).2.self = s.self := by
  cases h : s.observer with
  | none => rw [exec_notify_none h]; exact ⟨rfl, rfl⟩
  | some o => rw [exec_notify_some h]; exact ⟨rfl, rfl⟩

/-- Whether the observer leaves while it takes its last update. -/
def State.LeavesAt (s : State V σ) (v : V) : Prop :=
  ∃ o, o ∈ s.observer ∧ (s.notified o (.onUpdate v)).observer = none

instance (s : State V σ) (v : V) : Decidable (s.LeavesAt v) := by
  unfold State.LeavesAt
  infer_instance

/-- The guard in front of the two calls covers the first only. -/
theorem exec_publish_result (v : V) (s : State V σ) :
    (exec (publish v : M ε V σ Unit) s).1 =
        (if s.LeavesAt v then .error .nullObserver else .ok ()) ∧
      (exec (publish v : M ε V σ Unit) s).2.self = s.self := by
  cases h : s.observer with
  | none =>
    rw [exec_publish_none h, if_neg (by rintro ⟨o, ho, -⟩; simp [h] at ho)]
    exact ⟨rfl, rfl⟩
  | some o =>
    have hleaves : s.LeavesAt v ↔ (s.notified o (.onUpdate v)).observer = none :=
      ⟨by rintro ⟨o', ho', hnone⟩; rw [h] at ho'; cases ho'; exact hnone, fun hn => ⟨o, h, hn⟩⟩
    rw [exec_publish_some h, (exec_notify_result _ _).1, (exec_notify_result _ _).2]
    exact ⟨by simp only [hleaves], rfl⟩

theorem exec_ifObserved_congr {x y : M ε V σ Unit} (h : exec x s = exec y s) :
    exec (ifObserved x) s = exec (ifObserved y) s := by
  cases ho : s.observer with
  | none => rw [exec_ifObserved_none ho, exec_ifObserved_none ho]
  | some o => rw [exec_ifObserved_some ho, exec_ifObserved_some ho, h]

-- ---------------------------------------------------------------------------
-- A quiet observer
-- ---------------------------------------------------------------------------

/-- One observer is subscribed and stays so. -/
structure State.Attended (s : State V σ) (o : Observer) : Prop where
  observer : s.observer = some o
  quiet : s.Quiet

def State.heard (s : State V σ) (o : Observer) (cs : List (Call V)) : State V σ :=
  { s with calls := s.calls ++ cs.map (o, ·) }

@[simp] theorem State.heard_observer (s : State V σ) : (s.heard o cs).observer = s.observer := rfl
@[simp] theorem State.heard_self (s : State V σ) : (s.heard o cs).self = s.self := rfl
@[simp] theorem State.heard_heard (s : State V σ) :
    (s.heard o cs).heard o cs' = s.heard o (cs ++ cs') := by
  simp [State.heard]

theorem State.Attended.heard (h : s.Attended o) : (s.heard o cs).Attended o :=
  ⟨h.observer, h.quiet⟩

theorem State.Attended.notified (h : s.Attended o) (c : Call V) :
    s.notified o c = s.heard o [c] := by
  simp only [State.notified, h.quiet _, List.foldl_nil, State.heard, List.map_cons, List.map_nil]

theorem exec_notify {c : Call V} (h : s.Attended o) :
    exec (notify c : M ε V σ Unit) s = (.ok (), s.heard o [c]) := by
  rw [exec_notify_some h.observer, h.notified]

theorem exec_publish {v : V} (h : s.Attended o) :
    exec (publish v : M ε V σ Unit) s = (.ok (), s.heard o [.onUpdate v, .onEndUpdate]) := by
  rw [publish, exec_ifObserved_some h.observer, exec_bind, exec_notify h]
  simp only
  rw [exec_notify h.heard, State.heard_heard]
  rfl

-- ---------------------------------------------------------------------------
-- What is published
-- ---------------------------------------------------------------------------

def updates (s s' : State V σ) : List V := (s'.calls.drop s.calls.length).filterMap (·.2.viewData?)

theorem updates_of_calls {s s' : State V σ} (o : Observer) (cs : List (Call V))
    (h : s'.calls = s.calls ++ cs.map (o, ·)) : updates s s' = cs.filterMap Call.viewData? := by
  rw [updates, h, List.drop_left, List.filterMap_map]
  rfl

theorem updates_of_calls_eq {s s' : State V σ} (h : s'.calls = s.calls) : updates s s' = [] := by
  simp [updates, h]

/-- One update reaches the observer, whatever becomes of it then. -/
theorem updates_publish {v : V} (h : s.observer = some o) :
    updates s (exec (publish v : M ε V σ Unit) s).2 = [v] := by
  rw [exec_publish_some h]
  cases hend : (s.notified o (.onUpdate v)).observer with
  | none =>
    rw [exec_notify_none hend]
    simp [updates, State.notified, Call.viewData?]
  | some o' =>
    rw [exec_notify_some hend]
    simp [updates, State.notified, Call.viewData?]

/-- Everything `x` publishes satisfies `p`, wherever it starts and however it
ends. -/
def Emits (p : V → Prop) (x : M ε V σ α) : Prop :=
  ∀ s, ∃ cs, (exec x s).2.calls = s.calls ++ cs ∧ ∀ c ∈ cs, ∀ v ∈ c.2.viewData?, p v

section Emits
variable {p : V → Prop}

theorem emits_of_calls {x : M ε V σ α} (h : ∀ s, (exec x s).2.calls = s.calls) : Emits p x :=
  fun s => ⟨[], by simp [h], by simp⟩

theorem Emits.updates {x : M ε V σ α} (h : Emits p x) (s : State V σ) :
    ∀ v ∈ updates s (exec x s).2, p v := by
  obtain ⟨cs, hcs, hp⟩ := h s
  intro v hv
  rw [Observed.updates, hcs, List.drop_left] at hv
  obtain ⟨c, hc, hcv⟩ := List.mem_filterMap.mp hv
  exact hp c hc v hcv

theorem emits_pure (a : α) : Emits p (pure a : M ε V σ α) := emits_of_calls fun _ => rfl

theorem emits_get : Emits p (get : M ε V σ (State V σ)) := emits_of_calls fun _ => rfl

theorem emits_modifySelf (f : σ → σ) : Emits p (modifySelf f : M ε V σ Unit) :=
  emits_of_calls fun _ => rfl

theorem emits_attempt (x : Except (Fault ε) α) : Emits p (attempt x : M ε V σ α) :=
  emits_of_calls fun _ => rfl

theorem Emits.bind {x : M ε V σ α} {f : α → M ε V σ β} (hx : Emits p x)
    (hf : ∀ a, Emits p (f a)) : Emits p (x >>= f) := by
  intro s
  rw [exec_bind]
  obtain ⟨cs, hcs, hp⟩ := hx s
  cases h : exec x s with
  | mk r s' =>
    rw [h] at hcs
    cases r with
    | error e => exact ⟨cs, hcs, hp⟩
    | ok a =>
      obtain ⟨cs', hcs', hp'⟩ := hf a s'
      refine ⟨cs ++ cs', ?_, fun c hc => ?_⟩
      · rw [hcs', hcs, List.append_assoc]
      · exact (List.mem_append.mp hc).elim (hp c) (hp' c)

theorem emits_notify {c : Call V} (h : ∀ v ∈ c.viewData?, p v) :
    Emits p (notify c : M ε V σ Unit) := by
  intro s
  cases ho : s.observer with
  | none => exact ⟨[], by simp [exec_notify_none ho], by simp⟩
  | some o =>
    refine ⟨[(o, c)], by rw [exec_notify_some ho]; rfl, fun c' hc' => ?_⟩
    rw [List.mem_singleton.mp hc']
    exact h

theorem Emits.ifObserved {x : M ε V σ Unit} (hx : Emits p x) : Emits p (ifObserved x) := by
  intro s
  cases ho : s.observer with
  | none => exact ⟨[], by simp [exec_ifObserved_none ho], by simp⟩
  | some o =>
    rw [exec_ifObserved_some ho]
    exact hx s

theorem emits_publish {v : V} (h : p v) : Emits p (publish v : M ε V σ Unit) := by
  refine Emits.ifObserved (Emits.bind (emits_notify ?_) fun _ => emits_notify ?_)
  · rintro v' ⟨⟩
    exact h
  · rintro v' ⟨⟩

end Emits

-- ---------------------------------------------------------------------------
-- What is left alone
-- ---------------------------------------------------------------------------

/-- `x` leaves the part `f` of the data members alone, however it ends. -/
def Keeps (f : σ → β) (x : M ε V σ α) : Prop := ∀ s, f (exec x s).2.self = f s.self

section Keeps
variable {f : σ → β}

theorem keeps_get : Keeps f (get : M ε V σ (State V σ)) := fun _ => rfl

theorem keeps_modifySelf {g : σ → σ} (h : ∀ d, f (g d) = f d) :
    Keeps f (modifySelf g : M ε V σ Unit) := fun s => h s.self

theorem keeps_attempt (x : Except (Fault ε) α) : Keeps f (attempt x : M ε V σ α) := fun _ => rfl

theorem Keeps.bind {x : M ε V σ α} {k : α → M ε V σ γ} (hx : Keeps f x)
    (hk : ∀ a, Keeps f (k a)) : Keeps f (x >>= k) := by
  intro s
  have hs := hx s
  rw [exec_bind]
  cases h : exec x s with
  | mk r s' =>
    rw [h] at hs
    cases r with
    | error e => exact hs
    | ok a => exact (hk a s').trans hs

theorem keeps_notify (c : Call V) : Keeps f (notify c : M ε V σ Unit) := fun s => by
  rw [(exec_notify_result c s).2]

theorem Keeps.ifObserved {x : M ε V σ Unit} (hx : Keeps f x) : Keeps f (ifObserved x) := by
  intro s
  cases ho : s.observer with
  | none => rw [exec_ifObserved_none ho]
  | some o =>
    rw [exec_ifObserved_some ho]
    exact hx s

theorem keeps_publish (v : V) : Keeps f (publish v : M ε V σ Unit) :=
  Keeps.ifObserved (Keeps.bind (keeps_notify _) fun _ => keeps_notify _)

end Keeps

end Observed
