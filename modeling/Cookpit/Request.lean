import Cookpit.Json11
import Cookpit.Lib.Observed
import Cookpit.Utility

/-!
# What the controllers share

Search, map, photo details and photo comments make their requests alike:
`on_begin_update` first, unguarded, then `curl_get` with two handlers. The
handlers differ and are the controllers' own.
-/

namespace Cookpit

open ByteString Json11 Observed

variable {V σ : Type}

/-- The message every `on_failure` reads from the error format of the service,
with its own fallback where the body is no JSON. -/
def errorMessage (fallback reason : Bytes) : Bytes :=
  match parse reason with
  | some json => (json.get "message").stringValue
  | none => fallback

def created (self : σ) : State V σ :=
  { observer := none, calls := [], react := fun _ => [], self }

def subscribed (observer : Observer) (self : σ) : State V σ :=
  { observer := some observer, calls := [], react := fun _ => [], self }

theorem subscribed_attended (o : Observer) (self : σ) :
    (subscribed o self : State V σ).Attended o :=
  ⟨rfl, fun _ => rfl⟩

def subscribe (observer : Observer) : M Thrown V σ Unit := setObserver (some observer)

def unsubscribe : M Thrown V σ Unit := setObserver none

/-- A request to `url` that ends with `transfer`. -/
def requestUrl (url : Bytes) (transfer : Transfer)
    (onSuccess onFailure : Bytes → M Thrown V σ Unit) : M Thrown V σ Unit := do
  notify .onBeginUpdate
  curlGet transfer url (fun _ _ response => onSuccess response) (fun _ _ reason => onFailure reason)

def queryUrl [Hashing] (params : List (Bytes × Bytes)) : Bytes :=
  baseUrl ++ lit "?" ++ convertToQueryParamString (Hashing.iterate params)

inductive Op (α : Type)
  | subscribe (observer : Observer)
  | unsubscribe
  | act (action : α)

def Op.run (act : α → M Thrown V σ Unit) : Op α → M Thrown V σ Unit
  | .subscribe observer => Cookpit.subscribe observer
  | .unsubscribe => Cookpit.unsubscribe
  | .act action => act action

def Op.next (act : α → M Thrown V σ Unit) (s : State V σ) (op : Op α) : State V σ :=
  (exec (op.run act) s).2

theorem mapM_isOk {α β : Type} {f : α → Except Thrown β} (xs : List α) :
    (xs.mapM f).isOk ↔ ∀ x ∈ xs, (f x).isOk := by
  induction xs with
  | nil => exact iff_of_true rfl (by simp)
  | cons x xs ih =>
    rw [List.mapM_cons, List.forall_mem_cons, ← ih]
    cases f x with
    | error e => exact iff_of_false Bool.false_ne_true fun h => Bool.false_ne_true h.1
    | ok y =>
      cases xs.mapM f with
      | error e => exact iff_of_false Bool.false_ne_true fun h => Bool.false_ne_true h.2
      | ok ys => exact iff_of_true rfl ⟨rfl, rfl⟩

-- ---------------------------------------------------------------------------
-- The observer during a request
-- ---------------------------------------------------------------------------

/-- What a handler comes to: it publishes `result`, or nothing. -/
structure Publishes (x : M Thrown V σ Unit) (s : State V σ) (result : Option V) : Prop where
  null_iff : (exec x s).1 = .error .nullObserver ↔ ∃ v ∈ result, s.LeavesAt v
  served : ∀ v ∈ result, ∀ o, s.Attended o → (exec x s).1 = .ok () ∧
    (exec x s).2.calls = s.calls ++ [.onUpdate v, .onEndUpdate].map (o, ·)
  silent : result = none → (exec x s).2.calls = s.calls
  stays : ∀ o, s.Attended o → (exec x s).2.Attended o

theorem publishes_publish (v : V) (s : State V σ) : Publishes (publish v) s (some v) where
  null_iff := by
    rw [(exec_publish_result v s).1]
    by_cases h : s.LeavesAt v <;> simp [h]
  served := by
    intro v' hv o hs
    obtain rfl := Option.mem_some_iff.mp hv
    rw [exec_publish hs]
    exact ⟨rfl, rfl⟩
  silent h := by cases h
  stays o hs := by
    rw [exec_publish hs]
    exact hs.heard

theorem publishes_pure (s : State V σ) : Publishes (pure ()) s none where
  null_iff := by simp
  served := by rintro v ⟨⟩
  silent _ := rfl
  stays _ hs := hs

theorem publishes_throw (e : Thrown) (s : State V σ) : Publishes (throw (.thrown e)) s none where
  null_iff := by simp
  served := by rintro v ⟨⟩
  silent _ := rfl
  stays _ hs := hs

theorem publishes_ifObserved_throw (e : Thrown) (s : State V σ) :
    Publishes (ifObserved (throw (.thrown e))) s none := by
  cases h : s.observer with
  | none =>
    have hexec : exec (ifObserved (throw (.thrown e)) : M Thrown V σ Unit) s = (.ok (), s) :=
      exec_ifObserved_none h
    exact ⟨by simp [hexec], by rintro v ⟨⟩, fun _ => by rw [hexec], fun _ hs => by rwa [hexec]⟩
  | some o =>
    have hexec : exec (ifObserved (throw (.thrown e)) : M Thrown V σ Unit) s =
        (.error (.thrown e), s) := exec_ifObserved_some h
    exact ⟨by simp [hexec], by rintro v ⟨⟩, fun _ => by simp [hexec], fun _ hs => by simpa [hexec]⟩

theorem Publishes.of_exec {x y : M Thrown V σ Unit} {self : σ} {s : State V σ}
    (h : Publishes y { s with self } result) (he : exec x s = exec y { s with self }) :
    Publishes x s result where
  null_iff := by
    rw [he]
    exact h.null_iff
  served v hv o hs := by
    rw [he]
    exact h.served v hv o ⟨hs.observer, hs.quiet⟩
  silent hr := by
    rw [he]
    exact h.silent hr
  stays o hs := by
    rw [he]
    exact h.stays o ⟨hs.observer, hs.quiet⟩

/-- An observer is there when the request begins, and one is still there when
it has taken the result, if there is one to take. -/
def Accompanied (s : State V σ) (result : Option V) : Prop :=
  ∃ o, o ∈ s.observer ∧ ∀ v ∈ result, ¬ (s.notified o .onBeginUpdate).LeavesAt v

def Served (o : Observer) (s s' : State V σ) : Prop :=
  ∃ v, s'.calls = s.calls ++ [.onBeginUpdate, .onUpdate v, .onEndUpdate].map (o, ·)

section
variable {url : Bytes} {t : Transfer} {onSuccess onFailure : Bytes → M Thrown V σ Unit}
  {s : State V σ}

theorem exec_requestUrl_none (h : s.observer = none) :
    exec (requestUrl url t onSuccess onFailure) s = (.error .nullObserver, s) := by
  rw [requestUrl, exec_bind, exec_notify_none h]

theorem exec_requestUrl_some (h : s.observer = some o) :
    exec (requestUrl url t onSuccess onFailure) s =
      exec (if t.Success then onSuccess t.body else onFailure t.body)
        (s.notified o .onBeginUpdate) := by
  rw [requestUrl, exec_bind, exec_notify_some h]
  simp only [curlGet]

end

/-- What a request comes to: `on_begin_update`, then `result` or nothing. -/
structure Requests (x : M Thrown V σ Unit) (s : State V σ) (result : Option V) : Prop where
  /-- The pointer is null at the start or behind the result, or never. -/
  null_iff : (exec x s).1 ≠ .error .nullObserver ↔ Accompanied s result
  /-- A request that returns has made its three calls if it has a result. -/
  served_iff : ∀ o, s.Attended o →
    ((exec x s).1 = .ok () ∧ Served o s (exec x s).2 ↔ result.isSome)
  stays : ∀ o, s.Attended o → (exec x s).2.Attended o

theorem requests_requestUrl {url : Bytes} {t : Transfer}
    {onSuccess onFailure : Bytes → M Thrown V σ Unit} {s : State V σ}
    (h : ∀ o, Publishes (if t.Success then onSuccess t.body else onFailure t.body)
      (s.notified o .onBeginUpdate) result) :
    Requests (requestUrl url t onSuccess onFailure) s result where
  null_iff := by
    rw [Accompanied]
    cases ho : s.observer with
    | none =>
      rw [exec_requestUrl_none ho]
      exact iff_of_false (fun h => h rfl) (by rintro ⟨o, ho', -⟩; cases ho')
    | some o =>
      rw [exec_requestUrl_some ho, Ne, (h o).null_iff]
      simp
  served_iff o hs := by
    have hb := hs.notified .onBeginUpdate
    rw [exec_requestUrl_some hs.observer]
    cases result with
    | none =>
      refine iff_of_false ?_ (by simp)
      rintro ⟨-, v, hv⟩
      rw [(h o).silent rfl, hb] at hv
      simp [State.heard] at hv
    | some v =>
      obtain ⟨hok, hcalls⟩ := (h o).served v rfl o (hb ▸ hs.heard)
      refine iff_of_true ⟨hok, v, ?_⟩ rfl
      rw [hcalls, hb]
      simp [State.heard]
  stays o hs := by
    rw [exec_requestUrl_some hs.observer]
    exact (h o).stays o (hs.notified .onBeginUpdate ▸ hs.heard)

theorem Requests.of_exec {x y : M Thrown V σ Unit} {self : σ} {s : State V σ}
    (h : Requests y { s with self } result) (he : exec x s = exec y { s with self }) :
    Requests x s result where
  null_iff := by
    rw [he]
    exact h.null_iff
  served_iff o hs := by
    rw [he]
    exact h.served_iff o ⟨hs.observer, hs.quiet⟩
  stays o hs := by
    rw [he]
    exact h.stays o ⟨hs.observer, hs.quiet⟩

end Cookpit
