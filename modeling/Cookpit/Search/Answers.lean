import Cookpit.Search

/-!
# The answer to a search

`search` runs on one thread; `start` and `answer` are it up to the network and
from there on. The photos of an answer are stored before its total is
converted, so an answer is all or nothing exactly if the total is a number or
there are no photos to store (`onSuccess_allOrNothing_iff`).
-/

namespace Cookpit.Search

open ByteString Json11 Observed

variable {s : State} {data : Bytes} {t : Transfer}

/-- `search` up to the network. -/
def start (key : Bytes) : M Unit := do
  modifySelf fun d => { d with recentSearchKey := d.recentSearchKey.put key () }
  notify .onBeginUpdate

theorem exec_start (key : Bytes) (hs : s.Attended o) :
    (exec (start key) s).2 =
      { s with
        calls := s.calls ++ [(o, .onBeginUpdate)]
        self := { s.self with recentSearchKey := s.self.recentSearchKey.put key () } } := by
  have hs' : ({ s with
      self := { s.self with recentSearchKey := s.self.recentSearchKey.put key () } } :
        State).Attended o := ⟨hs.observer, hs.quiet⟩
  rw [start, exec_bind, exec_modifySelf]
  simp only
  rw [exec_notify hs']
  rfl

section
variable [Floats]

/-- `search` from the network on. -/
def answer [Hashing] (key : Bytes) (page : Int8) (t : Transfer) : M Unit :=
  curlGet t (queryUrl (params key page)) (fun _ _ response => onSuccess response)
    (fun _ _ reason => onFailure reason)

theorem search_eq [Hashing] (key : Bytes) (page : Int8) (t : Transfer) :
    search key page t = (do start key; answer key page t) := by
  simp only [search, requestUrl, start, answer, bind_assoc]

/-- An answer publishes the old items and its own photos and keeps what it
published, or it leaves the items as they were. -/
def AllOrNothing (data : Bytes) (s : State) : Prop :=
  (∃ v ∈ updates s (exec (onSuccess data) s).2, v.results = s.self.items ++ details data ∧
      stoi (total data) = .ok v.total ∧ (exec (onSuccess data) s).2.self.items = v.results) ∨
    (exec (onSuccess data) s).2.self.items = s.self.items

theorem onSuccess_ok (h : s.observer = some o) (hn : stoi (total data) = .ok n) :
    updates s (exec (onSuccess data) s).2 = [okUpdate data s.self.items n] ∧
      (exec (onSuccess data) s).2.self.items = s.self.items ++ details data := by
  have hext : (extended data s).observer = some o := h
  have hone : updates (extended data s)
      (exec (publish (okUpdate data s.self.items n) : M Unit) (extended data s)).2 =
        [okUpdate data s.self.items n] := updates_publish hext
  rw [exec_onSuccess_ok hn, (exec_publish_result _ _).2]
  exact ⟨hone, rfl⟩

theorem onSuccess_error (h : s.observer = some o) (hn : stoi (total data) = .error e) :
    updates s (exec (onSuccess data) s).2 = [] ∧
      (exec (onSuccess data) s).2.self.items = s.self.items ++ details data := by
  have hext : (extended data s).observer = some o := h
  rw [exec_onSuccess_error hn, exec_ifObserved_some hext, exec_throw]
  exact ⟨updates_of_calls_eq rfl, rfl⟩

/-- With an observer an answer is all or nothing exactly if its total converts
or it brings no photos. -/
theorem onSuccess_allOrNothing_iff (s : State) (o : Observer) (h : s.observer = some o)
    (data : Bytes) :
    AllOrNothing data s ↔ (stoi (total data)).isOk ∨ details data = [] := by
  cases hn : stoi (total data) with
  | ok n =>
    obtain ⟨hupdates, hitems⟩ := onSuccess_ok h hn
    refine iff_of_true (.inl ⟨okUpdate data s.self.items n, ?_, rfl, hn, hitems⟩) (.inl rfl)
    rw [hupdates]
    exact List.mem_cons_self
  | error e =>
    obtain ⟨hupdates, hitems⟩ := onSuccess_error h hn
    have hthrows : ¬ (Except.error e : Except Thrown Int).isOk := Bool.false_ne_true
    rw [AllOrNothing, hupdates, hitems, or_iff_right hthrows]
    simp

-- ---------------------------------------------------------------------------
-- An observer that stays
-- ---------------------------------------------------------------------------

def photos (t : Transfer) : List DetailViewData := if t.Success then details t.body else []

theorem exec_answer [Hashing] (key : Bytes) (page : Int8) (t : Transfer) (s : State) :
    exec (answer key page t) s =
      exec (if t.Success then onSuccess t.body else onFailure t.body) s := by
  simp only [answer, curlGet]

theorem answer_attended [Hashing] (hs : s.Attended o) (key : Bytes) (page : Int8) (t : Transfer) :
    (exec (answer key page t) s).2.Attended o := by
  rw [exec_answer]
  exact (publishes t s).stays o hs

theorem answer_calls [Hashing] (hs : s.Attended o) (key : Bytes) (page : Int8) (t : Transfer) :
    (exec (answer key page t) s).2.calls = s.calls ++
      ((result t s.self.items).toList.flatMap fun v => [.onUpdate v, .onEndUpdate]).map (o, ·) := by
  rw [exec_answer]
  cases hr : result t s.self.items with
  | none =>
    rw [(publishes t s).silent hr]
    exact (List.append_nil _).symm
  | some v => exact ((publishes t s).served v hr o hs).2

theorem answer_updates [Hashing] (hs : s.Attended o) (key : Bytes) (page : Int8) (t : Transfer) :
    updates s (exec (answer key page t) s).2 = (result t s.self.items).toList := by
  rw [updates_of_calls o _ (answer_calls hs key page t)]
  cases result t s.self.items <;> rfl

theorem answer_items [Hashing] (hs : s.Attended o) (key : Bytes) (page : Int8) (t : Transfer) :
    (exec (answer key page t) s).2.self.items = s.self.items ++ photos t := by
  rw [exec_answer, photos]
  by_cases ht : t.Success
  · rw [if_pos ht, if_pos ht]
    cases hn : stoi (total t.body) with
    | ok n => exact (onSuccess_ok hs.observer hn).2
    | error e => exact (onSuccess_error hs.observer hn).2
  · rw [if_neg ht, if_neg ht, List.append_nil]
    have hexec : exec (onFailure t.body) s = exec (publish (V := ViewData)
        ⟨true, errorMessage [] t.body, s.self.items, -1⟩) s := rfl
    rw [hexec, (exec_publish_result _ s).2]

theorem results_of_error {items : List DetailViewData} (hv : v ∈ result t items) (h : v.error) :
    v.results = items := by
  rw [result] at hv
  split at hv
  · obtain ⟨n, -, rfl⟩ := Option.map_eq_some_iff.mp hv
    cases h
  · cases hv
    rfl

/-- What is published is what is stored. -/
theorem results_of_mem_result {items : List DetailViewData} (hv : v ∈ result t items) :
    v.results = items ++ photos t := by
  rw [result, photos] at *
  split at hv
  · rename_i ht
    obtain ⟨n, -, rfl⟩ := Option.map_eq_some_iff.mp hv
    rw [if_pos ht]
  · rename_i ht
    cases hv
    rw [if_neg ht, List.append_nil]

/-- An answer publishes one list or throws. -/
theorem answer_outcome [Hashing] (hs : s.Attended o) (key : Bytes) (t : Transfer) :
    match result t s.self.items with
    | some v => (exec (answer key 1 t) s).1 = .ok () ∧
        updates s (exec (answer key 1 t) s).2 = [v]
    | none => (∃ e, (exec (answer key 1 t) s).1 = .error e) ∧
        updates s (exec (answer key 1 t) s).2 = [] := by
  have hupdates := answer_updates hs key 1 t
  cases hr : result t s.self.items with
  | some v =>
    rw [hr] at hupdates
    refine ⟨?_, hupdates⟩
    rw [exec_answer]
    exact ((publishes t s).served v hr o hs).1
  | none =>
    rw [hr] at hupdates
    refine ⟨?_, hupdates⟩
    have hsome := (result_isSome t s.self.items).not.mp (by simp [hr])
    obtain ⟨ht, htotal⟩ := Classical.not_imp.mp hsome
    rw [exec_answer, if_pos ht]
    cases hn : stoi (total t.body) with
    | ok n =>
      rw [hn] at htotal
      exact absurd rfl htotal
    | error e =>
      have hobserver : (extended t.body s).observer = some o := hs.observer
      exact ⟨.thrown e, by rw [exec_onSuccess_error hn, exec_ifObserved_some hobserver, exec_throw]⟩

end

section
attribute [local instance] integerFloats

/-- One photo and no total. -/
def untotalled : Bytes := lit "\x7b\"photos\":\x7b\"photo\":[\x7b\"id\":\"7\"\x7d]\x7d\x7d"

theorem onSuccess_allOrNothing_iff_untotalled :
    ¬ AllOrNothing untotalled (subscribed 0 ⟨[], KeyStore.Store.empty⟩) := by
  rw [onSuccess_allOrNothing_iff _ 0 rfl]
  decide +kernel

theorem onSuccess_not_allOrNothing : ¬ ∀ (s : State) (o : Observer) (data : Bytes),
    s.observer = some o → AllOrNothing data s := by
  intro h
  rcases h (subscribed 0 ⟨[], KeyStore.Store.empty⟩) 0 untotalled rfl with ⟨v, hv, -⟩ | hitems
  · revert hv
    have hnone : updates (subscribed 0 ⟨[], KeyStore.Store.empty⟩)
        (exec (onSuccess untotalled) (subscribed 0 ⟨[], KeyStore.Store.empty⟩)).2 = [] := by
      decide +kernel
    rw [hnone]
    simp
  · revert hitems
    decide +kernel

end

end Cookpit.Search
