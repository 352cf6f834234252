import Cookpit.Explore.Laws
import Cookpit.Lib.Runs
import Cookpit.Map
import Cookpit.Photo
import Cookpit.Search

/-!
# How the controllers treat their observer

With one observer that stays, a request of the map, search, photo-detail or
photo-comment controller owes it three calls, and a return. `served_iff` says
which answers keep which controller from that. With observers that come and go
between any two calls, `neverNull_iff_accompanied` says when a request of one of
the five controllers calls through a null pointer.
-/

namespace Cookpit

open ByteString Json11 Observed Runs

section
variable {V σ α : Type}

def after (act : α → M Thrown V σ Unit) (s : State V σ) (a : α) : State V σ := (exec (act a) s).2

/-- Each action in turn returns and serves `o` its three calls. -/
def AlwaysServed (act : α → M Thrown V σ Unit) (o : Observer) (s : State V σ) (actions : List α) :
    Prop :=
  Every (after act) (fun s a => (exec (act a) s).1 = .ok () ∧ Served o s (after act s a)) s actions

/-- No operation calls through a null pointer. -/
def NeverNull (act : α → M Thrown V σ Unit) (s : State V σ) (ops : List (Op α)) : Prop :=
  Every (Op.next act) (fun s op => (exec (op.run act) s).1 ≠ .error .nullObserver) s ops

/-- `Safe` holds at every action of a run of operations. -/
def AlwaysSafe (act : α → M Thrown V σ Unit) (Safe : State V σ → α → Prop) (s : State V σ)
    (ops : List (Op α)) : Prop :=
  Every (Op.next act) (fun s op => ∀ a, op = .act a → Safe s a) s ops

variable {act : α → M Thrown V σ Unit} {s : State V σ}

theorem neverNull_iff {Safe : State V σ → α → Prop}
    (h : ∀ s a, (exec (act a) s).1 ≠ .error .nullObserver ↔ Safe s a) (ops : List (Op α)) :
    NeverNull act s ops ↔ AlwaysSafe act Safe s ops := by
  refine every_iff (I := fun _ => True) (A := fun _ => True) trivial (fun _ _ => trivial)
    (fun _ _ _ _ _ => trivial) fun s op _ _ => ?_
  cases op with
  | subscribe o => exact iff_of_true (by simp [Op.run, subscribe]) (by rintro a ⟨⟩)
  | unsubscribe => exact iff_of_true (by simp [Op.run, unsubscribe]) (by rintro a ⟨⟩)
  | act a => simpa [Op.run] using h s a

theorem alwaysServed_iff {o : Observer} {result : State V σ → α → Option V} {C : α → Prop}
    (hs : s.Attended o) (h : ∀ s a, Requests (act a) s (result s a))
    (hsome : ∀ s a, (result s a).isSome ↔ C a) (actions : List α) :
    AlwaysServed act o s actions ↔ ∀ a ∈ actions, C a := by
  have hevent : Every (after act) (fun _ a => C a) s actions ↔ ∀ a ∈ actions, C a := every_event
  rw [← hevent]
  exact every_iff (I := fun s => s.Attended o) (A := fun _ => True) hs (fun _ _ => trivial)
    (fun s a hs _ _ => (h s a).stays o hs)
    fun s a hs _ => ((h s a).served_iff o hs).trans (hsome s a)

end

-- ---------------------------------------------------------------------------
-- An observer that stays
-- ---------------------------------------------------------------------------

structure Query where
  key : Bytes
  page : Int8
  transfer : Transfer

section
variable [Floats] [Hashing]

def Query.run (q : Query) : Search.M Unit := Search.search q.key q.page q.transfer

/-- Along every sequence of requests the observer gets its three calls and the
caller control exactly if every map request is answered, by photos that all
have a place, and the total of every search answer is a number. Photo details
and comments need nothing of their answers. -/
theorem served_iff (o : Observer) (m : Map.State) (s : Search.State) (d : PhotoDetail.State)
    (c : PhotoComment.State) (hm : m.Attended o) (hs : s.Attended o) (hd : d.Attended o)
    (hc : c.Attended o) (ts : List Transfer) (qs : List Query) :
    (AlwaysServed Map.request o m ts ↔
      ∀ t ∈ ts, t.Success ∧ ∀ j ∈ Map.photos t.body, Map.Located j) ∧
    (AlwaysServed Query.run o s qs ↔
      ∀ q ∈ qs, q.transfer.Success → (stoi (Search.total q.transfer.body)).isOk) ∧
    AlwaysServed PhotoDetail.requestDetail o d ts ∧
    AlwaysServed PhotoComment.requestComments o c ts := by
  refine ⟨?_, ?_, ?_, ?_⟩
  · exact alwaysServed_iff hm (fun s t => Map.request_requests t s)
      (fun _ t => Map.result_isSome t) ts
  · exact alwaysServed_iff hs (fun s q => Search.search_requests q.key q.page q.transfer s)
      (fun s q => Search.result_isSome q.transfer s.self.items) qs
  · exact (alwaysServed_iff (C := fun _ => True) hd
      (fun s t => PhotoDetail.requestDetail_requests t s)
      (fun _ _ => iff_of_true rfl trivial) ts).mpr fun _ _ => trivial
  · exact (alwaysServed_iff (C := fun _ => True) hc
      (fun s t => PhotoComment.requestComments_requests t s)
      (fun _ _ => iff_of_true rfl trivial) ts).mpr fun _ _ => trivial

end

section
attribute [local instance] integerFloats listed

def noAnswer : Transfer := ⟨false, 0, []⟩

theorem served_iff_noAnswer :
    ¬ AlwaysServed Map.request 0 (subscribed 0 ()) [noAnswer] ∧
      AlwaysServed Query.run 0 (subscribed 0 ⟨[], KeyStore.Store.empty⟩)
        [⟨lit "cat", 1, noAnswer⟩] ∧
      AlwaysServed PhotoDetail.requestDetail 0 (subscribed 0 ⟨lit "7"⟩) [noAnswer] ∧
      AlwaysServed PhotoComment.requestComments 0 (subscribed 0 ⟨[], lit "7"⟩) [noAnswer] := by
  obtain ⟨hm, hs, hd, hc⟩ := served_iff 0 (subscribed 0 ())
    (subscribed 0 ⟨[], KeyStore.Store.empty⟩) (subscribed 0 ⟨lit "7"⟩)
    (subscribed 0 ⟨[], lit "7"⟩) (subscribed_attended 0 _) (subscribed_attended 0 _)
    (subscribed_attended 0 _) (subscribed_attended 0 _) [noAnswer] [⟨lit "cat", 1, noAnswer⟩]
  refine ⟨fun h => ?_, hs.mpr ?_, hd, hc⟩
  · exact absurd (hm.mp h noAnswer List.mem_cons_self).1 (by decide)
  · rintro q hq ht
    obtain rfl := List.mem_singleton.mp hq
    exact absurd ht (by decide)

theorem not_always_served : ¬ ∀ (o : Observer) (m : Map.State) (s : Search.State)
    (d : PhotoDetail.State) (c : PhotoComment.State) (ts : List Transfer) (qs : List Query),
    m.Attended o → s.Attended o → d.Attended o → c.Attended o →
    AlwaysServed Map.request o m ts ∧ AlwaysServed Query.run o s qs ∧
      AlwaysServed PhotoDetail.requestDetail o d ts ∧
      AlwaysServed PhotoComment.requestComments o c ts := by
  intro h
  have h := (h 0 (subscribed 0 ()) (subscribed 0 ⟨[], KeyStore.Store.empty⟩)
    (subscribed 0 ⟨lit "7"⟩) (subscribed 0 ⟨[], lit "7"⟩) [noAnswer] []
    (subscribed_attended 0 _) (subscribed_attended 0 _) (subscribed_attended 0 _)
    (subscribed_attended 0 _)).1
  obtain ⟨-, v, hv⟩ := h [] noAnswer [] rfl
  have hone : (after Map.request (subscribed 0 ()) noAnswer).calls.length = 1 := by decide +kernel
  have hthree := congrArg List.length hv
  rw [List.length_append, List.length_map] at hthree
  have hlen : (1 : Nat) = 0 + 3 := hone.symm.trans hthree
  omega

end

-- ---------------------------------------------------------------------------
-- Observers that come and go
-- ---------------------------------------------------------------------------

section
variable [Floats]

namespace Explore

def result (page : Int8) (t : Transfer) (items : List DetailViewData) :
    Option ViewData :=
  if t.Success then
    match answered (constructUrl baseUrl page) t.body items with
    | .ok r => r.map okUpdate
    | .error _ => none
  else some (errorUpdate t.body items)

/-- An observer is there when the request begins, one is there when the cached
page is merged, and one is still there when it has taken the result. -/
def Accompanied (s : State) : Action → Prop
  | .reset => True
  | .request page t => ∃ o, o ∈ s.observer ∧
      ∀ items, mergePage page.toInt (requestDb s.self.db page) s.self.items =
          .ok items →
        ∃ o', o' ∈ (s.notified o .onBeginUpdate).observer ∧
          ∀ v ∈ result page t items,
            ¬ ((withItems items (s.notified o .onBeginUpdate)).notified o'
              (.onUpdate (cacheUpdate items))).LeavesAt v

theorem answered_error (h : answered url body items = .error e) :
    e ≠ .nullObserver := by
  rw [answered] at h
  split at h
  · rename_i p _
    split at h
    · cases h
    · cases hm : mergePage p (constructDetailViewDataFromData body) items with
      | error e' =>
        rw [hm] at h
        cases h
        rw [mergePage_error hm]
        simp
      | ok items' =>
        rw [hm] at h
        cases h
  · cases h
    simp

theorem answer_null_iff (page : Int8) (t : Transfer) (s : State) :
    (exec (answer page t) s).1 ≠ .error .nullObserver ↔
      ∀ v ∈ result page t s.self.items, ¬ s.LeavesAt v := by
  rw [result]
  by_cases ht : t.Success
  · rw [exec_answer_of_success ht, exec_onSuccess, if_pos ht]
    cases ha : answered (constructUrl baseUrl page) t.body s.self.items with
    | error e =>
      have hne := answered_error ha
      exact iff_of_true (by simpa using hne) (by simp)
    | ok r =>
      cases r with
      | none => exact iff_of_true (by simp) (by simp)
      | some items =>
        have hleaves : (withItems items s).LeavesAt (okUpdate items) ↔
            s.LeavesAt (okUpdate items) := Iff.rfl
        simp only [exec_publish_save, hleaves]
        by_cases h : s.LeavesAt (okUpdate items) <;> simp [h]
  · rw [exec_answer_of_failure ht, (exec_publish_result _ s).1, if_neg ht]
    by_cases h : s.LeavesAt (errorUpdate t.body s.self.items) <;> simp [h]

theorem action_null_iff (s : State) (a : Action) :
    (exec a.run s).1 ≠ .error .nullObserver ↔ Accompanied s a := by
  cases a with
  | reset => exact iff_of_true (by simp [Action.run]) trivial
  | request page t =>
    rw [Action.run, Accompanied, request, exec_bind]
    cases ho : s.observer with
    | none =>
      rw [exec_start_none ho]
      exact iff_of_false (fun h => h rfl) (by rintro ⟨o, ho', -⟩; cases ho')
    | some o =>
      simp only [Option.mem_some_iff, exists_eq_left']
      rw [exec_start_some ho]
      cases hm : mergePage page.toInt (requestDb s.self.db page) s.self.items with
      | error e =>
        have he := mergePage_error hm
        exact iff_of_true (by simp [he]) (by simp)
      | ok items =>
        simp only [Except.ok.injEq, forall_eq']
        cases hb : (s.notified o .onBeginUpdate).observer with
        | none =>
          rw [exec_notify_none ((withItems_observer _ _).trans hb)]
          exact iff_of_false (fun h => h rfl) (by rintro ⟨o', ho', -⟩; cases ho')
        | some o' =>
          rw [exec_notify_some ((withItems_observer _ _).trans hb)]
          simp only [Option.mem_some_iff, exists_eq_left']
          exact answer_null_iff page t _

end Explore

variable [Hashing]

def Search.Accompanied (s : Search.State) : Search.Action → Prop
  | .reset => True
  | .search _ _ t => Cookpit.Accompanied s (Search.result t s.self.items)

theorem Search.action_null_iff (s : Search.State) (a : Search.Action) :
    (exec a.run s).1 ≠ .error .nullObserver ↔ Search.Accompanied s a := by
  cases a with
  | reset => exact iff_of_true (by simp [Search.Action.run, Search.reset]) trivial
  | search key page t => exact (Search.search_requests key page t s).null_iff

/-- A run of operations, with every pattern of subscribing and unsubscribing
between the calls, never calls through a null pointer exactly if each request
is accompanied: an observer is there at its start, for explore also behind
`on_begin_update`, and behind the update with the result. -/
theorem neverNull_iff_accompanied (e : Explore.State) (s : Search.State) (m : Map.State)
    (d : PhotoDetail.State) (c : PhotoComment.State) (eops : List (Op Explore.Action))
    (sops : List (Op Search.Action)) (ops : List (Op Transfer)) :
    (NeverNull Explore.Action.run e eops ↔
      AlwaysSafe Explore.Action.run Explore.Accompanied e eops) ∧
    (NeverNull Search.Action.run s sops ↔
      AlwaysSafe Search.Action.run Search.Accompanied s sops) ∧
    (NeverNull Map.request m ops ↔
      AlwaysSafe Map.request (fun s t => Accompanied s (Map.result t)) m ops) ∧
    (NeverNull PhotoDetail.requestDetail d ops ↔ AlwaysSafe PhotoDetail.requestDetail
      (fun s t => Accompanied s (some (PhotoDetail.result t s.self.id))) d ops) ∧
    (NeverNull PhotoComment.requestComments c ops ↔ AlwaysSafe PhotoComment.requestComments
      (fun s t => Accompanied s (some (PhotoComment.result t s.self.items))) c ops) :=
  ⟨neverNull_iff Explore.action_null_iff eops, neverNull_iff Search.action_null_iff sops,
    neverNull_iff (fun s t => (Map.request_requests t s).null_iff) ops,
    neverNull_iff (fun s t => (PhotoDetail.requestDetail_requests t s).null_iff) ops,
    neverNull_iff (fun s t => (PhotoComment.requestComments_requests t s).null_iff) ops⟩

end

section
attribute [local instance] integerFloats listed

/-- A view that is destroyed unsubscribes; created again, it asks for the map. -/
def recreated : List (Op Transfer) := [.subscribe 0, .unsubscribe, .act noAnswer]

theorem not_neverNull : ¬ ∀ (e : Explore.State) (s : Search.State) (m : Map.State)
    (d : PhotoDetail.State) (c : PhotoComment.State) (eops : List (Op Explore.Action))
    (sops : List (Op Search.Action)) (ops : List (Op Transfer)),
    NeverNull Explore.Action.run e eops ∧ NeverNull Search.Action.run s sops ∧
      NeverNull Map.request m ops ∧ NeverNull PhotoDetail.requestDetail d ops ∧
      NeverNull PhotoComment.requestComments c ops := by
  intro h
  have h := (h (created ⟨[], KeyStore.Store.empty⟩) (created ⟨[], KeyStore.Store.empty⟩)
    (created ()) (created ⟨lit "7"⟩) (created ⟨[], lit "7"⟩) [] [] recreated).2.2.1
    [.subscribe 0, .unsubscribe] (.act noAnswer) [] rfl
  revert h
  decide +kernel

end

end Cookpit
