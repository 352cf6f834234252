import Cookpit.Search.Isolation

/-!
# Pages of one search

Behind the last `searchWith` of a run, whatever was under way before and in
whatever order the answers come, the list is the photos of the answers in the
order they came, none lost and none repeated (`results_searched`), and the
requests are for pages 1, 2, 3 and so on (`requested_searched`). The page of a
request is an `int8_t`, which goes on with -128 behind 127.
-/

namespace Cookpit.Search

open ByteString Json11 Observed Runs

section
variable [Floats] [Hashing] {d : DataController}

/-- The photos of an answer that somebody waits for. -/
def arrived (d : DataController) : Event → List DetailViewData
  | .answer i t => if i < d.pending.length then photos t else []
  | _ => []

/-- The key and the page of the request an event starts. -/
def requested (d : DataController) (e : Event) : List (Bytes × Int8) :=
  ((d.next e).pending.drop d.pending.length).map fun ticket => (ticket.key, ticket.page.toInt8)

/-- The key of the next page that is asked for. -/
def Event.nextKey : Event → Option Bytes
  | .searchNextPage key => some key
  | _ => none

/-- The events up to the next search. -/
def Event.Continues : Event → Prop
  | .searchWith _ => False
  | _ => True

instance (e : Event) : Decidable e.Continues :=
  match e with
  | .searchWith _ => instDecidableFalse
  | .searchNextPage _ | .answer _ _ => instDecidableTrue

theorem next_attended (hd : d.controller.Attended o) (e : Event) :
    (d.next e).controller.Attended o := by
  cases e with
  | searchWith key =>
    have h : (resetFor key d).controller.Attended o := ⟨hd.observer, hd.quiet⟩
    simp only [DataController.next, searchWith, searchWithKey, exec_start key h]
    exact ⟨h.observer, h.quiet⟩
  | searchNextPage key =>
    simp only [DataController.next, searchNextPage, searchWithKey, exec_start key hd]
    exact ⟨hd.observer, hd.quiet⟩
  | answer i t =>
    simp only [DataController.next]
    split
    · exact hd
    · exact answer_attended hd _ _ _

theorem items_next (hd : d.controller.Attended o) {e : Event} (he : e.Continues) :
    (d.next e).controller.self.items = d.controller.self.items ++ arrived d e := by
  cases e with
  | searchWith key => cases he
  | searchNextPage key =>
    simp only [DataController.next, searchNextPage, searchWithKey, exec_start key hd, arrived,
      List.append_nil]
  | answer i t =>
    simp only [DataController.next, arrived]
    split
    · rename_i hi
      rw [if_neg (by simpa using hi), List.append_nil]
    · rename_i hi
      rw [if_pos (List.getElem?_eq_some_iff.mp hi).1]
      exact answer_items hd _ _ _

theorem items_run (hd : d.controller.Attended o) {events : List Event}
    (he : ∀ e ∈ events, e.Continues) :
    (run DataController.next d events).controller.self.items =
      d.controller.self.items ++ collect DataController.next arrived d events := by
  induction events generalizing d with
  | nil => exact (List.append_nil _).symm
  | cons e events ih =>
    obtain ⟨hhead, htail⟩ := List.forall_mem_cons.mp he
    rw [run_cons, collect, ih (next_attended hd e) htail, items_next hd hhead,
      List.append_assoc]

theorem attended_run (hd : d.controller.Attended o) (events : List Event) :
    (run DataController.next d events).controller.Attended o := by
  induction events generalizing d with
  | nil => exact hd
  | cons e events ih => exact ih (next_attended hd e)

-- ---------------------------------------------------------------------------
-- Requests
-- ---------------------------------------------------------------------------

theorem requested_searchWith (key : Bytes) (d : DataController) :
    requested d (.searchWith key) = [(key, 1)] := by
  have hlen : (resetFor key d).pending.length = d.pending.length := by simp [resetFor]
  simp only [requested, DataController.next, searchWith, searchWithKey, ← hlen, List.drop_left]
  rfl

theorem requested_next {n : Nat} (hpage : d.currentPage = Int32.ofNat n) {e : Event}
    (he : e.Continues) :
    requested d e = (e.nextKey.toList).map (fun key => (key, Int8.ofNat (n + 1))) ∧
      (d.next e).currentPage = Int32.ofNat (n + e.nextKey.toList.length) := by
  cases e with
  | searchWith key => cases he
  | searchNextPage key =>
    simp only [requested, DataController.next, searchNextPage, searchWithKey, List.drop_left,
      hpage, Event.nextKey, Option.toList]
    have hsucc : Int32.ofNat n + 1 = Int32.ofNat (n + 1) := (Int32.ofNat_add n 1).symm
    rw [hsucc]
    exact ⟨by simp [Int32.toInt8_ofNat'], rfl⟩
  | answer i t =>
    simp only [requested, DataController.next, Event.nextKey, Option.toList, List.map_nil]
    split
    · exact ⟨by simp, hpage⟩
    · refine ⟨?_, hpage⟩
      rw [answered, List.drop_eq_nil_of_le (List.length_eraseIdx_le _ _), List.map_nil]

theorem requested_run {n : Nat} (hpage : d.currentPage = Int32.ofNat n) {events : List Event}
    (he : ∀ e ∈ events, e.Continues) :
    collect DataController.next requested d events =
      ((events.filterMap Event.nextKey).zipIdx (n + 1)).map fun p => (p.1, Int8.ofNat p.2) := by
  induction events generalizing d n with
  | nil => rfl
  | cons e events ih =>
    obtain ⟨hhead, htail⟩ := List.forall_mem_cons.mp he
    obtain ⟨hrequested, hnext⟩ := requested_next hpage hhead
    rw [collect, hrequested, ih hnext htail, List.filterMap_cons]
    cases e.nextKey <;> rfl

-- ---------------------------------------------------------------------------
-- Behind a search
-- ---------------------------------------------------------------------------

/-- The state a search leaves, whatever came before it. -/
def searchedAnew (d : DataController) (before : List Event) (key : Bytes) : DataController :=
  (run DataController.next d before).next (.searchWith key)

theorem searchedAnew_items (hd : d.controller.Attended o) (before : List Event) (key : Bytes) :
    (searchedAnew d before key).controller.self.items = [] := by
  have hbefore := attended_run hd before
  have h : (resetFor key (run DataController.next d before)).controller.Attended o :=
    ⟨hbefore.observer, hbefore.quiet⟩
  simp only [searchedAnew, DataController.next, searchWith, searchWithKey, exec_start key h]
  rfl

theorem results_next (hd : d.controller.Attended o) (e : Event) :
    ∀ v ∈ updates d.controller (d.next e).controller,
      v.results = (d.next e).controller.self.items := by
  intro v hv
  cases e with
  | searchWith key =>
    have h : (resetFor key d).controller.Attended o := ⟨hd.observer, hd.quiet⟩
    have hnone : updates d.controller (d.next (.searchWith key)).controller = [] := by
      simp only [DataController.next, searchWith, searchWithKey, exec_start key h]
      exact updates_of_calls o [.onBeginUpdate] rfl
    rw [hnone] at hv
    cases hv
  | searchNextPage key =>
    have hnone : updates d.controller (d.next (.searchNextPage key)).controller = [] := by
      simp only [DataController.next, searchNextPage, searchWithKey, exec_start key hd]
      exact updates_of_calls o [.onBeginUpdate] rfl
    rw [hnone] at hv
    cases hv
  | answer i t =>
    simp only [DataController.next] at hv ⊢
    split at hv
    · rw [updates_of_calls_eq rfl] at hv
      cases hv
    · have hresult : v ∈ updates d.controller
          (exec (answer _ _ t) d.controller).2 := hv
      rw [answer_updates hd, Option.mem_toList] at hresult
      rw [results_of_mem_result hresult]
      exact (answer_items hd _ _ t).symm

/-- Every list published behind a search is the photos of the answers that have
come since, in the order they came. -/
theorem results_searched (d : DataController) (o : Observer) (key : Bytes)
    (before after : List Event) (e : Event) (hd : d.controller.Attended o)
    (hafter : ∀ e' ∈ after ++ [e], e'.Continues) :
    let shown := run DataController.next (searchedAnew d before key) after
    ∀ v ∈ updates shown.controller (shown.next e).controller,
      v.results =
        collect DataController.next arrived (searchedAnew d before key) (after ++ [e]) := by
  intro shown v hv
  have hanew : (searchedAnew d before key).controller.Attended o :=
    next_attended (attended_run hd before) _
  have hrun := items_run hanew hafter
  rw [searchedAnew_items hd, List.nil_append, run, List.foldl_append] at hrun
  rw [results_next (attended_run hanew after) e v hv, ← hrun]
  rfl

/-- The requests from a search on are for its pages 1, 2, 3 and so on, counted
in an `int8_t`. -/
theorem requested_searched (d : DataController) (key : Bytes) (before after : List Event)
    (hafter : ∀ e ∈ after, e.Continues) :
    collect DataController.next requested (run DataController.next d before)
        (.searchWith key :: after) =
      ((key :: after.filterMap Event.nextKey).zipIdx 1).map
        fun p => (p.1, Int8.ofNat p.2) := by
  have hpage : (searchedAnew d before key).currentPage = Int32.ofNat 1 := rfl
  rw [collect, requested_searchWith]
  exact congrArg ([(key, 1)] ++ ·) (requested_run hpage hafter)

end

section
attribute [local instance] integerFloats listed

/-- The second page has been answered before the first, and a search for dogs
still waits. -/
def dogsWaiting : DataController :=
  run DataController.next (searchedAnew unsearched [.searchWith (lit "dog")] (lit "cat"))
    [.searchNextPage (lit "cat"), .answer 2 (found "2")]

theorem results_searched_dogsWaiting :
    ∃ v ∈ updates dogsWaiting.controller (dogsWaiting.next (.answer 1 (found "1"))).controller,
      v.results = details (found "2").body ++ details (found "1").body := by
  refine ⟨okUpdate (found "1").body (details (found "2").body) 1, by decide +kernel, ?_⟩
  rw [results_searched unsearched 0 (lit "cat") [.searchWith (lit "dog")]
    [.searchNextPage (lit "cat"), .answer 2 (found "2")] (.answer 1 (found "1"))
    (subscribed_attended 0 _) (by decide) _ (by decide +kernel)]
  decide +kernel

theorem requested_searched_dogsWaiting :
    collect DataController.next requested
        (run DataController.next unsearched [.searchWith (lit "dog")])
        [.searchWith (lit "cat"), .answer 0 (found "1"), .searchNextPage (lit "cat")] =
      [(lit "cat", 1), (lit "cat", 2)] :=
  requested_searched unsearched (lit "cat") [.searchWith (lit "dog")]
    [.answer 0 (found "1"), .searchNextPage (lit "cat")] (by decide)

end

end Cookpit.Search
