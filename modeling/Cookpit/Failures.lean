import Cookpit.Lib.Shown
import Cookpit.Protocol
import Cookpit.Search.Answers
import Mathlib.Data.List.Chain

/-!
# What a failure leaves on screen

The explore and the search controller store what they show, so a failure shows
it once more. The comments of a photo are shown and not stored: a failure
erases them, and keeps what is on screen exactly if there is nothing to erase
(`keepsShown_iff`).
-/

namespace Cookpit

open ByteString Json11 Observed Runs

/-- A page and how the request for it ends. -/
abbrev PageRequest := Int8 × Transfer

-- ---------------------------------------------------------------------------
-- Explore
-- ---------------------------------------------------------------------------

namespace Explore

section
variable [Floats] {s : State}

def runRequest (r : PageRequest) : M Unit := request r.1 r.2

theorem stored_start (hs : s.Attended o) (page : Int8) :
    Stored ViewData.error ViewData.explores Data.items o s (exec (start page) s).2 := by
  rw [exec_start_attended hs]
  split
  · rename_i items _
    exact Stored.of_updates [.onBeginUpdate, .onUpdate (cacheUpdate items)]
      (withItems_attended hs items).heard rfl ⟨fun h => absurd h Bool.false_ne_true, trivial⟩ rfl
  · exact Stored.of_updates [.onBeginUpdate] hs.heard rfl trivial rfl

theorem stored_answer (hs : s.Attended o) (page : Int8) (t : Transfer) :
    Stored ViewData.error ViewData.explores Data.items o s (exec (answer page t) s).2 := by
  by_cases ht : t.Success
  · rw [exec_answer_of_success ht, exec_onSuccess_attended hs]
    split
    · rename_i items _
      exact Stored.of_updates [.onUpdate (okUpdate items), .onEndUpdate]
        ⟨hs.observer, hs.quiet⟩ rfl ⟨fun h => absurd h Bool.false_ne_true, trivial⟩ rfl
    · exact Stored.refl hs
    · exact Stored.refl hs
  · rw [exec_answer_failure hs ht]
    exact Stored.of_updates [.onUpdate (errorUpdate t.body s.self.items), .onEndUpdate]
      hs.heard rfl ⟨fun _ => rfl, trivial⟩ rfl

theorem stored_request (hs : s.Attended o) (r : PageRequest) :
    Stored ViewData.error ViewData.explores Data.items o s (after runRequest s r) :=
  (stored_start hs r.1).bind fun _ _ hs' => stored_answer hs' r.1 r.2

end

end Explore

-- ---------------------------------------------------------------------------
-- Search
-- ---------------------------------------------------------------------------

namespace Search

variable {s : State} {t : Transfer}

theorem stored_start (hs : s.Attended o) (key : Bytes) :
    Stored ViewData.error ViewData.results Data.items o s (exec (start key) s).2 := by
  rw [exec_start key hs]
  exact Stored.of_updates [.onBeginUpdate] ⟨hs.observer, hs.quiet⟩ rfl trivial rfl

section
variable [Floats] [Hashing]

theorem stored_answer (hs : s.Attended o) (key : Bytes) (page : Int8)
    (ht : t.Success → (stoi (total t.body)).isOk) :
    Stored ViewData.error ViewData.results Data.items o s (exec (answer key page t) s).2 := by
  obtain ⟨v, hv⟩ := Option.isSome_iff_exists.mp ((result_isSome t s.self.items).mpr ht)
  have hcalls := answer_calls hs key page t
  have hitems := answer_items hs key page t
  have hresults := results_of_mem_result hv
  rw [hv] at hcalls
  refine Stored.of_updates _ (answer_attended hs key page t) hcalls ⟨fun herror => ?_, trivial⟩ ?_
  · exact results_of_error hv herror
  · rw [hitems, ← hresults]
    rfl

theorem stored_search (hs : s.Attended o) {q : Query}
    (hq : q.transfer.Success → (stoi (total q.transfer.body)).isOk) :
    Stored ViewData.error ViewData.results Data.items o s (after Query.run s q) := by
  rw [after, Query.run, search_eq]
  exact (stored_start hs q.key).bind fun _ _ hs' => stored_answer hs' q.key q.page hq

end

end Search

-- ---------------------------------------------------------------------------
-- Comments
-- ---------------------------------------------------------------------------

section
variable [Floats]

namespace PhotoComment

variable {s : State}

theorem after_requestComments [Hashing] (hs : s.Attended o) (t : Transfer) :
    after requestComments s t =
      s.heard o [.onBeginUpdate, .onUpdate (result t s.self.items), .onEndUpdate] := by
  have hb : (s.heard o [.onBeginUpdate]).Attended o := hs.heard
  have hexec : exec (if t.Success then onSuccess t.body else onFailure t.body)
      (s.heard o [.onBeginUpdate]) =
        exec (publish (result t s.self.items)) (s.heard o [.onBeginUpdate]) := by
    rw [result]
    split <;> rfl
  rw [after, requestComments, exec_bind, exec_get]
  simp only
  rw [exec_requestUrl_some hs.observer, hs.notified, hexec, exec_publish hb, State.heard_heard]
  rfl

/-- Every request of a run shows one list, and what is stored never changes. -/
theorem run_requestComments [Hashing] (hs : s.Attended o) (ts : List Transfer) :
    run (after requestComments) s ts = s.heard o (ts.flatMap fun t =>
      [.onBeginUpdate, .onUpdate (result t s.self.items), .onEndUpdate]) := by
  induction ts generalizing s with
  | nil => simp [State.heard]
  | cons t ts ih =>
    rw [run_cons, after_requestComments hs, ih hs.heard, State.heard_heard, List.flatMap_cons]
    rfl

theorem updates_run [Hashing] (hs : s.Attended o) (ts : List Transfer) :
    updates s (run (after requestComments) s ts) = ts.map (result · s.self.items) := by
  rw [run_requestComments hs, updates_of_calls o _ rfl, List.filterMap_flatMap, List.map_eq_flatMap]
  rfl

theorem error_result (t : Transfer) (items : List DetailViewData) :
    (result t items).error ↔ ¬ t.Success := by
  rw [result]
  split <;> rename_i ht
  · exact iff_of_false Bool.false_ne_true fun h => h ht
  · exact iff_of_true rfl ht

/-- A failure shows the empty list, which erases the comments of a success. -/
theorem keepsShown_results (ts : List Transfer) (shown : List DetailViewData) :
    KeepsShown ViewData.error ViewData.comments shown (ts.map (result · [])) ↔
      (∀ t ∈ ts.head?, ¬ t.Success → shown = []) ∧
        ts.IsChain fun t t' => t.Success → ¬ t'.Success → (loaded t.body).comments = [] := by
  induction ts generalizing shown with
  | nil => simp [KeepsShown]
  | cons t ts ih =>
    have hshown : (¬ t.Success → (result t []).comments = shown) ↔ (¬ t.Success → shown = []) := by
      refine forall_congr' fun ht => ?_
      rw [result, if_neg ht]
      exact eq_comm
    have hnext : (∀ t' ∈ ts.head?, ¬ t'.Success → (result t []).comments = []) ↔
        ∀ t' ∈ ts.head?, t.Success → ¬ t'.Success → (loaded t.body).comments = [] := by
      refine forall₂_congr fun t' _ => ?_
      by_cases ht : t.Success
      · rw [result, if_pos ht, forall_prop_of_true ht]
      · rw [result, if_neg ht]
        exact iff_of_true (fun _ => rfl) fun h => absurd h ht
    rw [List.map_cons, KeepsShown, error_result, hshown, ih, hnext, List.isChain_cons]
    simp

end PhotoComment

-- ---------------------------------------------------------------------------
-- Runs
-- ---------------------------------------------------------------------------

variable [Hashing]

/-- In a run of requests behind a reset, a failed explore request shows the
list shown last, and so does a failed search if the totals of the answers are
numbers. A failed request for comments does exactly if it never comes right
behind an answer with comments. -/
theorem keepsShown_iff (o : Observer) (e : Explore.State) (s : Search.State)
    (c : PhotoComment.State) (he : e.Attended o) (hs : s.Attended o) (hc : c.Attended o)
    (hei : e.self.items = []) (hsi : s.self.items = []) (hci : c.self.items = [])
    (rs : List PageRequest) (qs : List Query) (ts : List Transfer)
    (hq : ∀ q ∈ qs, q.transfer.Success → (stoi (Search.total q.transfer.body)).isOk) :
    KeepsShown Explore.ViewData.error Explore.ViewData.explores []
        (updates e (run (after Explore.runRequest) e rs)) ∧
      KeepsShown Search.ViewData.error Search.ViewData.results []
        (updates s (run (after Query.run) s qs)) ∧
      (KeepsShown PhotoComment.ViewData.error PhotoComment.ViewData.comments []
          (updates c (run (after PhotoComment.requestComments) c ts)) ↔
        ts.IsChain fun t t' =>
          t.Success → ¬ t'.Success → (PhotoComment.loaded t.body).comments = []) := by
  refine ⟨?_, ?_, ?_⟩
  · rw [← hei]
    exact (stored_run (fun _ r he _ => Explore.stored_request he r) he).keeps
  · rw [← hsi]
    exact (stored_run (fun _ q hs hm => Search.stored_search hs (hq q hm)) hs).keeps
  · rw [PhotoComment.updates_run hc, hci, PhotoComment.keepsShown_results]
    simp

end

section
attribute [local instance] integerFloats listed

/-- One comment. -/
def commented : Transfer :=
  ⟨true, 200,
    lit "\x7b\"comments\":\x7b\"comment\":[\x7b\"id\":\"7\",\"author\":\"8\"," ++
      lit "\"authorname\":\"ann\",\"iconfarm\":1,\"iconserver\":\"2\",\"_content\":\"nice\"\x7d]" ++
      lit "\x7d,\"stat\":\"ok\"\x7d"⟩

theorem keepsShown_iff_commented :
    ¬ KeepsShown PhotoComment.ViewData.error PhotoComment.ViewData.comments []
      (updates (subscribed 0 ⟨[], lit "7"⟩)
        (run (after PhotoComment.requestComments) (subscribed 0 ⟨[], lit "7"⟩)
          [commented, noAnswer])) := by
  obtain ⟨-, -, h⟩ := keepsShown_iff 0 (Explore.fresh 0 KeyStore.Store.empty)
    (subscribed 0 ⟨[], KeyStore.Store.empty⟩) (subscribed 0 ⟨[], lit "7"⟩) Explore.fresh_attended
    (subscribed_attended 0 _) (subscribed_attended 0 _) rfl rfl rfl [] [] [commented, noAnswer]
    (by simp)
  rw [h, List.isChain_cons_cons]
  intro hchain
  exact absurd (hchain.1 (by decide) (by decide)) (by decide +kernel)

/-- The comment is shown, and gone when the next request fails. -/
theorem not_keepsShown : ¬ ∀ (o : Observer) (c : PhotoComment.State) (ts : List Transfer),
    c.Attended o → c.self.items = [] → (∀ t ∈ ts, t.Success → (parse t.body).isSome) →
    KeepsShown PhotoComment.ViewData.error PhotoComment.ViewData.comments []
      (updates c (run (after PhotoComment.requestComments) c ts)) := by
  intro h
  have h := h 0 (subscribed 0 ⟨[], lit "7"⟩) [commented, noAnswer] (subscribed_attended 0 _) rfl
    (by decide +kernel)
  revert h
  decide +kernel

end

end Cookpit
