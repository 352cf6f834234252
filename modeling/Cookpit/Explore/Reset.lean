import Cookpit.Explore.Laws
import Cookpit.Lib.Runs

/-!
# Resets between a request and its answer

Requests wait for the network while `reset` clears the list. Nothing in a
request says before which reset it was started, so an answer that comes late
is merged like any other. It leaves the list alone only where it brings
nothing, finds its own photos in place, or names a negative page (`Inert`);
under that condition, and no other, every list published consists of photos
brought since the last reset (`reset_isolates_iff`).
-/

namespace Cookpit.Explore

open ByteString Json11 Observed Paging Runs

structure Ticket where
  page : Int8
  /-- No reset came since it was started. -/
  current : Bool
  deriving DecidableEq, Repr

structure System where
  controller : State
  pending : List Ticket
  /-- The photos, cached or served, of the requests started since the last reset. -/
  brought : List DetailViewData

/-- What can happen next; answers come in any order. -/
inductive Event
  | reset
  | start (page : Int8)
  | answer (i : Nat) (transfer : Transfer)

section
variable [Floats]

def System.reset (y : System) : System :=
  { controller := (exec Explore.reset y.controller).2
    pending := y.pending.map fun k => { k with current := false }
    brought := [] }

/-- A start that stops never reaches the network. -/
def System.start (page : Int8) (y : System) : System :=
  let (r, s) := exec (Explore.start page) y.controller
  { controller := s
    pending := match r with
      | .ok () => y.pending ++ [⟨page, true⟩]
      | .error _ => y.pending
    brought := y.brought ++ requestDb y.controller.self.db page }

def System.answer (i : Nat) (t : Transfer) (y : System) : System :=
  match y.pending[i]? with
  | none => y
  | some k =>
    { controller := (exec (Explore.answer k.page t) y.controller).2
      pending := y.pending.eraseIdx i
      brought :=
        if k.current ∧ t.Success then y.brought ++ constructDetailViewDataFromData t.body
        else y.brought }

def System.next (y : System) : Event → System
  | .reset => y.reset
  | .start page => y.start page
  | .answer i t => y.answer i t

/-- The answer to a request from before the last reset leaves the list as it
is, and stays inside it. -/
def KeepsItems (y : System) : Event → Prop
  | .answer i t => ∀ k ∈ y.pending[i]?, k.current = false →
      (exec (Explore.answer k.page t) y.controller).1 ≠ .error .outOfBounds ∧
        (y.answer i t).controller.self.items = y.controller.self.items
  | _ => True

/-- Late answers change nothing, and every list published consists of photos
brought since the last reset. -/
def Isolated (y : System) (e : Event) : Prop :=
  KeepsItems y e ∧
    ∀ v ∈ updates y.controller (y.next e).controller, v.explores ⊆ (y.next e).brought

/-- Merging `data` as the answer to `page` writes what `items` has there. -/
def Inert (page : Int8) (data items : List DetailViewData) : Prop :=
  data = [] ∨ page.toInt < 0 ∨
    (0 < page.toInt ∧ leadingDigit page.toInt.toNat * itemPerPage ≤ items.length ∧
      (items.drop ((leadingDigit page.toInt.toNat - 1) * itemPerPage)).take data.length = data)

instance (page : Int8) (data items : List DetailViewData) : Decidable (Inert page data items) := by
  unfold Inert
  infer_instance

def LateInert (y : System) : Event → Prop
  | .answer i t => ∀ k ∈ y.pending[i]?, k.current = false → t.Success →
      Inert k.page (constructDetailViewDataFromData t.body) y.controller.self.items
  | _ => True

instance (y : System) (e : Event) : Decidable (LateInert y e) := by
  cases e <;> unfold LateInert <;> infer_instance

end

-- ---------------------------------------------------------------------------
-- What a merge adds
-- ---------------------------------------------------------------------------

theorem subset_append_of_subset {α : Type} {a b c d : List α} (h : a ⊆ b) (hd : d ⊆ a ++ c) :
    d ⊆ b ++ c := fun x hx => by
  rcases List.mem_append.mp (hd hx) with hx | hx
  · exact List.mem_append_left _ (h hx)
  · exact List.mem_append_right _ hx

theorem mergePage_subset {page : Int} (h : mergePage page data items = .ok items') :
    items' ⊆ items ++ data := by
  rw [mergePage] at h
  split at h
  · split at h
    · rename_i hcopy
      cases h
      exact copyTo_subset hcopy
    · cases h
  · cases h
    exact List.Subset.refl _

theorem mergePage_zero (data items : List DetailViewData) :
    mergePage 0 data items = if data = [] then .ok items else .error .outOfBounds := by
  have hstart : ((0 : Int) - 1) * (itemPerPage : Nat) = -10 := by decide
  have hsize : sizeT (0 * (itemPerPage : Nat)) = 0 := by decide
  rw [mergePage, hstart, hsize, if_pos (Nat.zero_le _)]
  cases data with
  | nil => rfl
  | cons x data => rfl

theorem place_eq_self_iff {data items : List DetailViewData} :
    place itemPerPage slot data items = items ↔ data = [] ∨
      (slot * itemPerPage ≤ items.length ∧
        (items.drop ((slot - 1) * itemPerPage)).take data.length = data) := by
  rw [place]
  split
  · rename_i hc
    rw [overwrite_eq_self_iff, and_iff_right hc]
    refine ⟨.inr, ?_⟩
    rintro (rfl | h)
    · rfl
    · exact h
  · rename_i hc
    rw [List.append_right_eq_self]
    exact ⟨.inl, fun h => h.resolve_right fun h => hc h.1⟩

theorem fits_of_place_eq_self {data items : List DetailViewData}
    (h : place itemPerPage slot data items = items) : Fits slot data.length items.length := by
  intro hc
  rcases place_eq_self_iff.mp h with rfl | ⟨-, hslice⟩
  · have hle : (slot - 1) * itemPerPage ≤ slot * itemPerPage :=
      Nat.mul_le_mul_right _ (Nat.sub_le slot 1)
    simpa using hle.trans hc
  · have hlen := congrArg List.length hslice
    rw [List.length_take, List.length_drop] at hlen
    have hle : (slot - 1) * itemPerPage ≤ slot * itemPerPage :=
      Nat.mul_le_mul_right _ (Nat.sub_le slot 1)
    omega

section
variable [Floats]

theorem answered_subset (h : answered url body items = .ok (some items')) :
    items' ⊆ items ++ constructDetailViewDataFromData body := by
  rw [answered] at h
  split at h
  · rename_i p _
    split at h
    · cases h
    · cases hm : mergePage p (constructDetailViewDataFromData body) items with
      | error e => rw [hm] at h; cases h
      | ok merged =>
        rw [hm] at h
        cases h
        exact mergePage_subset hm
  · cases h

theorem answered_inert_iff (page : Int8) (body : Bytes) (items : List DetailViewData) :
    (answered (constructUrl baseUrl page) body items ≠ .error .outOfBounds ∧
      ∀ items', answered (constructUrl baseUrl page) body items = .ok (some items') →
        items' = items) ↔
      Inert page (constructDetailViewDataFromData body) items := by
  rcases Int.lt_trichotomy page.toInt 0 with hneg | hzero | hpos
  · have ha : answered (constructUrl baseUrl page) body items =
        .error (.thrown .invalidArgument) := by
      rw [answered, pageOfUrl_negative hneg]
    rw [ha]
    exact iff_of_true ⟨by simp, by simp⟩ (.inr (.inl hneg))
  · have ha : answered (constructUrl baseUrl page) body items =
        if constructDetailViewDataFromData body = [] then .ok (some items)
        else .error .outOfBounds := by
      rw [answered, pageOfUrl_eq, hzero, show stoi ((intToString 0).take 1) = .ok 0 by decide]
      simp only [if_neg (show (0 : Int) ≠ -1 by decide), mergePage_zero]
      split <;> rfl
    rw [ha, Inert, hzero]
    by_cases hd : constructDetailViewDataFromData body = [] <;> simp [hd]
  · obtain ⟨n, h1, hn, rfl⟩ := exists_page hpos
    have hpage : (Int8.ofNat n).toInt = (n : Int) := Int8.toInt_ofNat_of_lt hn
    have hnneg : ¬ (n : Int) < 0 := by omega
    have hnpos : (0 : Int) < n := by omega
    rw [answered_constructUrl h1 hn, Inert, hpage, Int.toNat_natCast]
    simp only [hnneg, hnpos, false_or, true_and]
    rw [← place_eq_self_iff]
    by_cases hf : Fits (leadingDigit n) (constructDetailViewDataFromData body).length items.length
    · simp [if_pos hf, merged]
    · rw [if_neg hf]
      exact iff_of_false (by simp) fun hself => hf (fits_of_place_eq_self hself)

-- ---------------------------------------------------------------------------
-- Runs
-- ---------------------------------------------------------------------------

/-- The observer stays and the list holds only photos brought since the last
reset. -/
structure System.Sound (y : System) (o : Observer) : Prop where
  attended : y.controller.Attended o
  items : y.controller.self.items ⊆ y.brought

variable {y : System}

theorem reset_isolated (hy : y.Sound o) : Isolated y .reset ∧ (y.next .reset).Sound o := by
  have hnone : updates y.controller (y.next .reset).controller = [] := by
    simp [updates, System.next, System.reset]
  refine ⟨⟨trivial, by simp [hnone]⟩, ⟨withItems_attended hy.attended [], ?_⟩⟩
  exact List.nil_subset _

theorem start_isolated (hy : y.Sound o) (page : Int8) :
    Isolated y (.start page) ∧ (y.next (.start page)).Sound o := by
  have hstart := exec_start_attended hy.attended page
  cases hm : mergePage page.toInt (requestDb y.controller.self.db page) y.controller.self.items with
  | error e =>
    rw [hm] at hstart
    simp only [Isolated, System.next, System.start, hstart]
    refine ⟨⟨trivial, ?_⟩, ⟨hy.attended.heard, fun x hx => List.mem_append_left _ (hy.items hx)⟩⟩
    rw [updates_of_calls o [.onBeginUpdate] rfl]
    simp [Call.viewData?]
  | ok items =>
    rw [hm] at hstart
    have hsub : items ⊆ y.brought ++ requestDb y.controller.self.db page :=
      subset_append_of_subset hy.items (mergePage_subset hm)
    simp only [Isolated, System.next, System.start, hstart]
    refine ⟨⟨trivial, ?_⟩, ⟨(withItems_attended hy.attended _).heard, hsub⟩⟩
    rw [updates_of_calls o [.onBeginUpdate, .onUpdate (cacheUpdate items)] rfl]
    simpa [Call.viewData?, cacheUpdate] using hsub

def Ticket.adds (k : Ticket) (t : Transfer) : List DetailViewData :=
  if k.current ∧ t.Success then constructDetailViewDataFromData t.body else []

theorem answer_eq {k : Ticket} (hk : y.pending[i]? = some k) (t : Transfer) :
    y.next (.answer i t) =
      { controller := (exec (Explore.answer k.page t) y.controller).2
        pending := y.pending.eraseIdx i
        brought := y.brought ++ k.adds t } := by
  rw [System.next, System.answer, hk, Ticket.adds]
  simp only [System.mk.injEq, true_and]
  split <;> simp

/-- What an answer does: nothing, or it leaves one list and publishes it. -/
theorem answer_cases (hy : y.Sound o) (page : Int8) (t : Transfer) :
    (∃ e, exec (Explore.answer page t) y.controller = (.error e, y.controller) ∧ t.Success ∧
        answered (constructUrl baseUrl page) t.body y.controller.self.items = .error e) ∨
      (exec (Explore.answer page t) y.controller = (.ok (), y.controller) ∧ t.Success ∧
        answered (constructUrl baseUrl page) t.body y.controller.self.items = .ok none) ∨
      ∃ s items v, exec (Explore.answer page t) y.controller = (.ok (), s) ∧ s.Attended o ∧
        s.self.items = items ∧ updates y.controller s = [v] ∧ v.explores = items ∧
        if t.Success then
          answered (constructUrl baseUrl page) t.body y.controller.self.items = .ok (some items)
        else items = y.controller.self.items := by
  have hs := hy.attended
  by_cases ht : t.Success
  · rw [exec_answer_of_success ht, exec_onSuccess_attended hs]
    cases ha : answered (constructUrl baseUrl page) t.body y.controller.self.items with
    | error e => exact .inl ⟨e, rfl, ht, rfl⟩
    | ok r =>
      cases r with
      | none => exact .inr (.inl ⟨rfl, ht, rfl⟩)
      | some items =>
        refine .inr (.inr ⟨_, items, okUpdate items, rfl, ⟨hs.observer, hs.quiet⟩, rfl, ?_, rfl,
          ?_⟩)
        · exact updates_of_calls o [.onUpdate (okUpdate items), .onEndUpdate] rfl
        · rw [if_pos ht]
  · rw [exec_answer_failure hs ht]
    refine .inr (.inr ⟨_, _, errorUpdate t.body y.controller.self.items, rfl, hs.heard, rfl, ?_,
      rfl, ?_⟩)
    · exact updates_of_calls o [.onUpdate (errorUpdate t.body _), .onEndUpdate] rfl
    · rw [if_neg ht]
      rfl

theorem answer_isolated_iff (hy : y.Sound o) (i : Nat) (t : Transfer) :
    (Isolated y (.answer i t) ↔ LateInert y (.answer i t)) ∧
      (Isolated y (.answer i t) → (y.next (.answer i t)).Sound o) := by
  cases hk : y.pending[i]? with
  | none =>
    have hnext : y.next (.answer i t) = y := by rw [System.next, System.answer, hk]
    rw [Isolated, KeepsItems, LateInert, hnext, hk]
    exact ⟨by simp [updates], fun _ => hy⟩
  | some k =>
    have hanswer : y.answer i t = y.next (.answer i t) := rfl
    have hinert := answered_inert_iff k.page t.body y.controller.self.items
    rw [Isolated, KeepsItems, LateInert, hanswer, answer_eq hk, hk]
    simp only [Option.mem_some_iff, forall_eq', ← hinert]
    rcases answer_cases hy k.page t with ⟨e, he, ht, ha⟩ | ⟨he, ht, ha⟩ |
      ⟨s, items, v, he, hs, hi, hv, hvi, ha⟩
    · rw [he, ha]
      refine ⟨by simp [updates, ht], fun _ => ⟨hy.attended, ?_⟩⟩
      exact fun x hx => List.mem_append_left _ (hy.items hx)
    · rw [he, ha]
      refine ⟨by simp [updates, ht], fun _ => ⟨hy.attended, ?_⟩⟩
      exact fun x hx => List.mem_append_left _ (hy.items hx)
    · rw [he]
      simp only [hv, List.forall_mem_singleton, hvi, hi]
      refine ⟨?_, fun h => ⟨hs, hi ▸ h.2⟩⟩
      by_cases ht : t.Success
      · rw [if_pos ht] at ha
        rw [ha]
        by_cases hc : k.current = true
        · -- A request started since the last reset may add its photos.
          have hsub := subset_append_of_subset hy.items (answered_subset ha)
          simp [hc, ht, Ticket.adds, hsub]
        · have hc' : k.current = false := by simpa using hc
          have hsub : items = y.controller.self.items → items ⊆ y.brought := fun h => h ▸ hy.items
          simpa [hc', ht, Ticket.adds] using hsub
      · rw [if_neg ht] at ha
        subst ha
        have hsub : y.controller.self.items ⊆ y.brought ++ k.adds t := fun x hx =>
          List.mem_append_left _ (hy.items hx)
        simp [ht, hsub]

theorem isolated_iff (hy : y.Sound o) (e : Event) : Isolated y e ↔ LateInert y e := by
  cases e with
  | reset => exact iff_of_true (reset_isolated hy).1 trivial
  | start page => exact iff_of_true (start_isolated hy page).1 trivial
  | answer i t => exact (answer_isolated_iff hy i t).1

theorem System.Sound.next (hy : y.Sound o) (e : Event) (h : Isolated y e) : (y.next e).Sound o := by
  cases e with
  | reset => exact (reset_isolated hy).2
  | start page => exact (start_isolated hy page).2
  | answer i t => exact (answer_isolated_iff hy i t).2 h

/-- Along every interleaving, answers from before the last reset leave the
list alone and every list published holds only photos brought since then,
exactly if each such answer is inert where it comes. -/
theorem reset_isolates_iff (y : System) (o : Observer) (events : List Event) (hy : y.Sound o) :
    Every System.next Isolated y events ↔ Every System.next LateInert y events :=
  every_iff (I := fun y => y.Sound o) (A := fun _ => True) hy (fun _ _ => trivial)
    (fun _ e hy _ h => hy.next e h) fun _ e hy _ => isolated_iff hy e

end

section
attribute [local instance] integerFloats

def System.create (db : Db) : System :=
  { controller := fresh 0 db
    pending := []
    brought := [] }

theorem sound_create (db : Db) : (System.create db).Sound 0 := ⟨fresh_attended, List.nil_subset _⟩

/-- Page 2 is still waited for when the list is reset and page 1 asked for. -/
def refreshed : List Event := [.start 2, .reset, .start 1]

theorem reset_isolates_iff_refreshed :
    ¬ Every System.next Isolated (System.create KeyStore.Store.empty)
      (refreshed ++ [.answer 0 (pageAnswer "abcdefghij")]) := by
  rw [reset_isolates_iff _ 0 _ (sound_create _)]
  intro h
  have h := h refreshed (.answer 0 (pageAnswer "abcdefghij")) [] rfl
  revert h
  decide +kernel

theorem reset_not_isolates : ¬ ∀ (y : System) (o : Observer) (events : List Event), y.Sound o →
    Every System.next Isolated y events := by
  intro h
  have h := h (System.create KeyStore.Store.empty) 0
    (refreshed ++ [.answer 0 (pageAnswer "abcdefghij")]) (sound_create _)
    refreshed (.answer 0 (pageAnswer "abcdefghij")) [] rfl
  have h := (h.1 ⟨2, false⟩ (by decide +kernel) rfl).2
  revert h
  decide +kernel

end

end Cookpit.Explore
