import Cookpit.Explore.Laws
import Cookpit.Photo
import Cookpit.Search

/-!
# Errors inside successful answers

The service reports its errors with status 200, and `curl_get` tells success
from failure by the status. Nothing an answer with such a status publishes is
marked as an error, so none of the four controllers reports one, whatever the
body says (`errors_not_handled`).
-/

namespace Cookpit

open ByteString Json11 Observed

structure Transfer.Rejects (t : Transfer) : Prop where
  success : t.Success
  errorBody : ∀ json, parse t.body = some json → (json.get "stat").stringValue ≠ lit "ok"

/-- The last update between two states is there and marked as an error. -/
def Reported {V σ : Type} (error : V → Bool) (s s' : State V σ) : Prop :=
  ∃ v, (updates s s').getLast? = some v ∧ error v = true

theorem not_reported {V σ α : Type} {error : V → Bool} {x : M Thrown V σ α}
    (h : Emits (fun v => error v = false) x) (s : State V σ) :
    ¬ Reported error s (exec x s).2 := by
  rintro ⟨v, hv, herror⟩
  have hfalse : error v = false := h.updates s v (List.mem_of_getLast? hv)
  rw [herror] at hfalse
  cases hfalse

theorem emits_requestUrl {V σ : Type} {p : V → Prop} {url : Bytes} {t : Transfer}
    {onSuccess onFailure : Bytes → M Thrown V σ Unit} (ht : t.Success)
    (h : Emits p (onSuccess t.body)) : Emits p (requestUrl url t onSuccess onFailure) := by
  refine Emits.bind (emits_notify (by rintro v ⟨⟩)) fun _ => ?_
  rwa [curlGet, if_pos ht]

-- ---------------------------------------------------------------------------
-- What a successful answer publishes
-- ---------------------------------------------------------------------------

theorem Explore.emits_mergeItems (p : Explore.ViewData → Prop) (page : Int)
    (data : List Explore.DetailViewData) : Emits p (Explore.mergeItems page data) :=
  Emits.bind emits_get fun _ => Emits.bind (emits_attempt _) fun _ => emits_modifySelf _

section
variable [Floats] {t : Transfer} (ht : t.Success)
include ht

theorem Explore.emits_request (page : Int8) :
    Emits (fun v => Explore.ViewData.error v = false) (Explore.request page t) := by
  refine Emits.bind ?_ fun _ => ?_
  · refine Emits.bind (emits_notify (by rintro v ⟨⟩)) fun _ => Emits.bind emits_get fun s => ?_
    refine Emits.bind (Explore.emits_mergeItems _ _ _) fun _ => Emits.bind emits_get fun s' => ?_
    refine emits_notify ?_
    rintro v ⟨⟩
    rfl
  · rw [Explore.answer, curlGet, if_pos ht]
    refine Emits.bind (emits_attempt _) fun p => ?_
    split
    · exact emits_pure _
    · refine Emits.bind (Explore.emits_mergeItems _ _ _) fun _ => Emits.bind emits_get fun s => ?_
      exact Emits.bind (emits_publish rfl) fun _ => emits_modifySelf _

variable [Hashing]

theorem Search.emits_search (key : Bytes) (page : Int8) :
    Emits (fun v => Search.ViewData.error v = false) (Search.search key page t) := by
  refine Emits.bind (emits_modifySelf _) fun _ => emits_requestUrl ht ?_
  refine Emits.bind (emits_modifySelf _) fun _ => Emits.ifObserved (Emits.bind ?_ fun _ => ?_)
  · exact emits_get
  · refine Emits.bind (emits_attempt _) fun n => Emits.bind (emits_notify ?_) fun _ => ?_
    · rintro v ⟨⟩
      rfl
    · exact emits_notify (by rintro v ⟨⟩)

theorem PhotoDetail.emits_requestDetail :
    Emits (fun v => PhotoDetail.ViewData.error v = false) (PhotoDetail.requestDetail t) :=
  Emits.bind emits_get fun _ => emits_requestUrl ht (emits_publish rfl)

theorem PhotoComment.emits_requestComments :
    Emits (fun v => PhotoComment.ViewData.error v = false) (PhotoComment.requestComments t) :=
  Emits.bind emits_get fun _ => emits_requestUrl ht (emits_publish rfl)

end

-- ---------------------------------------------------------------------------
-- Error bodies
-- ---------------------------------------------------------------------------

section
variable [Floats]

/-- The request ends in an update marked as an error, and leaves the list and
the cached page alone. -/
structure Explore.HandlesError (s : Explore.State) (page : Int8) (t : Transfer) : Prop where
  reported : Reported Explore.ViewData.error s (exec (Explore.request page t) s).2
  items : (exec (Explore.request page t) s).2.self.items = s.self.items
  cache : (exec (Explore.request page t) s).2.self.db.get (Explore.constructUrl baseUrl page) =
    s.self.db.get (Explore.constructUrl baseUrl page)

/-- On the contrary, the body takes the place of the cached page. -/
theorem Explore.cache_replaced {s : Explore.State} {t : Transfer} (hs : s.Attended o) (h1 : 1 ≤ n)
    (hn : n < 128) (hb : Explore.PageBounded n t s) (ht : t.Success) :
    (exec (Explore.request (Int8.ofNat n) t) s).2.self.db.get
      (Explore.constructUrl baseUrl (Int8.ofNat n)) = some (cStr t.body) := by
  rw [Explore.exec_request hs h1 hn hb, Explore.requested_db, Explore.kept, if_pos ht,
    Explore.saved, KeyStore.Store.get_put, if_pos rfl]

variable [Hashing]

structure Search.HandlesError (s : Search.State) (key : Bytes) (page : Int8) (t : Transfer) :
    Prop where
  reported : Reported Search.ViewData.error s (exec (Search.search key page t) s).2
  items : (exec (Search.search key page t) s).2.self.items = s.self.items

structure PhotoDetail.HandlesError (s : PhotoDetail.State) (t : Transfer) : Prop where
  reported : Reported PhotoDetail.ViewData.error s (exec (PhotoDetail.requestDetail t) s).2

structure PhotoComment.HandlesError (s : PhotoComment.State) (t : Transfer) : Prop where
  reported : Reported PhotoComment.ViewData.error s (exec (PhotoComment.requestComments t) s).2
  items : (exec (PhotoComment.requestComments t) s).2.self.items = s.self.items

/-- No controller handles an error in a successful answer, in any state. -/
theorem errors_not_handled (t : Transfer) (ht : t.Rejects) (e : Explore.State) (page : Int8)
    (s : Search.State) (key : Bytes) (p : Int8) (d : PhotoDetail.State) (c : PhotoComment.State) :
    ¬ Explore.HandlesError e page t ∧ ¬ Search.HandlesError s key p t ∧
      ¬ PhotoDetail.HandlesError d t ∧ ¬ PhotoComment.HandlesError c t :=
  ⟨fun h => not_reported (Explore.emits_request ht.success page) e h.reported,
    fun h => not_reported (Search.emits_search ht.success key p) s h.reported,
    fun h => not_reported (PhotoDetail.emits_requestDetail ht.success) d h.reported,
    fun h => not_reported (PhotoComment.emits_requestComments ht.success) c h.reported⟩

end

section
attribute [local instance] integerFloats listed

def failAnswer : Transfer :=
  ⟨true, 200, lit "\x7b\"stat\":\"fail\",\"code\":105,\"message\":\"unavailable\"\x7d"⟩

theorem failAnswer_rejects : failAnswer.Rejects := by
  refine ⟨by decide, fun json h => ?_⟩
  have hstat : (parse failAnswer.body).map (fun json => (json.get "stat").stringValue) =
      some (lit "fail") := by decide +kernel
  rw [h, Option.map_some, Option.some_inj] at hstat
  rw [hstat]
  decide

theorem errors_not_handled_failAnswer :
    ¬ Explore.HandlesError (Explore.fresh 0 KeyStore.Store.empty) 1 failAnswer ∧
      ¬ Search.HandlesError (subscribed 0 ⟨[], KeyStore.Store.empty⟩) (lit "cat") 1 failAnswer ∧
      ¬ PhotoDetail.HandlesError (subscribed 0 ⟨lit "7"⟩) failAnswer ∧
      ¬ PhotoComment.HandlesError (subscribed 0 ⟨[], lit "7"⟩) failAnswer :=
  errors_not_handled failAnswer failAnswer_rejects (Explore.fresh 0 KeyStore.Store.empty) 1
    (subscribed 0 ⟨[], KeyStore.Store.empty⟩) (lit "cat") 1 (subscribed 0 ⟨lit "7"⟩)
    (subscribed 0 ⟨[], lit "7"⟩)

theorem error_not_handled : ¬ ∀ (s : Explore.State) (o : Observer) (page : Int8) (t : Transfer),
    s.Attended o → t.Rejects → Explore.HandlesError s page t := by
  intro h
  obtain ⟨v, hv, herror⟩ := (h (Explore.fresh 0 KeyStore.Store.empty) 0 1 failAnswer
    Explore.fresh_attended failAnswer_rejects).reported
  have hlast : ((updates (Explore.fresh 0 KeyStore.Store.empty)
      (exec (Explore.request 1 failAnswer) (Explore.fresh 0 KeyStore.Store.empty)).2).getLast?).map
        Explore.ViewData.error = some false := by decide +kernel
  rw [hv, Option.map_some, Option.some_inj, herror] at hlast
  cases hlast

end

end Cookpit
