import Cookpit.Explore.Laws
import Cookpit.Lib.Runs

/-!
# Where the copies write

The guard of both merges compares the length of the list with the end of a
page's slot, while the copy writes as many photos as the body has. The slice
stays inside the list exactly under `InBounds`, request by request and along
every run of actions (`copies_inBounds_iff`); bodies of at most ten photos
always satisfy it (`inBounds_of_pageBounded`).
-/

namespace Cookpit.Explore

open ByteString Json11 Observed Paging Runs

section
variable [Floats] {s : State} {n : Nat} {t : Transfer}

/-- The photos in the list once `cached` photos for `page` are merged into
`length` of them. -/
def lengthShown (page cached length : Nat) : Nat :=
  if page * itemPerPage ≤ length then length else length + cached

theorem length_shown (hf : Fits n (requestDb s.self.db (Int8.ofNat n)).length s.self.items.length) :
    (shown n s).length =
      lengthShown n (requestDb s.self.db (Int8.ofNat n)).length s.self.items.length := by
  rw [shown, place, lengthShown]
  split
  · rename_i hc
    exact length_overwrite (hf hc)
  · exact List.length_append

/-- Neither copy of a request writes behind the end of the list. -/
def InBounds (s : State) : Action → Prop
  | .request page t => ∀ o ∈ s.observer,
      Fits page.toInt.toNat (requestDb s.self.db page).length s.self.items.length ∧
        ((s.notified o .onBeginUpdate).observer.isSome → t.Success →
          Fits (leadingDigit page.toInt.toNat) (constructDetailViewDataFromData t.body).length
            (lengthShown page.toInt.toNat (requestDb s.self.db page).length s.self.items.length))
  | _ => True

instance (s : State) (a : Action) : Decidable (InBounds s a) := by
  cases a <;> unfold InBounds <;> infer_instance

theorem answer_inBounds_iff (h1 : 1 ≤ n) (hn : n < 128) :
    (exec (answer (Int8.ofNat n) t) s).1 ≠ .error .outOfBounds ↔
      (t.Success →
        Fits (leadingDigit n) (constructDetailViewDataFromData t.body).length
          s.self.items.length) := by
  by_cases ht : t.Success
  · rw [exec_answer_of_success ht, exec_onSuccess, answered_constructUrl h1 hn]
    by_cases hf : Fits (leadingDigit n) (constructDetailViewDataFromData t.body).length
        s.self.items.length
    · rw [if_pos hf]
      simp only [exec_publish_save]
      refine iff_of_true ?_ fun _ => hf
      split <;> simp
    · rw [if_neg hf]
      exact iff_of_false (fun h => h rfl) fun h => hf (h ht)
  · rw [exec_answer_of_failure ht, (exec_publish_result _ s).1]
    refine iff_of_true ?_ fun h => absurd h ht
    split <;> simp

theorem request_inBounds_iff (s : State) (h1 : 1 ≤ n) (hn : n < 128) :
    (exec (request (Int8.ofNat n) t) s).1 ≠ .error .outOfBounds ↔
      InBounds s (.request (Int8.ofNat n) t) := by
  have hpage : (Int8.ofNat n).toInt = (n : Int) := Int8.toInt_ofNat_of_lt hn
  rw [InBounds, hpage, Int.toNat_natCast, request, exec_bind]
  cases ho : s.observer with
  | none =>
    rw [exec_start_none ho]
    exact iff_of_true (by simp) (by simp)
  | some o =>
    simp only [Option.mem_some_iff, forall_eq']
    rw [exec_start_some ho, hpage, mergePage_eq n h1 hn]
    by_cases hf : Fits n (requestDb s.self.db (Int8.ofNat n)).length s.self.items.length
    · rw [if_pos hf, and_iff_right hf, ← length_shown hf]
      cases hb : (s.notified o .onBeginUpdate).observer with
      | none =>
        simp only
        rw [exec_notify_none ((withItems_observer _ _).trans hb)]
        exact iff_of_true (by simp) (by simp)
      | some o' =>
        simp only [Option.isSome_some, forall_const]
        rw [exec_notify_some ((withItems_observer _ _).trans hb)]
        exact answer_inBounds_iff h1 hn
    · rw [if_neg hf]
      exact iff_of_false (fun h => h rfl) fun h => hf h.1

def Action.PagePositive : Action → Prop
  | .request page _ => 0 < page.toInt
  | _ => True

theorem action_inBounds_iff (s : State) (a : Action) (h : a.PagePositive) :
    (exec a.run s).1 ≠ .error .outOfBounds ↔ InBounds s a := by
  cases a with
  | request page t =>
    obtain ⟨n, h1, hn, rfl⟩ := exists_page h
    exact request_inBounds_iff s h1 hn
  | _ => exact iff_of_true (by simp [Action.run]) trivial

/-- In a run of actions no copy writes behind the end of the list exactly
when every slice a request selects ends inside the list it meets. -/
theorem copies_inBounds_iff (s : State) (actions : List Action)
    (h : ∀ a ∈ actions, a.PagePositive) :
    Every Action.next (fun s a => (exec a.run s).1 ≠ .error .outOfBounds) s actions ↔
      Every Action.next InBounds s actions :=
  every_iff (I := fun _ => True) trivial h (fun _ _ _ _ _ => trivial)
    fun s a _ ha => action_inBounds_iff s a ha

theorem inBounds_of_pageBounded (hb : PageBounded n t s) (h1 : 1 ≤ n) (hn : n < 128) :
    InBounds s (.request (Int8.ofNat n) t) := by
  have hpage : (Int8.ofNat n).toInt = (n : Int) := Int8.toInt_ofNat_of_lt hn
  rintro o -
  rw [hpage, Int.toNat_natCast]
  exact ⟨fits_of_length_le h1 hb.cached,
    fun _ ht => fits_of_length_le (leadingDigit_pos h1) (hb.served ht)⟩

end

section
attribute [local instance] integerFloats

def elevenPhotos : List Action :=
  [.request 1 (pageAnswer "0123456789"), .request 1 (pageAnswer "abcdefghijk")]

theorem copies_inBounds_iff_elevenPhotos :
    ¬ Every Action.next (fun s a => (exec a.run s).1 ≠ .error .outOfBounds)
      (fresh 0 KeyStore.Store.empty) elevenPhotos := by
  rw [copies_inBounds_iff _ _ (by simp [elevenPhotos, Action.PagePositive])]
  intro h
  have h := h [.request 1 (pageAnswer "0123456789")] (.request 1 (pageAnswer "abcdefghijk")) [] rfl
  revert h
  decide +kernel

theorem copies_not_inBounds : ¬ ∀ (s : State) (o : Observer) (actions : List Action), s.Attended o →
    (∀ a ∈ actions, a.PagePositive) →
    Every Action.next (fun s a => (exec a.run s).1 ≠ .error .outOfBounds) s actions := by
  intro h
  have h := h (fresh 0 KeyStore.Store.empty) 0 elevenPhotos fresh_attended
    (by simp [elevenPhotos, Action.PagePositive])
    [.request 1 (pageAnswer "0123456789")] (.request 1 (pageAnswer "abcdefghijk")) [] rfl
  revert h
  decide +kernel

end

end Cookpit.Explore
