import Cookpit.Explore.DataController

/-!
# Whether anything is loading

The flags of a data controller are set at the begin of a request and cleared
at the end of one, whichever it is. While requests overlap they say whether
one is under way exactly if no request ends before another that is under way
(`truthful_iff`).
-/

namespace Cookpit.Explore

open Runs

-- ---------------------------------------------------------------------------
-- One flag for all requests
-- ---------------------------------------------------------------------------

/-- What a data controller shows about its requests: something is loading from
any `onBeginUpdate` to any `onEndUpdate`. -/
structure Flag (D : Type) where
  setPage : Nat → D → D
  onBeginUpdate : D → D
  onEndUpdate : D → D
  loading : D → Bool
  loading_setPage : ∀ page d, loading (setPage page d) = loading d
  loading_onBeginUpdate : ∀ d, loading (onBeginUpdate d) = true
  loading_onEndUpdate : ∀ d, loading (onEndUpdate d) = false

/-- The page is set by `reset` and `request`, at any time before and behind the
callbacks of the requests. -/
inductive FlagEvent
  | page (page : Nat)
  | beginUpdate (request : Nat)
  | endUpdate (request : Nat)

/-- A data controller, and the requests that have begun and not ended. -/
structure Overlapping (D : Type) where
  controller : D
  outstanding : List Nat

section
variable {D : Type} {f : Flag D} {y : Overlapping D}

def Overlapping.next (f : Flag D) (y : Overlapping D) : FlagEvent → Overlapping D
  | .page page => { y with controller := f.setPage page y.controller }
  | .beginUpdate r =>
    { controller := f.onBeginUpdate y.controller, outstanding := r :: y.outstanding }
  | .endUpdate r =>
    { controller := f.onEndUpdate y.controller, outstanding := y.outstanding.erase r }

/-- Something is loading if and only if a request is under way. -/
def Truthful (f : Flag D) (y : Overlapping D) : Prop :=
  f.loading y.controller = true ↔ y.outstanding ≠ []

instance (f : Flag D) (y : Overlapping D) : Decidable (Truthful f y) := by
  unfold Truthful
  infer_instance

/-- A request that ends is the only one under way. -/
def EndsAlone (y : Overlapping D) : FlagEvent → Prop
  | .endUpdate r => y.outstanding.erase r = []
  | _ => True

instance (y : Overlapping D) (e : FlagEvent) : Decidable (EndsAlone y e) := by
  cases e <;> unfold EndsAlone <;> infer_instance

theorem truthful_next (h : Truthful f y) (e : FlagEvent) :
    Truthful f (y.next f e) ↔ EndsAlone y e := by
  cases e with
  | page page =>
    rw [Truthful, Overlapping.next, f.loading_setPage]
    exact iff_of_true h trivial
  | beginUpdate r =>
    rw [Truthful, Overlapping.next, f.loading_onBeginUpdate]
    exact iff_of_true (iff_of_true rfl (List.cons_ne_nil _ _)) trivial
  | endUpdate r =>
    rw [Truthful, Overlapping.next, f.loading_onEndUpdate, EndsAlone,
      iff_false_left Bool.false_ne_true, not_ne_iff]

theorem truthful_run (h : Truthful f y) (events : List FlagEvent) :
    Every (Overlapping.next f) (fun y e => Truthful f (y.next f e)) y events ↔
      Every (Overlapping.next f) EndsAlone y events :=
  every_iff (I := Truthful f) (A := fun _ => True) h (fun _ _ => trivial)
    (fun _ _ _ _ h => h) fun _ e h _ => truthful_next h e

end

/-- Requests begin once, and end once they have begun. -/
def Paired : List Nat → List FlagEvent → Prop
  | _, [] => True
  | outstanding, .page _ :: events => Paired outstanding events
  | outstanding, .beginUpdate r :: events => r ∉ outstanding ∧ Paired (r :: outstanding) events
  | outstanding, .endUpdate r :: events => r ∈ outstanding ∧ Paired (outstanding.erase r) events

-- ---------------------------------------------------------------------------
-- The data controllers
-- ---------------------------------------------------------------------------

/-- A refresh shows in one flag and the load of a further page in the other. -/
def Android.flag : Flag Android.DataController where
  setPage page d := { d with currentPage := Int32.ofNat page }
  onBeginUpdate := Android.onBeginUpdate
  onEndUpdate := Android.onEndUpdate
  loading d := d.loadings || d.loadingMores
  loading_setPage _ _ := rfl
  loading_onBeginUpdate d := by
    rw [Android.onBeginUpdate]
    split <;> simp
  loading_onEndUpdate _ := rfl

def Ios.flag : Flag Ios.DataController where
  setPage page d := { d with currentPage := page }
  onBeginUpdate := Ios.onBeginUpdate
  onEndUpdate := Ios.onEndUpdate
  loading d := d.loadings
  loading_setPage _ _ := rfl
  loading_onBeginUpdate _ := rfl
  loading_onEndUpdate _ := rfl

/-- On both platforms, from idle, the flags are truthful behind every callback
exactly if each request that ends is the only one under way. -/
theorem truthful_iff (a : Android.DataController) (i : Ios.DataController) (events : List FlagEvent)
    (ha : Android.flag.loading a = false) (hi : Ios.flag.loading i = false) :
    (Every (Overlapping.next Android.flag)
        (fun y e => Truthful Android.flag (y.next Android.flag e)) ⟨a, []⟩ events ↔
      Every (Overlapping.next Android.flag) EndsAlone ⟨a, []⟩ events) ∧
    (Every (Overlapping.next Ios.flag)
        (fun y e => Truthful Ios.flag (y.next Ios.flag e)) ⟨i, []⟩ events ↔
      Every (Overlapping.next Ios.flag) EndsAlone ⟨i, []⟩ events) :=
  ⟨truthful_run (by simp [Truthful, ha]) events, truthful_run (by simp [Truthful, hi]) events⟩

/-- A refresh begins while page 2 is loaded, and page 2 ends first. -/
def refreshedMeanwhile : List FlagEvent :=
  [.page 2, .beginUpdate 0, .page 1, .beginUpdate 1, .endUpdate 0]

theorem truthful_iff_refreshedMeanwhile :
    ¬ Every (Overlapping.next Ios.flag) (fun y e => Truthful Ios.flag (y.next Ios.flag e))
      ⟨Ios.create KeyStore.Store.empty, []⟩ refreshedMeanwhile := by
  rw [(truthful_iff (Android.create KeyStore.Store.empty) (Ios.create KeyStore.Store.empty)
    refreshedMeanwhile rfl rfl).2]
  intro h
  have h := h [.page 2, .beginUpdate 0, .page 1, .beginUpdate 1] (.endUpdate 0) [] rfl
  revert h
  decide

theorem not_truthful : ¬ ∀ (a : Android.DataController) (i : Ios.DataController)
    (events : List FlagEvent), Android.flag.loading a = false → Ios.flag.loading i = false →
    Paired [] events →
    Every (Overlapping.next Android.flag)
        (fun y e => Truthful Android.flag (y.next Android.flag e)) ⟨a, []⟩ events ∧
      Every (Overlapping.next Ios.flag)
        (fun y e => Truthful Ios.flag (y.next Ios.flag e)) ⟨i, []⟩ events := by
  intro h
  have h := (h (Android.create KeyStore.Store.empty) (Ios.create KeyStore.Store.empty)
    refreshedMeanwhile rfl rfl (by simp [refreshedMeanwhile, Paired])).2
    [.page 2, .beginUpdate 0, .page 1, .beginUpdate 1] (.endUpdate 0) [] rfl
  revert h
  decide

end Cookpit.Explore
