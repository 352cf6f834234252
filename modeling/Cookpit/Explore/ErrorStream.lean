import Cookpit.Explore.DataController
import Cookpit.Lib.Streams

/-!
# The streams of errors

Both data controllers make a stream of messages from their view data. The
errors are filtered out first; iOS then drops an update whose `error` is that
of the error before it, which it always is, so only the very first error is
ever reported. Android compares the updates themselves, which are different
objects (`errors_reported_iff`).
-/

namespace Cookpit.Explore

open ByteString Streams

/-- The object an `onUpdate` hands over: its view data, and which object it is. -/
structure Update where
  object : Nat
  viewData : ViewData

def Update.error (u : Update) : Bool := u.viewData.error

def Update.message (u : Update) : Bytes := u.viewData.message

/-- `_viewData.observable.filter { it.error }.distinctUntilChanged().map { it.message }`:
records are equal to themselves only. -/
def Android.errors (updates : List Update) : List Bytes :=
  (distinctUntilChanged Update.object (updates.filter Update.error)).map Update.message

/-- The values of `_viewData`, which starts with none. -/
def Ios.viewDataValues (updates : List Update) : List (Option ViewData) :=
  none :: updates.map fun u => some u.viewData

/-- `filter { $0 != nil && $0!.error }.distinctUntilChanged { $0!.error }.map { $0!.message }`. -/
def Ios.errors (updates : List Update) : List Bytes :=
  (distinctUntilChanged (Option.any ViewData.error)
    ((Ios.viewDataValues updates).filter (Option.any ViewData.error))).map
      (Option.elim · [] ViewData.message)

/-- An error behind an update that is none, or with no update before it. -/
def NewError (before : List Update) (u : Update) : Prop :=
  u.error ∧ ∀ v ∈ before.getLast?, ¬ v.error

/-- Each new error makes the stream emit its message. -/
def Reports (errors : List Update → List Bytes) (updates : List Update) : Prop :=
  ∀ before u after, updates = before ++ u :: after → NewError before u →
    errors (before ++ [u]) = errors before ++ [u.message]

theorem Android.errors_concat (updates : List Update) (u : Update) (hu : u.error)
    (hfresh : ∀ v ∈ updates, v.object ≠ u.object) :
    errors (updates ++ [u]) = errors updates ++ [u.message] := by
  have hfilter : (updates ++ [u]).filter Update.error = updates.filter Update.error ++ [u] := by
    rw [List.filter_append, List.filter_cons_of_pos hu, List.filter_nil]
  have hdistinct : (updates.filter Update.error).getLast?.map Update.object ≠ some u.object := by
    intro h
    obtain ⟨v, hv, hobject⟩ := Option.map_eq_some_iff.mp h
    exact hfresh v (List.mem_filter.mp (List.mem_of_getLast? hv)).1 hobject
  rw [errors, hfilter, distinctUntilChanged_concat, if_neg hdistinct, List.map_append]
  rfl

theorem Ios.filter_eq_nil_iff (updates : List Update) :
    (viewDataValues updates).filter (Option.any ViewData.error) = [] ↔
      ∀ v ∈ updates, ¬ v.error := by
  simp [viewDataValues, Update.error]

/-- Behind one error no other is emitted. -/
theorem Ios.errors_concat (updates : List Update) (u : Update) (hu : u.error) :
    errors (updates ++ [u]) =
      errors updates ++ if ∀ v ∈ updates, ¬ v.error then [u.message] else [] := by
  have hkey : Option.any ViewData.error (some u.viewData) = true := hu
  have hfilter : (viewDataValues (updates ++ [u])).filter (Option.any ViewData.error) =
      (viewDataValues updates).filter (Option.any ViewData.error) ++ [some u.viewData] := by
    have hsplit : viewDataValues (updates ++ [u]) =
        viewDataValues updates ++ [some u.viewData] := by
      simp [viewDataValues]
    rw [hsplit, List.filter_append, List.filter_cons_of_pos hkey, List.filter_nil]
  rw [errors, errors, hfilter, distinctUntilChanged_concat, List.map_append, hkey]
  congr 1
  cases hl : ((viewDataValues updates).filter (Option.any ViewData.error)).getLast? with
  | none =>
    have hnone := (filter_eq_nil_iff updates).mp (List.getLast?_eq_none_iff.mp hl)
    rw [if_pos hnone]
    rfl
  | some w =>
    -- The last error has the key of this one.
    have hw : Option.any ViewData.error w = true :=
      (List.mem_filter.mp (List.mem_of_getLast? hl)).2
    have hsome : ¬ ∀ v ∈ updates, ¬ v.error := by
      rw [← filter_eq_nil_iff]
      exact List.ne_nil_of_mem (List.mem_of_getLast? hl)
    rw [if_neg hsome, Option.map_some, hw, if_pos rfl, List.map_nil]

/-- Android reports every new error of a sequence of different objects. iOS
does exactly if every new error is the first error of all. -/
theorem errors_reported_iff (updates : List Update) (hfresh : (updates.map Update.object).Nodup) :
    Reports Android.errors updates ∧
      (Reports Ios.errors updates ↔ ∀ before u after, updates = before ++ u :: after →
        NewError before u → ∀ v ∈ before, ¬ v.error) := by
  constructor
  · rintro before u after rfl hnew
    refine Android.errors_concat before u hnew.1 fun v hv heq => ?_
    rw [List.map_append, List.nodup_append] at hfresh
    exact hfresh.2.2 v.object (List.mem_map_of_mem hv) u.object (by simp) heq
  · refine forall₄_congr fun before u after _ => forall_congr' fun hnew => ?_
    rw [Ios.errors_concat before u hnew.1]
    split
    · rename_i hnone
      exact iff_of_true rfl hnone
    · rename_i hsome
      exact iff_of_false (by simp) hsome

/-- Two failed requests, each behind the update of its cached page. -/
def twoFailures : List Update :=
  [⟨0, cacheUpdate []⟩, ⟨1, errorUpdate [] []⟩, ⟨2, cacheUpdate []⟩, ⟨3, errorUpdate [] []⟩]

theorem errors_reported_iff_twoFailures : ¬ Reports Ios.errors twoFailures := by
  rw [(errors_reported_iff twoFailures (by decide)).2]
  intro h
  refine h [⟨0, cacheUpdate []⟩, ⟨1, errorUpdate [] []⟩, ⟨2, cacheUpdate []⟩]
    ⟨3, errorUpdate [] []⟩ [] rfl ⟨rfl, ?_⟩ ⟨1, errorUpdate [] []⟩ (by simp) rfl
  rintro v hv
  obtain rfl := Option.mem_some_iff.mp hv
  exact Bool.false_ne_true

theorem not_errors_reported : ¬ ∀ updates : List Update, (updates.map Update.object).Nodup →
    Reports Android.errors updates ∧ Reports Ios.errors updates := by
  intro h
  have h := (h twoFailures (by decide)).2
    [⟨0, cacheUpdate []⟩, ⟨1, errorUpdate [] []⟩, ⟨2, cacheUpdate []⟩] ⟨3, errorUpdate [] []⟩ [] rfl
    ⟨rfl, by decide⟩
  revert h
  decide +kernel

end Cookpit.Explore
