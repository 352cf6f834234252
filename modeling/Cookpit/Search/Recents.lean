import Cookpit.Lib.Runs
import Cookpit.Search.Answers
import Mathlib.Data.List.Sort

/-!
# Recent searches

The keys searched for are kept in order and once each, and every run that
searches the same keys keeps the same. `fetch_recents` returns them in front
of as many empty strings, so what it returns is the list of the keys only
while there are none (`fetchRecents_iff`).
-/

namespace Cookpit.Search

open ByteString Json11 Observed Runs

/-- The keys of the searches of a run. -/
def searched (actions : List Action) : List Bytes :=
  actions.filterMap fun
    | .reset => none
    | .search key _ _ => some key

/-- Each of `keys` once, in ascending order, and nothing else. -/
structure IsRecents (keys recents : List Bytes) : Prop where
  ascending : recents.Pairwise (· < ·)
  mem_iff : ∀ key, key ∈ recents ↔ key ∈ keys

theorem fetchRecents_eq (d : Data) :
    fetchRecents d =
      d.recentSearchKey.keys ++ List.replicate d.recentSearchKey.keys.length [] := by
  rw [fetchRecents, KeyStore.Store.keys, List.length_map]

theorem exec_start_recents (key : Bytes) (s : State) :
    (exec (start key) s).2.self.recentSearchKey = s.self.recentSearchKey.put key () := by
  rw [start, exec_bind, exec_modifySelf]
  exact keeps_notify (f := Data.recentSearchKey) _ _

section
variable [Floats] [Hashing]

/-- The state an action leaves, whether it returns or not. -/
def Action.next (s : State) (a : Action) : State := (exec a.run s).2

theorem keeps_answer (key : Bytes) (page : Int8) (t : Transfer) :
    Keeps Data.recentSearchKey (answer key page t) := by
  rw [answer, curlGet]
  split
  · refine Keeps.bind (keeps_modifySelf fun _ => rfl) fun _ => Keeps.ifObserved ?_
    refine Keeps.bind keeps_get fun _ => Keeps.bind (keeps_attempt _) fun _ => ?_
    exact Keeps.bind (keeps_notify _) fun _ => keeps_notify _
  · exact Keeps.bind keeps_get fun _ => keeps_publish _

theorem exec_search_recents (key : Bytes) (page : Int8) (t : Transfer) (s : State) :
    (exec (search key page t) s).2.self.recentSearchKey = s.self.recentSearchKey.put key () := by
  have hstart := exec_start_recents key s
  rw [search_eq, exec_bind]
  split
  · rename_i hexec
    rw [hexec] at hstart
    exact (keeps_answer key page t _).trans hstart
  · rename_i hexec
    rwa [hexec] at hstart

theorem mem_keys_run {actions : List Action} {s : State} {key : Bytes} :
    key ∈ (run Action.next s actions).self.recentSearchKey.keys ↔
      key ∈ s.self.recentSearchKey.keys ∨ key ∈ searched actions := by
  induction actions generalizing s with
  | nil => simp [searched]
  | cons a actions ih =>
    rw [run_cons, ih]
    cases a with
    | reset => exact Iff.rfl
    | search k page t =>
      have hnext : (Action.next s (.search k page t)).self.recentSearchKey =
          s.self.recentSearchKey.put k () := exec_search_recents k page t s
      have htail : key ∈ searched (.search k page t :: actions) ↔
          key = k ∨ key ∈ searched actions := List.mem_cons
      rw [hnext, KeyStore.Store.mem_keys_put, htail, or_assoc, or_left_comm]

/-- `fetch_recents` returns the keys searched for, each once and in order,
exactly as long as there is none; what it returns depends on them alone. -/
theorem fetchRecents_iff (s : State) (actions : List Action)
    (hs : s.self.recentSearchKey = KeyStore.Store.empty) :
    (IsRecents (searched actions) (fetchRecents (run Action.next s actions).self) ↔
        searched actions = []) ∧
      ∀ actions', (∀ key, key ∈ searched actions ↔ key ∈ searched actions') →
        fetchRecents (run Action.next s actions).self =
          fetchRecents (run Action.next s actions').self := by
  have hkeys (actions : List Action) (key : Bytes) :
      key ∈ (run Action.next s actions).self.recentSearchKey.keys ↔ key ∈ searched actions := by
    rw [mem_keys_run, hs]
    exact or_iff_right List.not_mem_nil
  refine ⟨⟨fun h => ?_, fun h => ?_⟩, fun actions' hsame => ?_⟩
  · have hasc := h.ascending
    rw [fetchRecents_eq] at hasc
    cases hl : (run Action.next s actions).self.recentSearchKey.keys with
    | nil =>
      refine List.eq_nil_iff_forall_not_mem.mpr fun key hkey => ?_
      rw [← hkeys, hl] at hkey
      cases hkey
    | cons key keys =>
      -- An empty string stands behind the first key.
      rw [hl, List.pairwise_append] at hasc
      have hlt : key < [] := hasc.2.2 key List.mem_cons_self [] (by simp)
      exact absurd hlt (List.not_lt_nil key)
  · have hl : (run Action.next s actions).self.recentSearchKey.keys = [] := by
      refine List.eq_nil_iff_forall_not_mem.mpr fun key hkey => ?_
      rw [hkeys, h] at hkey
      cases hkey
    rw [fetchRecents_eq, hl, h]
    exact ⟨List.Pairwise.nil, fun _ => Iff.rfl⟩
  · have hsort (actions : List Action) :=
      (run Action.next s actions).self.recentSearchKey.pairwise_keys
    have heq : (run Action.next s actions).self.recentSearchKey.keys =
        (run Action.next s actions').self.recentSearchKey.keys :=
      (hsort actions).eq_of_mem_iff (hsort actions') fun key => by rw [hkeys, hkeys, hsame]
    rw [fetchRecents_eq, fetchRecents_eq, heq]

end

section
attribute [local instance] integerFloats listed

theorem fetchRecents_iff_cat :
    ¬ IsRecents [lit "cat"] (fetchRecents (run Action.next
      (subscribed 0 ⟨[], KeyStore.Store.empty⟩) [.search (lit "cat") 1 ⟨false, 0, []⟩]).self) := by
  have h := (fetchRecents_iff (subscribed 0 ⟨[], KeyStore.Store.empty⟩)
    [.search (lit "cat") 1 ⟨false, 0, []⟩] rfl).1
  exact fun hr => absurd (h.mp hr) (by decide)

/-- One search, and an empty string comes behind its key. -/
theorem fetchRecents_not_keys : ¬ ∀ (s : State) (actions : List Action),
    s.self.recentSearchKey = KeyStore.Store.empty →
    IsRecents (searched actions) (fetchRecents (run Action.next s actions).self) := by
  intro h
  have h := (h (subscribed 0 ⟨[], KeyStore.Store.empty⟩) [.search (lit "cat") 1 ⟨false, 0, []⟩]
    rfl).mem_iff []
  revert h
  decide +kernel

end

end Cookpit.Search
