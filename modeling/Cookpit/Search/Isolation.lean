import Cookpit.Lib.Runs
import Cookpit.Search.Answers

/-!
# Searches under way at the same time

`searchWith` and `searchNextPage` start requests that are answered later and
in any order. The handler of an answer does not learn its key, so an answer
that comes late brings its photos among those of the key searched for since.
A run keeps the results of two keys apart exactly if, whenever a list is
published, the photos that came late are photos of the key as well
(`searches_isolated_iff`).
-/

namespace Cookpit.Search

open ByteString Json11 Observed Runs

/-- A request under way, and whether it is one for the key of the last
`searchWith`, started there or later. -/
structure Ticket where
  key : Bytes
  page : Int32
  current : Bool

/-- `SearchDataController`, the requests it waits for, and a record of what
the answers since the last `searchWith` brought. -/
structure DataController where
  controller : State
  currentPage : Int32
  pending : List Ticket
  key : Option Bytes
  /-- The photos of the answers to current requests. -/
  brought : List DetailViewData
  /-- The photos of all other answers. -/
  late : List DetailViewData

inductive Event
  | searchWith (key : Bytes)
  | searchNextPage (key : Bytes)
  | answer (i : Nat) (transfer : Transfer)

def searchWithKey (key : Bytes) (page : Int32) (current : Bool) (d : DataController) :
    DataController :=
  { d with
    controller := (exec (start key) d.controller).2
    currentPage := page
    pending := d.pending ++ [⟨key, page, current⟩] }

/-- `controller.reset()`, behind which no request under way is current. -/
def resetFor (key : Bytes) (d : DataController) : DataController :=
  { d with
    controller := (exec reset d.controller).2
    pending := d.pending.map fun ticket => { ticket with current := false }
    key := some key
    brought := []
    late := [] }

def searchWith (key : Bytes) (d : DataController) : DataController :=
  searchWithKey key 1 true (resetFor key d)

def searchNextPage (key : Bytes) (d : DataController) : DataController :=
  searchWithKey key (d.currentPage + 1) (d.key = some key) d

-- ---------------------------------------------------------------------------
-- Starts
-- ---------------------------------------------------------------------------

variable {s : State} {d : DataController} {t : Transfer}

/-- Since a `searchWith` the items are the photos of all answers. -/
structure Sound (d : DataController) (o : Observer) : Prop where
  attended : d.controller.Attended o
  items : d.key.isSome → ∀ x, x ∈ d.controller.self.items ↔ x ∈ d.brought ∨ x ∈ d.late

theorem Sound.searchWithKey (h : Sound d o) (key : Bytes) (page : Int32) (current : Bool) :
    Sound (searchWithKey key page current d) o ∧
      updates d.controller (searchWithKey key page current d).controller = [] := by
  have hexec := exec_start key h.attended
  simp only [Search.searchWithKey, hexec]
  exact ⟨⟨⟨h.attended.observer, h.attended.quiet⟩, h.items⟩,
    updates_of_calls o [.onBeginUpdate] rfl⟩

theorem Sound.resetFor (h : Sound d o) (key : Bytes) : Sound (resetFor key d) o where
  attended := ⟨h.attended.observer, h.attended.quiet⟩
  items _ x := by simp [Search.resetFor, reset]

theorem Sound.searchWith (h : Sound d o) (key : Bytes) :
    Sound (searchWith key d) o ∧ updates d.controller (searchWith key d).controller = [] :=
  (h.resetFor key).searchWithKey key 1 true

-- ---------------------------------------------------------------------------
-- Answers
-- ---------------------------------------------------------------------------

section
variable [Floats]

def answered [Hashing] (ticket : Ticket) (t : Transfer) (d : DataController) : DataController :=
  { d with
    controller := (exec (answer ticket.key ticket.page.toInt8 t) d.controller).2
    brought := d.brought ++ if ticket.current then photos t else []
    late := d.late ++ if ticket.current then [] else photos t }

def DataController.next [Hashing] (d : DataController) : Event → DataController
  | .searchWith key => searchWith key d
  | .searchNextPage key => searchNextPage key d
  | .answer i t =>
    match d.pending[i]? with
    | none => d
    | some ticket => answered ticket t { d with pending := d.pending.eraseIdx i }

-- ---------------------------------------------------------------------------
-- Runs
-- ---------------------------------------------------------------------------

variable [Hashing]

/-- A list published at `e`, behind a `searchWith`, has only photos of answers
to current requests. -/
def Isolated (d : DataController) (e : Event) : Prop :=
  d.key.isSome → ∀ v ∈ updates d.controller (d.next e).controller, v.results ⊆ (d.next e).brought

/-- If `e` is an answer that publishes a list, behind a `searchWith`, the
photos that have come late are photos of answers to current requests too. -/
def LateCovered (d : DataController) : Event → Prop
  | .answer i t => d.key.isSome → i < d.pending.length →
      (t.Success → (stoi (total t.body)).isOk) →
        (d.next (.answer i t)).late ⊆ (d.next (.answer i t)).brought
  | _ => True

instance (d : DataController) (e : Event) : Decidable (Isolated d e) := by
  unfold Isolated
  infer_instance

instance (d : DataController) (e : Event) : Decidable (LateCovered d e) := by
  cases e <;> unfold LateCovered <;> infer_instance

theorem Sound.answered (h : Sound d o) (ticket : Ticket) (t : Transfer) :
    Sound (answered ticket t d) o where
  attended := answer_attended h.attended _ _ _
  items hkey x := by
    have hx := h.items hkey x
    simp only [Search.answered, answer_items h.attended, List.mem_append, hx]
    cases ticket.current with
    | true => simp [or_right_comm]
    | false => simp [or_assoc]

/-- Whatever the answer, its list is the items, so it is isolated if they
are. -/
theorem answered_isolated_iff (h : Sound d o) (hkey : d.key.isSome) (ticket : Ticket)
    (t : Transfer) :
    (∀ v ∈ updates d.controller (answered ticket t d).controller,
        v.results ⊆ (answered ticket t d).brought) ↔
      ((t.Success → (stoi (total t.body)).isOk) →
        (answered ticket t d).late ⊆ (answered ticket t d).brought) := by
  have hupdates : updates d.controller (answered ticket t d).controller =
      (result t d.controller.self.items).toList := answer_updates h.attended _ _ _
  have hitems : (answered ticket t d).controller.self.items =
      d.controller.self.items ++ photos t := answer_items h.attended _ _ _
  have hsplit := (h.answered ticket t).items hkey
  rw [hupdates, ← result_isSome t d.controller.self.items]
  constructor
  · intro hv hsome x hx
    obtain ⟨v, hr⟩ := Option.isSome_iff_exists.mp hsome
    have hmem : x ∈ v.results := by
      rw [results_of_mem_result hr, ← hitems, hsplit]
      exact .inr hx
    exact hv v (by rw [hr]; exact List.mem_singleton_self v) hmem
  · intro hcovered v hv x hx
    have hr : v ∈ result t d.controller.self.items := Option.mem_toList.mp hv
    rw [results_of_mem_result hr, ← hitems, hsplit] at hx
    exact hx.elim id fun hlate => hcovered (Option.isSome_of_mem hr) hlate

theorem Sound.next (h : Sound d o) (e : Event) :
    Sound (d.next e) o ∧ (Isolated d e ↔ LateCovered d e) := by
  cases e with
  | searchWith key =>
    obtain ⟨hsound, hnone⟩ := h.searchWith key
    refine ⟨hsound, iff_of_true (fun _ v hv => ?_) trivial⟩
    rw [DataController.next, hnone] at hv
    cases hv
  | searchNextPage key =>
    obtain ⟨hsound, hnone⟩ := h.searchWithKey key (d.currentPage + 1) (d.key = some key)
    refine ⟨hsound, iff_of_true (fun _ v hv => ?_) trivial⟩
    rw [DataController.next, searchNextPage, hnone] at hv
    cases hv
  | answer i t =>
    rw [Isolated, LateCovered, DataController.next]
    cases hi : d.pending[i]? with
    | none =>
      have hlen := List.getElem?_eq_none_iff.mp hi
      refine ⟨h, iff_of_true (fun _ v hv => ?_) fun _ hlt => absurd hlt (by omega)⟩
      rw [updates_of_calls_eq rfl] at hv
      cases hv
    | some ticket =>
      have hlen : i < d.pending.length := (List.getElem?_eq_some_iff.mp hi).1
      have hd : Sound { d with pending := d.pending.eraseIdx i } o := ⟨h.attended, h.items⟩
      refine ⟨hd.answered ticket t, forall_congr' fun hkey => ?_⟩
      rw [forall_prop_of_true hlen]
      exact answered_isolated_iff hd hkey ticket t

/-- In a run of searches with any keys, whose answers come in any order, every
list published has only photos for the key of the last `searchWith`, from
requests started there or later, exactly if at each answer that publishes a
list the photos that have come late are among these. -/
theorem searches_isolated_iff (d : DataController) (o : Observer) (events : List Event)
    (hd : d.controller.Attended o) (hkey : d.key = none) :
    Every DataController.next Isolated d events ↔
      Every DataController.next LateCovered d events := by
  have hsound : Sound d o := ⟨hd, by simp [hkey]⟩
  exact every_iff (I := fun d => Sound d o) (A := fun _ => True) hsound (fun _ _ => trivial)
    (fun d e h _ _ => (h.next e).1) (fun d e h _ => (h.next e).2)

end

section
attribute [local instance] integerFloats listed

/-- One photo, of a total of one. -/
def found (id : String) : Transfer :=
  ⟨true, 200, lit ("\x7b\"photos\":\x7b\"total\":\"1\",\"photo\":[\x7b\"id\":\"" ++ id ++
    "\"\x7d]\x7d\x7d")⟩

def unsearched : DataController :=
  { controller := subscribed 0 ⟨[], KeyStore.Store.empty⟩
    currentPage := 1
    pending := []
    key := none
    brought := []
    late := [] }

/-- A search for cats, one for dogs, and the cats come first. -/
def catsAfterDogs : List Event :=
  [.searchWith (lit "cat"), .searchWith (lit "dog"), .answer 0 (found "7")]

theorem searches_isolated_iff_catsAfterDogs :
    ¬ Every DataController.next Isolated unsearched catsAfterDogs := by
  rw [searches_isolated_iff unsearched 0 catsAfterDogs (subscribed_attended 0 _) rfl]
  intro h
  have h := h [.searchWith (lit "cat"), .searchWith (lit "dog")] (.answer 0 (found "7")) [] rfl
  revert h
  decide +kernel

theorem not_isolated : ¬ ∀ (d : DataController) (o : Observer) (events : List Event),
    d.controller.Attended o → d.key = none → Every DataController.next Isolated d events := by
  intro h
  have h := h unsearched 0 catsAfterDogs (subscribed_attended 0 _) rfl
    [.searchWith (lit "cat"), .searchWith (lit "dog")] (.answer 0 (found "7")) [] rfl
  revert h
  decide +kernel

end

end Cookpit.Search
