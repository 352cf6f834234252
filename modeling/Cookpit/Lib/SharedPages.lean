import Cookpit.Lib.KeyStore
import Cookpit.Lib.Paging
import Cookpit.Lib.Runs

/-!
# Pages behind a shared cache

Several clients fill lists of their own with pages of one service and keep the
answers in one cache. A request that starts places the cached page, one that is
answered places the answer and leaves it in the cache. The two may choose
different slots for one page.

In any order of events a page is only ever placed whole: whatever holds of all
answers and of the cache at the beginning holds of every page in a list
(`run_holds`). The cache of a page is its latest answer, whoever asked for it
(`cache_run`).
-/

namespace SharedPages

open KeyStore Paging Runs

structure Client (π β : Type) where
  blocks : List β
  pending : List π

structure Table (π β : Type) where
  cache : π → Option β
  clients : List (Client π β)

inductive Event (π β : Type)
  | reset (i : Nat)
  | start (i : Nat) (page : π)
  /-- The answer to the `k`-th of the client's requests; `none` is a failure. -/
  | answer (i k : Nat) (result : Option β)

def Event.client : Event π β → Nat
  | .reset i | .start i _ | .answer i _ _ => i

def Event.result : Event π β → Option β
  | .answer _ _ result => result
  | _ => none

variable {π β : Type}

def placed (slot : Nat) (block : Option β) (blocks : List β) : List β :=
  match block with
  | none => blocks
  | some b => placeBlock slot b blocks

-- ---------------------------------------------------------------------------
-- Events
-- ---------------------------------------------------------------------------

section
variable (cachedAt servedAt : π → Nat)

def Client.reset (c : Client π β) : Client π β := { c with blocks := [] }

def Client.start (page : π) (cached : Option β) (c : Client π β) : Client π β :=
  { blocks := placed (cachedAt page) cached c.blocks
    pending := c.pending ++ [page] }

def Client.answer (k : Nat) (result : Option β) (c : Client π β) : Client π β :=
  match c.pending[k]? with
  | none => c
  | some page =>
    { blocks := placed (servedAt page) result c.blocks
      pending := c.pending.eraseIdx k }

/-- What an event leaves in the cache. -/
def Client.writes (c : Client π β) : Event π β → List (π × β)
  | .answer _ k (some b) =>
    match c.pending[k]? with
    | none => []
    | some page => [(page, b)]
  | _ => []

def Table.writes (t : Table π β) (e : Event π β) : List (π × β) :=
  ((t.clients[e.client]?).map (·.writes e)).getD []

def Client.next (cache : π → Option β) (c : Client π β) : Event π β → Client π β
  | .reset _ => c.reset
  | .start _ page => c.start cachedAt page (cache page)
  | .answer _ k result => c.answer servedAt k result

end

section
variable [DecidableEq π]

def write (cache : π → Option β) (puts : List (π × β)) (page : π) : Option β :=
  (latest page puts).or (cache page)

def Table.next (cachedAt servedAt : π → Nat) (t : Table π β) (e : Event π β) : Table π β :=
  { cache := write t.cache (t.writes e)
    clients := t.clients.modify e.client fun c => c.next cachedAt servedAt t.cache e }

end

-- ---------------------------------------------------------------------------
-- Whole pages
-- ---------------------------------------------------------------------------

/-- `P` holds of every page there is. -/
structure Table.Holds (P : β → Prop) (t : Table π β) : Prop where
  cache : ∀ page, ∀ b ∈ t.cache page, P b
  clients : ∀ c ∈ t.clients, ∀ b ∈ c.blocks, P b

section
variable {cachedAt servedAt : π → Nat} {P : β → Prop} {t : Table π β}

theorem placed_holds {block : Option β} {blocks : List β} (h : ∀ b ∈ blocks, P b)
    (hb : ∀ b ∈ block, P b) (slot : Nat) : ∀ b ∈ placed slot block blocks, P b := by
  cases block with
  | none => exact h
  | some b =>
    intro b' hb'
    rw [placed, placeBlock] at hb'
    split at hb'
    · obtain hb' | rfl := List.mem_or_eq_of_mem_set hb'
      · exact h b' hb'
      · exact hb b' rfl
    · obtain hb' | hb' := List.mem_append.mp hb'
      · exact h b' hb'
      · obtain rfl := List.mem_singleton.mp hb'
        exact hb b' rfl

theorem Client.next_holds {cache : π → Option β} {c : Client π β} {e : Event π β}
    (hcache : ∀ page, ∀ b ∈ cache page, P b) (hc : ∀ b ∈ c.blocks, P b)
    (he : ∀ b ∈ e.result, P b) : ∀ b ∈ (c.next cachedAt servedAt cache e).blocks, P b := by
  cases e with
  | reset i => exact fun b hb => nomatch hb
  | start i page => exact placed_holds hc (hcache page) _
  | answer i k result =>
    rw [Client.next, Client.answer]
    split
    · exact hc
    · exact placed_holds hc he _

theorem Client.result_of_writes {c : Client π β} {e : Event π β} (h : p ∈ c.writes e) :
    e.result = some p.2 := by
  cases e with
  | reset | start => cases h
  | answer i k result =>
    cases result with
    | none => cases h
    | some b =>
      rw [Client.writes] at h
      split at h
      · cases h
      · obtain rfl := List.mem_singleton.mp h
        rfl

theorem Table.result_of_writes {e : Event π β} (h : p ∈ t.writes e) : e.result = some p.2 := by
  rw [Table.writes] at h
  cases hc : t.clients[e.client]? with
  | none => simp [hc] at h
  | some c => exact Client.result_of_writes (c := c) (by simpa [hc] using h)

variable [DecidableEq π]

theorem latest_mem {puts : List (π × β)} (h : latest page puts = some b) :
    (page, b) ∈ puts := by
  obtain ⟨p, hp, hb⟩ := List.mem_filterMap.mp (List.mem_of_getLast? h)
  split at hb
  · rename_i hkey
    cases hb
    exact hkey ▸ hp
  · cases hb

theorem Table.Holds.next (h : t.Holds P) {e : Event π β} (he : ∀ b ∈ e.result, P b) :
    (t.next cachedAt servedAt e).Holds P := by
  constructor
  · intro page b hb
    obtain hb | ⟨-, hb⟩ := Option.or_eq_some_iff.mp hb
    · exact he b (Table.result_of_writes (latest_mem hb))
    · exact h.cache page b hb
  · intro c hc
    obtain ⟨i, hi⟩ := List.mem_iff_getElem?.mp hc
    rw [Table.next, List.getElem?_modify] at hi
    obtain ⟨c', hc', rfl⟩ := Option.map_eq_some_iff.mp hi
    have hblocks := h.clients c' (List.mem_of_getElem? hc')
    split
    · exact Client.next_holds h.cache hblocks he
    · exact hblocks

theorem run_holds (h : t.Holds P) {events : List (Event π β)}
    (he : ∀ e ∈ events, ∀ b ∈ e.result, P b) :
    (run (Table.next cachedAt servedAt) t events).Holds P := by
  induction events generalizing t with
  | nil => exact h
  | cons e events ih =>
    obtain ⟨hhead, htail⟩ := List.forall_mem_cons.mp he
    exact ih (h.next hhead) htail

-- ---------------------------------------------------------------------------
-- The cache
-- ---------------------------------------------------------------------------

/-- What the events of a run leave in the cache, in their order. -/
def Table.history (cachedAt servedAt : π → Nat) (t : Table π β) (events : List (Event π β)) :
    List (π × β) :=
  collect (Table.next cachedAt servedAt) Table.writes t events

theorem latest_append (page : π) (first second : List (π × β)) :
    latest page (first ++ second) = (latest page second).or (latest page first) := by
  rw [latest, latest, latest, List.filterMap_append, List.getLast?_append]

theorem cache_run (t : Table π β) (events : List (Event π β)) (page : π) :
    (run (Table.next cachedAt servedAt) t events).cache page =
      (latest page (t.history cachedAt servedAt events)).or (t.cache page) := by
  induction events generalizing t with
  | nil => rfl
  | cons e events ih =>
    rw [run_cons, ih, Table.history, Table.history, collect, latest_append, Option.or_assoc]
    rfl

end

end SharedPages
