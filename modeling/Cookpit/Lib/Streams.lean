import Mathlib.Data.List.Destutter
import Mathlib.Data.List.Induction

/-!
# Streams of values

An observable as the list of the values it has emitted so far. Operators are
causal: what they emit for one more value is appended to what they have
emitted (`distinctUntilChanged_concat`, `scanl_concat`; for `filter` and `map`
the list lemmas say so). A map that has to succeed ends the program at the
first value where it does not (`mapForced_eq`).

Operators that wait, for time to pass or for a thread, are not causal. A chain
of them is known by what it holds (`Operators`) and by what it owes its
subscriber (`Settling`).
-/

namespace Streams

-- ---------------------------------------------------------------------------
-- Dropping repetitions
-- ---------------------------------------------------------------------------

section
variable {α κ : Type} [DecidableEq κ]

/-- Drops a value whose key is the key of the value before. -/
def distinctUntilChanged (key : α → κ) (xs : List α) : List α :=
  xs.destutter fun a b => key a ≠ key b

@[simp] theorem distinctUntilChanged_nil (key : α → κ) : distinctUntilChanged key [] = [] := rfl

theorem destutter'_concat (key : α → κ) (a : α) (xs : List α) (x : α) :
    (xs ++ [x]).destutter' (fun a b => key a ≠ key b) a =
      xs.destutter' (fun a b => key a ≠ key b) a ++
        if key (xs.getLast?.getD a) = key x then [] else [x] := by
  induction xs generalizing a with
  | nil =>
    by_cases h : key a = key x <;> simp [h]
  | cons b xs ih =>
    rw [List.cons_append, List.destutter'_cons, List.destutter'_cons, ih a, ih b,
      List.getLast?_cons, Option.getD_some]
    by_cases h : key a = key b
    · -- Where `b` is dropped, it has the key of `a`.
      have hlast : key (xs.getLast?.getD a) = key (xs.getLast?.getD b) := by
        cases xs.getLast? with
        | none => exact h
        | some c => rfl
      rw [if_neg (not_not.mpr h), if_neg (not_not.mpr h), hlast]
    · rw [if_pos h, if_pos h, List.cons_append]

/-- One more value is emitted unless its key is the key of the last. -/
theorem distinctUntilChanged_concat (key : α → κ) (xs : List α) (x : α) :
    distinctUntilChanged key (xs ++ [x]) =
      distinctUntilChanged key xs ++ if xs.getLast?.map key = some (key x) then [] else [x] := by
  cases xs with
  | nil => rfl
  | cons a xs =>
    rw [distinctUntilChanged, distinctUntilChanged, List.cons_append, List.destutter_cons',
      List.destutter_cons', destutter'_concat, List.getLast?_cons, Option.map_some]
    simp only [Option.some.injEq]

end

-- ---------------------------------------------------------------------------
-- Scanning
-- ---------------------------------------------------------------------------

section
variable {σ α β : Type}

/-- `scan` with its seed: one more value emits the state it leads to. -/
theorem scanl_concat (f : σ → α → σ) (s : σ) (xs : List α) (x : α) :
    (xs ++ [x]).scanl f s = xs.scanl f s ++ [(xs ++ [x]).foldl f s] := by
  rw [List.scanl_append, List.scanl_singleton, List.foldl_append]
  rfl

-- ---------------------------------------------------------------------------
-- Results that have to be there
-- ---------------------------------------------------------------------------

/-- `none` where `f` gives no result for one of the values. -/
def mapForced (f : α → Option β) (xs : List α) : Option (List β) := xs.mapM f

theorem mapForced_eq (f : α → Option β) (xs : List α) :
    mapForced f xs = if ∀ x ∈ xs, (f x).isSome then some (xs.filterMap f) else none := by
  rw [mapForced]
  induction xs with
  | nil => simp
  | cons x xs ih =>
    rw [List.mapM_cons, ih]
    cases hx : f x with
    | none => simp [hx]
    | some y =>
      have hcons : (∀ x' ∈ x :: xs, (f x').isSome) ↔ ∀ x' ∈ xs, (f x').isSome := by simp [hx]
      simp only [hcons, List.filterMap_cons_some hx]
      split <;> rfl

theorem getLast?_filterMap_of_isSome {f : α → Option β} {xs : List α}
    (h : ∀ x ∈ xs, (f x).isSome) : (xs.filterMap f).getLast? = xs.getLast?.bind f := by
  cases xs using List.reverseRecOn with
  | nil => rfl
  | append_singleton xs x =>
    obtain ⟨y, hy⟩ := Option.isSome_iff_exists.mp (h x (by simp))
    rw [List.filterMap_append, List.getLast?_concat, Option.bind_some, hy,
      List.filterMap_cons_some hy, List.filterMap_nil, List.getLast?_concat]

end

-- ---------------------------------------------------------------------------
-- Operators that wait
-- ---------------------------------------------------------------------------

/-- A chain of operators in front of a subscriber that takes one value after the
other. -/
class Operators (α : Type) where
  /-- What has come and is not handed on. -/
  Held : Type
  subscribed : Held
  onNext : α → Held → Held
  /-- Time passes. -/
  elapse : Held → Held
  /-- The next value for the subscriber. -/
  handOn : Held → Option (α × Held)
  /-- Nothing is held back. -/
  idle : Held → Bool

/-- What is held when `received` has come and `handed` has been handed on. -/
inductive History {α : Type} [Operators α] : List α → List α → Operators.Held α → Prop
  | subscribed : History [] [] Operators.subscribed
  | onNext (x : α) : History received handed held →
      History (received ++ [x]) handed (Operators.onNext x held)
  | elapse : History received handed held → History received handed (Operators.elapse held)
  | handOn : History received handed held → Operators.handOn held = some (x, held') →
      History received (handed ++ [x]) held'

/-- Operators that hold nothing back have handed on the last value that came. -/
class Settling (α : Type) [Operators α] : Prop where
  getLast?_handed : ∀ {received handed : List α} {held : Operators.Held α},
    History received handed held → Operators.idle held →
      handed.getLast? = received.getLast?

end Streams
