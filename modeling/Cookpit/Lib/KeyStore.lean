import Mathlib.Data.List.Basic
import Mathlib.Order.Defs.Unbundled

/-!
# A store sorted by key

A memory-mapped key-value database as its entries in cursor order. The
invariant is a field: keys strictly increase, so every key occurs once.
`put` replaces, and a scan from the first entry that stops at the key finds
what `put` stored last under it.
-/

namespace KeyStore

variable {K V : Type} [LT K]

structure Store (K V : Type) [LT K] where
  entries : List (K × V)
  sorted : entries.Pairwise (·.1 < ·.1)

def Store.empty : Store K V := ⟨[], .nil⟩

/-- The keys, in their order. -/
def Store.keys (s : Store K V) : List K := s.entries.map (·.1)

theorem Store.pairwise_keys (s : Store K V) : s.keys.Pairwise (· < ·) :=
  List.pairwise_map.mpr s.sorted

section
variable [DecidableEq K]

/-- The loop of a reader: the value of the first entry under `key`. -/
def lookup (key : K) : List (K × V) → Option V
  | [] => none
  | (k, value) :: rest => if k = key then some value else lookup key rest

def Store.get (s : Store K V) (key : K) : Option V := lookup key s.entries

@[simp] theorem Store.get_empty (key : K) : (Store.empty : Store K V).get key = none := rfl

variable [DecidableLT K]

def insert (key : K) (value : V) : List (K × V) → List (K × V)
  | [] => [(key, value)]
  | (k, v) :: rest =>
    if k = key then (key, value) :: rest
    else if key < k then (key, value) :: (k, v) :: rest
    else (k, v) :: insert key value rest

theorem mem_insert {entries : List (K × V)} (h : e ∈ insert key value entries) :
    e = (key, value) ∨ e ∈ entries := by
  induction entries with
  | nil => exact .inl (List.mem_singleton.mp h)
  | cons entry rest ih =>
    obtain ⟨k, v⟩ := entry
    simp only [insert] at h
    split at h
    · rcases List.mem_cons.mp h with rfl | h
      · exact .inl rfl
      · exact .inr (List.mem_cons_of_mem _ h)
    · split at h
      · exact List.mem_cons.mp h
      · rcases List.mem_cons.mp h with rfl | h
        · exact .inr List.mem_cons_self
        · rcases ih h with h | h
          · exact .inl h
          · exact .inr (List.mem_cons_of_mem _ h)

theorem lookup_insert (key key' : K) (value : V) (entries : List (K × V)) :
    lookup key' (insert key value entries) =
      if key = key' then some value else lookup key' entries := by
  induction entries with
  | nil => rfl
  | cons entry rest ih =>
    obtain ⟨k, v⟩ := entry
    simp only [insert]
    split
    · rename_i hk
      subst hk
      simp only [lookup]
      split <;> rfl
    · rename_i hk
      split
      · rfl
      · simp only [lookup, ih]
        split
        · rename_i hk'
          subst hk'
          rw [if_neg (Ne.symm hk)]
        · rfl

theorem mem_keys_insert {key k : K} {value : V} {entries : List (K × V)} :
    k ∈ (insert key value entries).map (·.1) ↔ k = key ∨ k ∈ entries.map (·.1) := by
  induction entries with
  | nil => simp [insert]
  | cons entry rest ih =>
    obtain ⟨k', v⟩ := entry
    simp only [insert]
    split
    · rename_i he
      subst he
      simp
    · split
      · simp
      · simp only [List.map_cons, List.mem_cons, ih]
        exact or_left_comm

theorem mem_insert_iff {entries : List (K × V)} (h : key ∉ entries.map (·.1)) :
    e ∈ insert key value entries ↔ e = (key, value) ∨ e ∈ entries := by
  refine ⟨mem_insert, ?_⟩
  induction entries with
  | nil => simp [insert]
  | cons entry rest ih =>
    obtain ⟨k, v⟩ := entry
    rw [List.map_cons, List.mem_cons, not_or] at h
    rw [insert, if_neg (Ne.symm h.1)]
    split
    · exact List.mem_cons.mpr
    · rintro (rfl | he)
      · exact List.mem_cons_of_mem _ (ih h.2 (.inl rfl))
      · obtain rfl | he := List.mem_cons.mp he
        · exact List.mem_cons_self
        · exact List.mem_cons_of_mem _ (ih h.2 (.inr he))

/-- A key above all others goes to the end. -/
theorem insert_last [Std.Asymm (α := K) (· < ·)] {entries : List (K × V)}
    (h : ∀ e ∈ entries, e.1 < key) : insert key value entries = entries ++ [(key, value)] := by
  induction entries with
  | nil => rfl
  | cons entry rest ih =>
    obtain ⟨k, v⟩ := entry
    obtain ⟨hk, hrest⟩ := List.forall_mem_cons.mp h
    have hne : k ≠ key := by
      rintro rfl
      exact Std.Asymm.asymm _ _ hk hk
    rw [insert, if_neg hne, if_neg (Std.Asymm.asymm _ _ hk), ih hrest, List.cons_append]

variable [IsTrans K (· < ·)] [Std.Trichotomous (α := K) (· < ·)]

theorem sorted_insert {entries : List (K × V)} (h : entries.Pairwise (·.1 < ·.1)) :
    (insert key value entries).Pairwise (·.1 < ·.1) := by
  induction entries with
  | nil => simp [insert]
  | cons entry rest ih =>
    obtain ⟨k, v⟩ := entry
    obtain ⟨hk, hrest⟩ := List.pairwise_cons.mp h
    simp only [insert]
    split
    · rename_i he
      subst he
      exact List.pairwise_cons.mpr ⟨hk, hrest⟩
    · rename_i hne
      split
      · rename_i hlt
        refine List.pairwise_cons.mpr ⟨fun e he => ?_, h⟩
        rcases List.mem_cons.mp he with rfl | he
        · exact hlt
        · exact trans_of (· < ·) hlt (hk e he)
      · rename_i hge
        have hlt : k < key := by
          by_contra hlt
          exact hne (Std.Trichotomous.trichotomous k key hlt hge)
        refine List.pairwise_cons.mpr ⟨fun e he => ?_, ih hrest⟩
        rcases mem_insert he with rfl | he
        · exact hlt
        · exact hk e he

def Store.put (s : Store K V) (key : K) (value : V) : Store K V :=
  ⟨insert key value s.entries, sorted_insert s.sorted⟩

theorem Store.get_put (s : Store K V) (key key' : K) (value : V) :
    (s.put key value).get key' = if key = key' then some value else s.get key' :=
  lookup_insert key key' value s.entries

theorem Store.mem_keys_put {s : Store K V} {key k : K} {value : V} :
    k ∈ (s.put key value).keys ↔ k = key ∨ k ∈ s.keys :=
  mem_keys_insert

-- ---------------------------------------------------------------------------
-- Histories
-- ---------------------------------------------------------------------------

def Store.putAll (s : Store K V) (puts : List (K × V)) : Store K V :=
  puts.foldl (fun s p => s.put p.1 p.2) s

/-- The last value of a history under `key`. -/
def latest (key : K) (puts : List (K × V)) : Option V :=
  (puts.filterMap fun p => if p.1 = key then some p.2 else none).getLast?

/-- The last write wins. -/
theorem Store.get_putAll (s : Store K V) (puts : List (K × V)) (key : K) :
    (s.putAll puts).get key = (latest key puts).or (s.get key) := by
  induction puts generalizing s with
  | nil => rfl
  | cons p puts ih =>
    have hcons : (s.putAll (p :: puts)) = (s.put p.1 p.2).putAll puts := rfl
    rw [hcons, ih, Store.get_put, latest, latest, List.filterMap_cons]
    by_cases hp : p.1 = key
    · simp only [if_pos hp, List.getLast?_cons]
      cases (puts.filterMap fun p => if p.1 = key then some p.2 else none).getLast? <;> rfl
    · simp only [if_neg hp]

theorem Store.mem_putAll {s : Store K V} {puts : List (K × V)} (hkeys : (puts.map (·.1)).Nodup)
    (hnew : ∀ p ∈ puts, p.1 ∉ s.keys) :
    e ∈ (s.putAll puts).entries ↔ e ∈ puts ∨ e ∈ s.entries := by
  induction puts generalizing s with
  | nil => simp [putAll]
  | cons p puts ih =>
    obtain ⟨hp, hkeys⟩ := List.nodup_cons.mp hkeys
    obtain ⟨hpnew, hnew⟩ := List.forall_mem_cons.mp hnew
    have hnew' : ∀ q ∈ puts, q.1 ∉ (s.put p.1 p.2).keys := by
      intro q hq hmem
      obtain hqp | hqs := Store.mem_keys_put.mp hmem
      · exact hp (List.mem_map.mpr ⟨q, hq, hqp⟩)
      · exact hnew q hq hqs
    have hput : e ∈ (s.put p.1 p.2).entries ↔ e = p ∨ e ∈ s.entries := mem_insert_iff hpnew
    show e ∈ ((s.put p.1 p.2).putAll puts).entries ↔ _
    rw [ih hkeys hnew', hput, List.mem_cons]
    exact or_left_comm.trans or_assoc.symm

theorem Store.putAll_sorted [Std.Asymm (α := K) (· < ·)] {s : Store K V} {puts : List (K × V)}
    (h : (s.entries ++ puts).Pairwise (·.1 < ·.1)) :
    (s.putAll puts).entries = s.entries ++ puts := by
  induction puts generalizing s with
  | nil => simp [putAll]
  | cons p puts ih =>
    have hlast : (s.put p.1 p.2).entries = s.entries ++ [p] :=
      insert_last fun e he => (List.pairwise_append.mp h).2.2 e he p List.mem_cons_self
    have hassoc : s.entries ++ p :: puts = s.entries ++ [p] ++ puts := by simp
    rw [hassoc, ← hlast] at h ⊢
    exact ih h

end

end KeyStore
