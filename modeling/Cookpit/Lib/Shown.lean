import Cookpit.Lib.Observed
import Cookpit.Lib.Runs

/-!
# What is on screen

An observer shows the part `list` of the last update it took. An error that
carries this very part changes nothing on screen (`KeepsShown`). A component
whose errors carry what it has stored has this property if it stores what it
shows: `Stored` says so of two states, and runs have it from their steps
(`stored_run`).
-/

namespace Observed

open Runs

section
variable {ε V σ α β γ A : Type} {error : V → Bool} {list : V → β} {items : σ → β} {shown : β}

/-- What is on screen behind the updates, `shown` being there before. -/
def lastShown (list : V → β) (shown : β) (vs : List V) : β := vs.foldl (fun _ v => list v) shown

@[simp] theorem lastShown_nil : lastShown list shown [] = shown := rfl
@[simp] theorem lastShown_singleton : lastShown list shown [v] = list v := rfl

theorem lastShown_append (vs ws : List V) :
    lastShown list shown (vs ++ ws) = lastShown list (lastShown list shown vs) ws :=
  List.foldl_append

/-- Every error shows what is on screen already. -/
def KeepsShown (error : V → Bool) (list : V → β) : β → List V → Prop
  | _, [] => True
  | shown, v :: vs => (error v → list v = shown) ∧ KeepsShown error list (list v) vs

instance KeepsShown.decidable [DecidableEq β] (shown : β) (vs : List V) :
    Decidable (KeepsShown error list shown vs) :=
  match vs with
  | [] => isTrue trivial
  | v :: vs =>
    have := KeepsShown.decidable (list v) vs
    inferInstanceAs (Decidable ((error v → list v = shown) ∧ KeepsShown error list (list v) vs))

theorem keepsShown_append (vs ws : List V) :
    KeepsShown error list shown (vs ++ ws) ↔
      KeepsShown error list shown vs ∧ KeepsShown error list (lastShown list shown vs) ws := by
  induction vs generalizing shown with
  | nil => simp [KeepsShown]
  | cons v vs ih =>
    rw [List.cons_append, KeepsShown, KeepsShown, ih, and_assoc]
    rfl

theorem updates_trans {s s' s'' : State V σ} (h : s.calls <+: s'.calls)
    (h' : s'.calls <+: s''.calls) : updates s s'' = updates s s' ++ updates s' s'' := by
  obtain ⟨cs, hcs⟩ := h
  obtain ⟨cs', hcs'⟩ := h'
  simp only [updates, ← hcs', ← hcs, List.append_assoc, List.drop_left, List.filterMap_append]
  rw [← List.append_assoc, List.drop_left]

/-- From `s` to `s'` errors show what is on screen, and the component ends up
with that in `items`, if it started with it. -/
structure Stored (error : V → Bool) (list : V → β) (items : σ → β) (o : Observer)
    (s s' : State V σ) : Prop where
  attended : s'.Attended o
  calls : s.calls <+: s'.calls
  keeps : KeepsShown error list (items s.self) (updates s s')
  items : items s'.self = lastShown list (items s.self) (updates s s')

variable {o : Observer} {s s' s'' : State V σ}

theorem Stored.refl (hs : s.Attended o) : Stored error list items o s s := by
  have hnone : updates s s = [] := updates_of_calls_eq rfl
  exact ⟨hs, List.prefix_rfl, by rw [hnone]; trivial, by rw [hnone]; rfl⟩

theorem Stored.trans (h : Stored error list items o s s') (h' : Stored error list items o s' s'') :
    Stored error list items o s s'' := by
  have hupdates := updates_trans h.calls h'.calls
  refine ⟨h'.attended, h.calls.trans h'.calls, ?_, ?_⟩
  · rw [hupdates, keepsShown_append, ← h.items]
    exact ⟨h.keeps, h'.keeps⟩
  · rw [hupdates, lastShown_append, ← h.items]
    exact h'.items

/-- One update: the component stores it, and an error is what was stored. -/
theorem Stored.of_updates (cs : List (Call V)) (hs' : s'.Attended o)
    (hcalls : s'.calls = s.calls ++ cs.map (o, ·))
    (hkeeps : KeepsShown error list (items s.self) (cs.filterMap Call.viewData?))
    (hitems : items s'.self = lastShown list (items s.self) (cs.filterMap Call.viewData?)) :
    Stored error list items o s s' := by
  have hupdates := updates_of_calls o cs hcalls
  exact ⟨hs', ⟨_, hcalls.symm⟩, by rwa [hupdates], by rwa [hupdates]⟩

theorem Stored.bind {x : M ε V σ α} {f : α → M ε V σ γ}
    (hx : Stored error list items o s (exec x s).2)
    (hf : ∀ a s', s'.Attended o → Stored error list items o s' (exec (f a) s').2) :
    Stored error list items o s (exec (x >>= f) s).2 := by
  rw [exec_bind]
  cases h : exec x s with
  | mk r s' =>
    rw [h] at hx
    cases r with
    | error e => exact hx
    | ok a => exact hx.trans (hf a s' hx.attended)

theorem stored_run {step : State V σ → A → State V σ} {actions : List A}
    (h : ∀ s a, s.Attended o → a ∈ actions → Stored error list items o s (step s a))
    (hs : s.Attended o) : Stored error list items o s (run step s actions) := by
  induction actions generalizing s with
  | nil => exact Stored.refl hs
  | cons a actions ih =>
    have ha := h s a hs List.mem_cons_self
    exact ha.trans (ih (fun s b hs hb => h s b hs (List.mem_cons_of_mem _ hb)) ha.attended)

end

end Observed
