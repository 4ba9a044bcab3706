/-!
Parties known by numbers, and histories.  A machine is a step function on states; its
history is the list of the actions that it was given, folded over the first state.
-/

namespace ArtifactPlane

/-- Parties by their numbers; a number that nobody has taken has none. -/
abbrev Roster (β : Type) := Nat → Option β

namespace Roster

variable {β : Type} {r : Roster β}

/-- A roster without parties. -/
def empty : Roster β := fun _ => none

/-- Put a party under a number, over any party there. -/
def put (r : Roster β) (i : Nat) (b : β) : Roster β :=
  fun j => if j = i then some b else r j

@[simp] theorem put_self (r : Roster β) (i : Nat) (b : β) : r.put i b i = some b := by
  simp [put]

theorem put_of_ne {i j : Nat} (h : j ≠ i) (b : β) : r.put i b j = r j := by
  simp [put, h]

theorem put_eq_some_iff {i j : Nat} {b d : β} :
    r.put i b j = some d ↔ j = i ∧ b = d ∨ j ≠ i ∧ r j = some d := by
  by_cases h : j = i <;> simp [put, h]

end Roster

/-- Where a property of states does not hold at first and holds after a history, some
action of the history brought it about. -/
theorem exists_turning_action {σ α : Type} (step : σ → α → σ) (P : σ → Prop)
    (actions : List α) (s : σ) (hfirst : ¬ P s) (hlast : P (actions.foldl step s)) :
    ∃ before a after, actions = before ++ a :: after ∧
      ¬ P (before.foldl step s) ∧ P (step (before.foldl step s) a) := by
  induction actions generalizing s with
  | nil => exact absurd hlast hfirst
  | cons a rest ih =>
    by_cases hnext : P (step s a)
    · exact ⟨[], a, rest, rfl, hfirst, hnext⟩
    · obtain ⟨before, b, after, rfl, hbefore, hafter⟩ := ih (step s a) hnext hlast
      exact ⟨a :: before, b, after, rfl, hbefore, hafter⟩

end ArtifactPlane
