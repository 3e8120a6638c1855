import Mathlib.Order.Bounds.Defs
import Mathlib.Data.List.Range

/-! # Bounded repetition

A repetition that goes on while a condition holds of the current round, for at most
`n` rounds.
-/
namespace Curlinho.Foundation
variable {α : Type*}

/-- The number of rounds before the first at which `p` fails, at most `n`. -/
def firstStop : ℕ → (ℕ → Bool) → ℕ
  | 0, _ => 0
  | n + 1, p => if p 0 then firstStop n (fun i => p (i + 1)) + 1 else 0

theorem firstStop_le (n : ℕ) (p : ℕ → Bool) : firstStop n p ≤ n := by
  induction n generalizing p with
  | zero => exact le_rfl
  | succ n ih =>
    have hn := ih (fun i => p (i + 1))
    unfold firstStop
    split <;> omega

theorem of_lt_firstStop {n : ℕ} {p : ℕ → Bool} {i : ℕ} (h : i < firstStop n p) : p i = true := by
  induction n generalizing p i with
  | zero => exact absurd h (Nat.not_lt_zero i)
  | succ n ih =>
    unfold firstStop at h
    split at h
    · next h0 =>
      cases i with
      | zero => exact h0
      | succ i => exact ih (p := fun i => p (i + 1)) (Nat.lt_of_succ_lt_succ h)
    · exact absurd h (Nat.not_lt_zero i)

theorem firstStop_stops (n : ℕ) (p : ℕ → Bool) :
    firstStop n p = n ∨ p (firstStop n p) = false := by
  induction n generalizing p with
  | zero => exact .inl rfl
  | succ n ih =>
    unfold firstStop
    split
    · cases ih (fun i => p (i + 1)) with
      | inl h => exact .inl (congrArg (· + 1) h)
      | inr h => exact .inr h
    · next h0 => exact .inr (Bool.not_eq_true _ ▸ h0)

theorem isLeast_firstStop (n : ℕ) (p : ℕ → Bool) :
    IsLeast {i | i = n ∨ p i = false} (firstStop n p) := by
  refine ⟨firstStop_stops n p, fun i hi => ?_⟩
  cases hi with
  | inl h => exact h ▸ firstStop_le n p
  | inr h =>
    by_contra hlt
    rw [of_lt_firstStop (not_le.mp hlt)] at h
    cases h

theorem firstStop_pos_iff (n : ℕ) (p : ℕ → Bool) : 0 < firstStop n p ↔ 0 < n ∧ p 0 = true := by
  cases n with
  | zero => simp [firstStop]
  | succ n => cases h : p 0 <;> simp [firstStop, h]

theorem range_succ_flatMap (n : ℕ) (f : ℕ → List α) :
    (List.range (n + 1)).flatMap f = f 0 ++ (List.range n).flatMap (fun i => f (i + 1)) := by
  rw [List.range_succ_eq_map, List.flatMap_cons, List.flatMap_map]

end Curlinho.Foundation
