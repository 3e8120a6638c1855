import Mathlib.Data.List.Basic

/-! # Steps of different kinds

A sequence of steps in which steps of different kinds commute. What it comes to depends
on the steps of each kind in their order, and not on how the kinds are mixed.
-/
namespace Curlinho.Foundation
variable {α κ σ : Type*} {step : σ → α → σ} {kind : α → κ}

/-- A step moves to the front of others of different kinds. -/
theorem foldl_move_front (hcomm : ∀ s a b, kind a ≠ kind b → step (step s a) b = step (step s b) a)
    {l : List α} {a : α} (hl : ∀ b ∈ l, kind b ≠ kind a) (s : σ) :
    step (l.foldl step s) a = l.foldl step (step s a) := by
  induction l generalizing s with
  | nil => rfl
  | cons b l ih =>
    have hb : kind b ≠ kind a := hl b List.mem_cons_self
    have htail := ih (fun c hc => hl c (List.mem_cons_of_mem b hc)) (step s b)
    rw [List.foldl_cons, htail, hcomm s b a hb]
    rfl

variable [DecidableEq κ]

variable (kind) in
/-- Two sequences with the same steps of each kind come to the same. -/
theorem foldl_eq_of_filter_eq
    (hcomm : ∀ s a b, kind a ≠ kind b → step (step s a) b = step (step s b) a) {l l' : List α}
    (h : ∀ k, l'.filter (fun a => kind a = k) = l.filter (fun a => kind a = k)) (s : σ) :
    l'.foldl step s = l.foldl step s := by
  induction l generalizing l' s with
  | nil =>
    cases l' with
    | nil => rfl
    | cons b l' =>
      have hb := h (kind b)
      simp only [List.filter_cons, decide_true, if_true, List.filter_nil] at hb
      cases hb
  | cons a l ih =>
    have ha := h (kind a)
    simp only [List.filter_cons, decide_true, if_true, List.filter_eq_cons_iff] at ha
    obtain ⟨before, after, rfl, hbefore, -, hafter⟩ := ha
    have hother : ∀ b ∈ before, kind b ≠ kind a :=
      fun b hb heq => hbefore b hb (decide_eq_true heq)
    have hrest : ∀ k, (before ++ after).filter (fun b => kind b = k) =
        l.filter (fun b => kind b = k) := by
      intro k
      by_cases hk : kind a = k
      · subst hk
        rw [List.filter_append, hafter, List.filter_eq_nil_iff.mpr hbefore, List.nil_append]
      · have hk' := h k
        rwa [List.filter_append, List.filter_cons_of_neg (by simpa using hk),
          List.filter_cons_of_neg (by simpa using hk), ← List.filter_append] at hk'
    calc (before ++ a :: after).foldl step s
        = after.foldl step (step (before.foldl step s) a) := by
          rw [List.foldl_append, List.foldl_cons]
      _ = (before ++ after).foldl step (step s a) := by
          rw [foldl_move_front hcomm hother, List.foldl_append]
      _ = l.foldl step (step s a) := ih hrest (step s a)

end Curlinho.Foundation
