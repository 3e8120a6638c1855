import Mathlib.Algebra.BigOperators.Group.Finset.Basic
import Mathlib.Algebra.Order.BigOperators.Group.Finset
import Mathlib.Data.Set.Disjoint
import Mathlib.Order.CompletePartialOrder

/-! # Processes over a shared heap

Processes act in any order on one heap, and the cells that none of them owns may be
written at any time. If every process keeps to the cells it owns, each of them does
in every interleaving what it does alone.
-/
namespace Curlinho.Foundation
variable {ι α β σ ℓ : Type*}

/-- The cells that a process owns in each state, and its actions. -/
structure Process (α β σ ℓ : Type*) where
  owns : σ → Set α
  step : ℓ → σ → (α → β) → Option (σ × (α → β))

namespace Process
variable (p : Process α β σ ℓ)

/-- A run of the process on a heap that nothing else writes to. -/
inductive Run (s : σ) (h : α → β) : List ℓ → σ → (α → β) → Prop
  | nil : Run s h [] s h
  | snoc {ls : List ℓ} {l : ℓ} {s' s'' : σ} {h' h'' : α → β} (run : Run s h ls s' h')
      (step : p.step l s' h' = some (s'', h'')) : Run s h (ls ++ [l]) s'' h''

/-- While `inv` holds, the actions write owned cells only and depend on owned cells only. -/
structure Local (inv : σ → Prop) : Prop where
  kept : ∀ {l s s' h h'}, inv s → p.step l s h = some (s', h') → inv s'
  writes : ∀ {l s s' h h'}, inv s → p.step l s h = some (s', h') →
    ∀ a, a ∉ p.owns s → a ∉ p.owns s' → h' a = h a
  reads : ∀ {l s s' h h' k}, inv s → p.step l s h = some (s', h') →
    (∀ a ∈ p.owns s, k a = h a) →
      ∃ k', p.step l s k = some (s', k') ∧ ∀ a ∈ p.owns s', k' a = h' a

variable {p}

theorem Run.induct {s s' : σ} {h h' : α → β} {ls : List ℓ} (run : p.Run s h ls s' h')
    {P : σ → (α → β) → Prop} (init : P s h)
    (step : ∀ {l s s' h h'}, P s h → p.step l s h = some (s', h') → P s' h') : P s' h' := by
  induction run with
  | nil => exact init
  | snoc _ hstep ih => exact step ih hstep

end Process

structure Whole (ι α β σ : Type*) where
  heap : α → β
  states : ι → σ

inductive Move (ι α β ℓ : Type*)
  | act (i : ι) (l : ℓ)
  | write (a : α) (b : β)

section
variable [DecidableEq ι] [DecidableEq α] (p : ι → Process α β σ ℓ)

/-- A process acts, the cells that it comes to own being owned by no other; or a cell
that nobody owns is written. -/
inductive Whole.Step (w : Whole ι α β σ) : Move ι α β ℓ → Whole ι α β σ → Prop
  | act {i : ι} {l : ℓ} {s : σ} {h : α → β}
      (step : (p i).step l (w.states i) w.heap = some (s, h))
      (fresh : ∀ j, j ≠ i → Disjoint ((p i).owns s) ((p j).owns (w.states j))) :
      Step w (.act i l) ⟨h, Function.update w.states i s⟩
  | write {a : α} (b : β) (free : ∀ i, a ∉ (p i).owns (w.states i)) :
      Step w (.write a b) ⟨Function.update w.heap a b, w.states⟩

inductive Whole.Run (w : Whole ι α β σ) : List (Move ι α β ℓ) → Whole ι α β σ → Prop
  | nil : Run w [] w
  | snoc {ms : List (Move ι α β ℓ)} {m : Move ι α β ℓ} {w' w'' : Whole ι α β σ}
      (run : Run w ms w') (step : Whole.Step p w' m w'') : Run w (ms ++ [m]) w''

def Whole.Separate (w : Whole ι α β σ) : Prop :=
  ∀ i j, i ≠ j → Disjoint ((p i).owns (w.states i)) ((p j).owns (w.states j))

def actionsOf (i : ι) (ms : List (Move ι α β ℓ)) : List ℓ :=
  ms.filterMap (fun
    | .act j l => if j = i then some l else none
    | .write _ _ => none)

def countActions (ms : List (Move ι α β ℓ)) : ℕ :=
  ms.countP (fun
    | .act _ _ => true
    | .write _ _ => false)

variable {p} {w w' : Whole ι α β σ} {ms : List (Move ι α β ℓ)}

theorem Whole.Run.trans {w'' : Whole ι α β σ} {ns : List (Move ι α β ℓ)}
    (hrun : Whole.Run p w ms w') (hmore : Whole.Run p w' ns w'') :
    Whole.Run p w (ms ++ ns) w'' := by
  induction hmore with
  | nil => rwa [List.append_nil]
  | snoc _ hstep ih =>
    rw [← List.append_assoc]
    exact ih.snoc hstep

theorem Whole.Step.separate {m : Move ι α β ℓ} (hstep : Whole.Step p w m w')
    (hw : w.Separate p) : w'.Separate p := by
  cases hstep with
  | write b free => exact hw
  | @act i l s h step fresh =>
    intro j k hjk
    by_cases hj : j = i
    · subst hj
      simp only [Function.update_self, Function.update_of_ne (Ne.symm hjk)]
      exact fresh k (Ne.symm hjk)
    · by_cases hk : k = i
      · subst hk
        simp only [Function.update_self, Function.update_of_ne hj]
        exact (fresh j hj).symm
      · simp only [Function.update_of_ne hj, Function.update_of_ne hk]
        exact hw j k hjk

omit [DecidableEq ι] [DecidableEq α] in
theorem heap_eq_of_act {i j : ι} {l : ℓ} {s : σ} {h : α → β} {inv : σ → Prop}
    (hlocal : (p i).Local inv) (hinv : inv (w.states i)) (hw : w.Separate p) (hj : j ≠ i)
    (step : (p i).step l (w.states i) w.heap = some (s, h))
    (fresh : ∀ j, j ≠ i → Disjoint ((p i).owns s) ((p j).owns (w.states j))) :
    ∀ a ∈ (p j).owns (w.states j), h a = w.heap a := by
  intro a ha
  refine hlocal.writes hinv step a (fun hbefore => ?_) (fun hafter => ?_)
  · exact Set.disjoint_left.mp (hw i j (Ne.symm hj)) hbefore ha
  · exact Set.disjoint_left.mp (fresh j hj) hafter ha

/-- In every interleaving a process goes through a run of its own, on a heap that agrees
with the shared one wherever it looks, and no cell ever has two owners. -/
theorem Whole.Run.alone {inv : ι → σ → Prop} (hrun : Whole.Run p w ms w')
    (hlocal : ∀ i, (p i).Local (inv i)) (hinv : ∀ i, inv i (w.states i)) (hw : w.Separate p) :
    w'.Separate p ∧ ∀ i, inv i (w'.states i) ∧
      ∃ k, (p i).Run (w.states i) w.heap (actionsOf i ms) (w'.states i) k ∧
        ∀ a ∈ (p i).owns (w'.states i), k a = w'.heap a := by
  induction hrun with
  | nil => exact ⟨hw, fun i => ⟨hinv i, w.heap, .nil, fun _ _ => rfl⟩⟩
  | @snoc ms m w' w'' run hstep ih =>
    obtain ⟨hseparate, halone⟩ := ih
    refine ⟨hstep.separate hseparate, fun j => ?_⟩
    obtain ⟨hj, k, hk, hagree⟩ := halone j
    cases hstep with
    | @write a b free =>
      refine ⟨hj, k, ?_, fun x hx => ?_⟩
      · simpa only [actionsOf, List.filterMap_append, List.filterMap_cons, List.filterMap_nil,
          List.append_nil] using hk
      · have hne : x ≠ a := fun hxa => free j (hxa ▸ hx)
        exact (hagree x hx).trans (Function.update_of_ne hne b w'.heap).symm
    | @act i l s h step fresh =>
      by_cases hij : j = i
      · subst hij
        obtain ⟨k', hk', hagree'⟩ := (hlocal j).reads hj step hagree
        simp only [Function.update_self, actionsOf, List.filterMap_append, List.filterMap_cons,
          List.filterMap_nil, if_true]
        exact ⟨(hlocal j).kept hj step, k', hk.snoc hk', hagree'⟩
      · simp only [Function.update_of_ne hij]
        refine ⟨hj, k, ?_, fun x hx => ?_⟩
        · simpa only [actionsOf, List.filterMap_append, List.filterMap_cons, List.filterMap_nil,
            if_neg (Ne.symm hij), List.append_nil] using hk
        · rw [heap_eq_of_act (hlocal i) (halone i).1 hseparate hij step fresh x hx]
          exact hagree x hx

variable [Fintype ι] {size : ι → σ → ℕ}

omit [DecidableEq α] in
theorem sum_update_lt {i : ι} {s : σ} (states : ι → σ) (h : size i s < size i (states i)) :
    ∑ j, size j (Function.update states i s j) < ∑ j, size j (states j) := by
  refine Finset.sum_lt_sum (fun j _ => ?_) ⟨i, Finset.mem_univ i, ?_⟩
  · by_cases hj : j = i
    · subst hj
      rw [Function.update_self]
      exact h.le
    · rw [Function.update_of_ne hj]
  · rwa [Function.update_self]

theorem Whole.Step.sum_lt {i : ι} {l : ℓ} (hstep : Whole.Step p w (.act i l) w')
    (hsize : size i (w'.states i) < size i (w.states i)) :
    ∑ j, size j (w'.states j) < ∑ j, size j (w.states j) := by
  cases hstep with
  | act step fresh =>
    simp only [Function.update_self] at hsize
    exact sum_update_lt w.states hsize

variable (size) in
/-- If every action makes its process smaller, a run has no more actions than the
processes together can lose. -/
theorem Whole.Run.countActions_le (hrun : Whole.Run p w ms w')
    (hsize : ∀ {ms w' i l w''}, Whole.Run p w ms w' → Whole.Step p w' (.act i l) w'' →
      size i (w''.states i) < size i (w'.states i)) :
    countActions ms + ∑ i, size i (w'.states i) ≤ ∑ i, size i (w.states i) := by
  induction hrun with
  | nil => exact (Nat.zero_add _).le
  | @snoc ms m w' w'' run hstep ih =>
    rw [countActions, List.countP_append]
    cases m with
    | write a b =>
      cases hstep with
      | write b free => exact ih
    | act i l =>
      have hlt := hstep.sum_lt (hsize run hstep)
      calc countActions ms + 1 + ∑ j, size j (w''.states j)
          = countActions ms + (∑ j, size j (w''.states j) + 1) := by omega
        _ ≤ countActions ms + ∑ j, size j (w'.states j) := Nat.add_le_add_left hlt _
        _ ≤ ∑ j, size j (w.states j) := ih

variable (size) in
/-- If moreover some action is possible until all processes are done, every run can be
continued until they are. -/
theorem Whole.Run.exists_done (done : Whole ι α β σ → Prop) (hrun : Whole.Run p w ms w')
    (hsize : ∀ {ms w' i l w''}, Whole.Run p w ms w' → Whole.Step p w' (.act i l) w'' →
      size i (w''.states i) < size i (w'.states i))
    (hprogress : ∀ {ms w'}, Whole.Run p w ms w' → ¬ done w' →
      ∃ i l w'', Whole.Step p w' (.act i l) w'') :
    ∃ ns w'', Whole.Run p w' ns w'' ∧ done w'' := by
  generalize hn : ∑ i, size i (w'.states i) = n
  induction n using Nat.strong_induction_on generalizing ms w' with
  | h n ih =>
    by_cases hdone : done w'
    · exact ⟨[], w', .nil, hdone⟩
    · obtain ⟨i, l, w'', hstep⟩ := hprogress hrun hdone
      have hlt : ∑ i, size i (w''.states i) < n := hn ▸ hstep.sum_lt (hsize hrun hstep)
      obtain ⟨ns, v, hv, hvdone⟩ := ih _ hlt (hrun.snoc hstep) rfl
      exact ⟨[.act i l] ++ ns, v, (Whole.Run.nil.snoc hstep).trans hv, hvdone⟩

end
end Curlinho.Foundation
