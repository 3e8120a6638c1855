import Mathlib.Data.List.Basic

/-! # Recorded calls

A computation that calls an outside function and records the argument of every
call. What it computes and what it records are stated together, and compose along
sequencing and loops.
-/
namespace Curlinho.Foundation
variable {A α β σ ι : Type}

/-- One call: the argument is recorded and the answer is returned. -/
def called (arg : A) (answer : α) : StateM (List A) α := do
  modify (fun log => log ++ [arg])
  pure answer

def arguments (m : StateM (List A) α) : List A := (m.run []).2

/-- `m` returns `value` and makes the calls `args`, whatever was recorded before. -/
def Records (m : StateM (List A) α) (value : α) (args : List A) : Prop :=
  ∀ log, m.run log = (value, log ++ args)

namespace Records

theorem pure (value : α) : Records (Pure.pure value : StateM (List A) α) value [] := by
  intro log
  rw [List.append_nil]
  rfl

theorem called (arg : A) (answer : α) : Records (called arg answer) answer [arg] :=
  fun _ => rfl

theorem bind {m : StateM (List A) α} {f : α → StateM (List A) β} {a : α} {b : β} {as bs : List A}
    (hm : Records m a as) (hf : Records (f a) b bs) : Records (m >>= f) b (as ++ bs) := by
  intro log
  have hrun : (m >>= f).run log = (f (m.run log).1).run (m.run log).2 := rfl
  rw [hrun, hm log, hf (log ++ as), List.append_assoc]

theorem foldlM {step : σ → ι → StateM (List A) σ} {f : σ → ι → σ} {args : ι → List A}
    (hstep : ∀ s x, Records (step s x) (f s x) (args x)) (xs : List ι) (s : σ) :
    Records (xs.foldlM step s) (xs.foldl f s) (xs.flatMap args) := by
  induction xs generalizing s with
  | nil => exact pure s
  | cons x xs ih =>
    rw [List.foldlM_cons, List.flatMap_cons]
    exact (hstep s x).bind (ih (f s x))

theorem arguments_eq {m : StateM (List A) α} {value : α} {args : List A}
    (h : Records m value args) : arguments m = args := by
  rw [arguments, h []]
  rfl

end Records
end Curlinho.Foundation
