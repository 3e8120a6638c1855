import Mathlib.Data.List.Induction

/-! # Last-write-wins sequences

The value that the last writer in a sequence leaves, when only some of its elements
write.
-/
namespace Curlinho.Foundation
variable {α β γ : Type*}

/-- The value of the last element on which `f` is defined. -/
def lastSome (f : α → Option β) (l : List α) : Option β := l.reverse.findSome? f

@[simp] theorem lastSome_nil (f : α → Option β) : lastSome f [] = none := rfl

@[simp] theorem lastSome_append (f : α → Option β) (l l' : List α) :
    lastSome f (l ++ l') = (lastSome f l').or (lastSome f l) := by
  rw [lastSome, List.reverse_append, List.findSome?_append]
  rfl

theorem lastSome_concat (f : α → Option β) (l : List α) (a : α) :
    lastSome f (l ++ [a]) = (f a).or (lastSome f l) := by
  rw [lastSome_append]
  cases h : f a <;> simp [lastSome, h]

theorem lastSome_cons (f : α → Option β) (a : α) (l : List α) :
    lastSome f (a :: l) = (lastSome f l).or (f a) := by
  have h := lastSome_append f [a] l
  rw [List.singleton_append] at h
  rw [h]
  cases ha : f a <;> simp [lastSome, ha]

@[simp] theorem lastSome_map (f : β → Option γ) (g : α → β) (l : List α) :
    lastSome f (l.map g) = lastSome (fun a => f (g a)) l := by
  induction l with
  | nil => rfl
  | cons a l ih => rw [List.map_cons, lastSome_cons, lastSome_cons, ih]

theorem lastSome_optionMap (f : α → Option β) (g : β → γ) (l : List α) :
    lastSome (fun a => (f a).map g) l = (lastSome f l).map g := by
  induction l with
  | nil => rfl
  | cons a l ih => rw [lastSome_cons, lastSome_cons, ih, Option.map_or]

theorem lastSome_congr {f g : α → Option β} {l : List α} (h : ∀ a ∈ l, f a = g a) :
    lastSome f l = lastSome g l := by
  induction l with
  | nil => rfl
  | cons a l ih =>
    rw [lastSome_cons, lastSome_cons, h a List.mem_cons_self,
      ih (fun b hb => h b (List.mem_cons_of_mem _ hb))]

theorem lastSome_const (p : α → Bool) (b : β) (l : List α) :
    lastSome (fun a => if p a then some b else none) l = if l.any p then some b else none := by
  induction l with
  | nil => rfl
  | cons a l ih =>
    rw [lastSome_cons, ih, List.any_cons]
    cases p a <;> cases l.any p <;> rfl

theorem lastSome_flag (p : α → Bool) (l : List α) :
    (lastSome (fun a => if p a then some true else none) l).getD false = l.any p := by
  induction l using List.reverseRecOn with
  | nil => rfl
  | append_singleton l a ih =>
    rw [lastSome_concat, List.any_append, List.any_cons, List.any_nil, Bool.or_false]
    cases ha : p a with
    | true => simp
    | false => simpa using ih

/-- A component that each step overwrites or keeps ends with the last value written. -/
theorem foldl_component {σ : Type*} {step : σ → α → σ} (get : σ → β) {f : α → Option β}
    (h : ∀ s a, get (step s a) = (f a).getD (get s)) (l : List α) (s : σ) :
    get (l.foldl step s) = (lastSome f l).getD (get s) := by
  induction l using List.reverseRecOn with
  | nil => rfl
  | append_singleton l a ih =>
    rw [List.foldl_append, List.foldl_cons, List.foldl_nil, h, ih, lastSome_concat]
    cases f a <;> rfl

theorem foldl_component_or {σ : Type*} {step : σ → α → σ} (get : σ → Option β)
    {f : α → Option β} (h : ∀ s a, get (step s a) = (f a).or (get s)) (l : List α) (s : σ) :
    get (l.foldl step s) = (lastSome f l).or (get s) := by
  induction l using List.reverseRecOn with
  | nil => rfl
  | append_singleton l a ih =>
    rw [List.foldl_append, List.foldl_cons, List.foldl_nil, h, ih, lastSome_concat, Option.or_assoc]

theorem foldl_component_map {σ : Type*} {step : σ → α → σ} (get : σ → Option β)
    {f : α → Option β} (h : ∀ s a, get (step s a) = (get s).map (fun b => (f a).getD b))
    (l : List α) (s : σ) :
    get (l.foldl step s) = (get s).map (fun b => (lastSome f l).getD b) := by
  induction l using List.reverseRecOn with
  | nil => exact Option.map_id'.symm
  | append_singleton l a ih =>
    rw [List.foldl_append, List.foldl_cons, List.foldl_nil, h, ih, Option.map_map, lastSome_concat]
    congr 1
    funext b
    cases f a <;> simp

def lastWhere (p : α → Bool) (l : List α) : List α := (lastSome (Option.guard p) l).toList

theorem lastWhere_concat (p : α → Bool) (l : List α) (a : α) :
    lastWhere p (l ++ [a]) = if p a then [a] else lastWhere p l := by
  rw [lastWhere, lastSome_concat]
  cases h : p a with
  | true => simp [h]
  | false =>
    simp only [Option.guard, h, Bool.false_eq_true, if_false, Option.none_or]
    rfl

end Curlinho.Foundation
