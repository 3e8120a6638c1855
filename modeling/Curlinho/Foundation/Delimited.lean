import Mathlib.Data.List.Basic

/-! # Delimited sequences

Reading a stream piece by piece up to a delimiter, and cutting a sequence at the
first occurrence of one.
-/
namespace Curlinho.Foundation
variable {α : Type*} [DecidableEq α]

/-- All the pieces a `getline` loop reads. A final piece needs no delimiter, and
nothing is read after a final delimiter. -/
def getlines (delim : α) : List α → List (List α)
  | [] => []
  | c :: cs =>
    if c = delim then [] :: getlines delim cs
    else match getlines delim cs with
      | [] => [[c]]
      | l :: ls => (c :: l) :: ls

@[simp] theorem getlines_nil (delim : α) : getlines delim [] = [] := rfl

theorem getlines_append {delim : α} {l : List α} (h : delim ∉ l) (rest : List α) :
    getlines delim (l ++ delim :: rest) = l :: getlines delim rest := by
  induction l with
  | nil => simp [getlines]
  | cons c l ih =>
    have hc : c ≠ delim := fun hc => h (hc ▸ List.mem_cons_self)
    simp only [List.cons_append, getlines, if_neg hc]
    rw [ih (fun hm => h (List.mem_cons_of_mem _ hm))]

theorem getlines_flatMap {delim : α} (ls : List (List α)) (h : ∀ l ∈ ls, delim ∉ l)
    (rest : List α) :
    getlines delim (ls.flatMap (fun l => l ++ [delim]) ++ rest) = ls ++ getlines delim rest := by
  induction ls with
  | nil => rfl
  | cons l ls ih =>
    have hl := getlines_append (h l List.mem_cons_self)
      (ls.flatMap (fun l => l ++ [delim]) ++ rest)
    rw [ih (fun l hm => h l (List.mem_cons_of_mem _ hm))] at hl
    simpa using hl

theorem getlines_lines {delim : α} {ls : List (List α)} (h : ∀ l ∈ ls, delim ∉ l) :
    getlines delim (ls.flatMap (fun l => l ++ [delim])) = ls := by
  have hread := getlines_flatMap ls h []
  rwa [List.append_nil, getlines_nil, List.append_nil] at hread

theorem getlines_of_notMem {delim : α} {l : List α} (h : delim ∉ l) (hne : l ≠ []) :
    getlines delim l = [l] := by
  induction l with
  | nil => exact absurd rfl hne
  | cons c l ih =>
    have hc : c ≠ delim := fun hc => h (hc ▸ List.mem_cons_self)
    cases l with
    | nil => simp [getlines, hc]
    | cons d l =>
      rw [getlines, if_neg hc, ih (fun hm => h (List.mem_cons_of_mem _ hm)) (List.cons_ne_nil d l)]

/-- Reading starts afresh after every delimiter. -/
theorem getlines_append_concat (delim : α) (s rest : List α) :
    getlines delim (s ++ [delim] ++ rest) =
      getlines delim (s ++ [delim]) ++ getlines delim rest := by
  induction hn : s.length using Nat.strongRecOn generalizing s with
  | _ n ih =>
    by_cases hs : delim ∈ s
    · obtain ⟨a, b, rfl, ha⟩ := List.eq_append_cons_of_mem hs
      have hlen : b.length < n := by
        rw [← hn, List.length_append, List.length_cons]
        omega
      have hb := ih b.length hlen b rfl
      simp only [List.append_assoc, List.cons_append] at hb ⊢
      rw [getlines_append ha, getlines_append ha, hb, List.cons_append]
    · have hrest := getlines_append hs rest
      have hnil := getlines_append hs []
      rw [List.append_assoc, List.singleton_append, hrest, hnil, getlines_nil]
      rfl

/-- Any sequence consists of terminated pieces and a rest, which is a piece if it is not
empty. -/
theorem exists_getlines_eq (delim : α) (s : List α) :
    ∃ init rest, (∀ l ∈ init, delim ∉ l) ∧ delim ∉ rest ∧
      s = init.flatMap (fun l => l ++ [delim]) ++ rest ∧
      getlines delim s = init ++ if rest = [] then [] else [rest] := by
  induction hn : s.length using Nat.strongRecOn generalizing s with
  | _ n ih =>
    by_cases hs : delim ∈ s
    · obtain ⟨a, b, rfl, ha⟩ := List.eq_append_cons_of_mem hs
      have hlen : b.length < n := by
        rw [← hn, List.length_append, List.length_cons]
        omega
      obtain ⟨init, rest, hinit, hrest, hb, hlines⟩ := ih b.length hlen b rfl
      refine ⟨a :: init, rest, List.forall_mem_cons.mpr ⟨ha, hinit⟩, hrest, ?_, ?_⟩
      · rw [hb]
        simp
      · rw [getlines_append ha, hlines, List.cons_append]
    · refine ⟨[], s, fun l hl => absurd hl List.not_mem_nil, hs, rfl, ?_⟩
      split
      · next hnil => rw [hnil, getlines_nil, List.append_nil]
      · next hne => rw [getlines_of_notMem hs hne, List.nil_append]

theorem notMem_of_mem_getlines {delim : α} {s l : List α} (h : l ∈ getlines delim s) :
    delim ∉ l := by
  obtain ⟨init, rest, hinit, hrest, -, hlines⟩ := exists_getlines_eq delim s
  rw [hlines, List.mem_append] at h
  rcases h with h | h
  · exact hinit l h
  · split at h
    · cases h
    · exact List.mem_singleton.mp h ▸ hrest

/-- What precedes the first delimiter, and what follows it if there is one. -/
def cutFirst (delim : α) : List α → List α × Option (List α)
  | [] => ([], none)
  | c :: cs =>
    if c = delim then ([], some cs)
    else (c :: (cutFirst delim cs).1, (cutFirst delim cs).2)

theorem cutFirst_of_notMem {delim : α} {l : List α} (h : delim ∉ l) :
    cutFirst delim l = (l, none) := by
  induction l with
  | nil => rfl
  | cons c l ih =>
    have hc : c ≠ delim := fun hc => h (hc ▸ List.mem_cons_self)
    simp only [cutFirst, if_neg hc, ih (fun hm => h (List.mem_cons_of_mem _ hm))]

theorem cutFirst_append {delim : α} {l : List α} (h : delim ∉ l) (rest : List α) :
    cutFirst delim (l ++ delim :: rest) = (l, some rest) := by
  induction l with
  | nil => simp [cutFirst]
  | cons c l ih =>
    have hc : c ≠ delim := fun hc => h (hc ▸ List.mem_cons_self)
    simp only [List.cons_append, cutFirst, if_neg hc, ih (fun hm => h (List.mem_cons_of_mem _ hm))]

theorem cutFirst_append_of_notMem {delim : α} {l : List α} (h : delim ∉ l) (rest : List α) :
    cutFirst delim (l ++ rest) = (l ++ (cutFirst delim rest).1, (cutFirst delim rest).2) := by
  induction l with
  | nil => rfl
  | cons c l ih =>
    have hc : c ≠ delim := fun hc => h (hc ▸ List.mem_cons_self)
    simp only [List.cons_append, cutFirst, if_neg hc, ih (fun hm => h (List.mem_cons_of_mem _ hm))]

theorem cutFirst_cases (delim : α) (l : List α) :
    (delim ∉ l ∧ cutFirst delim l = (l, none)) ∨
      ∃ a b, delim ∉ a ∧ l = a ++ delim :: b ∧ cutFirst delim l = (a, some b) := by
  by_cases h : delim ∈ l
  · obtain ⟨a, b, rfl, ha⟩ := List.eq_append_cons_of_mem h
    exact Or.inr ⟨a, b, ha, rfl, cutFirst_append ha b⟩
  · exact Or.inl ⟨h, cutFirst_of_notMem h⟩

end Curlinho.Foundation
