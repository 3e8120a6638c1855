import Mathlib.Order.RelClasses
import Mathlib.Data.List.Induction

/-! # Ordered maps under a strict weak order

An ordered map keeps its entries sorted by a comparator that may identify
distinct keys. Insertion and assignment agree on everything but the value left
under a key that is already present; neither ever changes the spelling of that key.
-/
namespace Curlinho.Foundation
variable {κ ν : Type*}

/-- Keys that the comparator does not separate. -/
def SameKey (lt : κ → κ → Prop) (a b : κ) : Prop := ¬ lt a b ∧ ¬ lt b a

instance (lt : κ → κ → Prop) [DecidableRel lt] : DecidableRel (SameKey lt) :=
  fun a b => inferInstanceAs (Decidable (¬ lt a b ∧ ¬ lt b a))

section Keys
variable {lt : κ → κ → Prop}

theorem SameKey.symm {a b : κ} (h : SameKey lt a b) : SameKey lt b a := ⟨h.2, h.1⟩

variable [IsStrictWeakOrder κ lt]

theorem SameKey.refl (a : κ) : SameKey lt a a :=
  ⟨Std.Irrefl.irrefl a, Std.Irrefl.irrefl a⟩

theorem SameKey.trans {a b c : κ} (hab : SameKey lt a b) (hbc : SameKey lt b c) : SameKey lt a c :=
  IsStrictWeakOrder.incomp_trans a b c hab hbc

end Keys

variable (lt : κ → κ → Prop)

/-- The entries of a map in comparator order, no two of them under one key. -/
structure OrderedMap (κ ν : Type*) (lt : κ → κ → Prop) where
  entries : List (κ × ν)
  sorted : entries.Pairwise (fun a b => lt a.1 b.1)

variable [DecidableRel lt]

/-- Put `v` under `k`; an entry already there keeps its key and has its value
replaced by `f` of the old one. -/
def upsertEntry (f : ν → ν) (k : κ) (v : ν) : List (κ × ν) → List (κ × ν)
  | [] => [(k, v)]
  | e :: es =>
    if lt k e.1 then (k, v) :: e :: es
    else if lt e.1 k then e :: upsertEntry f k v es
    else (e.1, f e.2) :: es

variable {lt}

theorem mem_upsertEntry {f : ν → ν} {k : κ} {v : ν} {es : List (κ × ν)} {e : κ × ν}
    (h : e ∈ upsertEntry lt f k v es) : e = (k, v) ∨ ∃ e' ∈ es, e.1 = e'.1 := by
  induction es with
  | nil => exact Or.inl (by simpa [upsertEntry] using h)
  | cons a es ih =>
    simp only [upsertEntry] at h
    split at h
    · rcases List.mem_cons.mp h with rfl | h
      · exact Or.inl rfl
      · exact Or.inr ⟨e, h, rfl⟩
    · split at h
      · rcases List.mem_cons.mp h with rfl | h
        · exact Or.inr ⟨e, List.mem_cons_self, rfl⟩
        · rcases ih h with h | ⟨e', he', hk⟩
          · exact Or.inl h
          · exact Or.inr ⟨e', List.mem_cons_of_mem _ he', hk⟩
      · rcases List.mem_cons.mp h with rfl | h
        · exact Or.inr ⟨a, List.mem_cons_self, rfl⟩
        · exact Or.inr ⟨e, List.mem_cons_of_mem _ h, rfl⟩

/-- A key that is present stays, in its spelling. -/
theorem exists_mem_upsertEntry {f : ν → ν} {k : κ} {v : ν} {es : List (κ × ν)} {e : κ × ν}
    (h : e ∈ es) : ∃ e' ∈ upsertEntry lt f k v es, e'.1 = e.1 := by
  induction es with
  | nil => cases h
  | cons a es ih =>
    simp only [upsertEntry]
    split
    · exact ⟨e, List.mem_cons_of_mem _ h, rfl⟩
    · split
      · rcases List.mem_cons.mp h with rfl | h
        · exact ⟨e, List.mem_cons_self, rfl⟩
        · obtain ⟨e', he', hk⟩ := ih h
          exact ⟨e', List.mem_cons_of_mem _ he', hk⟩
      · rcases List.mem_cons.mp h with rfl | h
        · exact ⟨(e.1, f e.2), List.mem_cons_self, rfl⟩
        · exact ⟨e, List.mem_cons_of_mem _ h, rfl⟩

theorem upsertEntry_sorted [IsStrictWeakOrder κ lt] (f : ν → ν) (k : κ) (v : ν)
    {es : List (κ × ν)} (h : es.Pairwise (fun a b => lt a.1 b.1)) :
    (upsertEntry lt f k v es).Pairwise (fun a b => lt a.1 b.1) := by
  induction es with
  | nil => simp [upsertEntry]
  | cons a es ih =>
    obtain ⟨ha, hes⟩ := List.pairwise_cons.mp h
    simp only [upsertEntry]
    split
    · next hk =>
      refine List.pairwise_cons.mpr ⟨?_, h⟩
      intro e he
      rcases List.mem_cons.mp he with rfl | he
      · exact hk
      · exact IsTrans.trans _ _ _ hk (ha e he)
    · split
      · next hk =>
        refine List.pairwise_cons.mpr ⟨?_, ih hes⟩
        intro e he
        rcases mem_upsertEntry he with rfl | ⟨e', he', hkey⟩
        · exact hk
        · exact hkey ▸ ha e' he'
      · exact List.pairwise_cons.mpr ⟨ha, hes⟩

theorem upsertEntry_append {f : ν → ν} {k : κ} {v : ν} [IsStrictWeakOrder κ lt]
    {es : List (κ × ν)} (h : ∀ e ∈ es, lt e.1 k) :
    upsertEntry lt f k v es = es ++ [(k, v)] := by
  induction es with
  | nil => rfl
  | cons a es ih =>
    have ha := h a List.mem_cons_self
    have hn : ¬ lt k a.1 := fun hk => Std.Irrefl.irrefl (r := lt) _ (IsTrans.trans _ _ _ ha hk)
    simp only [upsertEntry, if_neg hn, if_pos ha, List.cons_append]
    rw [ih (fun e he => h e (List.mem_cons_of_mem _ he))]

def findValue (lt : κ → κ → Prop) [DecidableRel lt] (k : κ) (es : List (κ × ν)) : Option ν :=
  (es.find? (fun e => decide (SameKey lt e.1 k))).map Prod.snd

theorem findValue_nil (k : κ) : findValue lt k ([] : List (κ × ν)) = none := rfl

theorem findValue_cons_same {k : κ} {e : κ × ν} {es : List (κ × ν)} (h : SameKey lt e.1 k) :
    findValue lt k (e :: es) = some e.2 := by
  simp [findValue, h]

theorem findValue_cons_other {k : κ} {e : κ × ν} {es : List (κ × ν)} (h : ¬ SameKey lt e.1 k) :
    findValue lt k (e :: es) = findValue lt k es := by
  simp [findValue, h]

theorem findValue_eq_none {k : κ} {es : List (κ × ν)} (h : ∀ e ∈ es, ¬ SameKey lt e.1 k) :
    findValue lt k es = none := by
  simpa [findValue, List.find?_eq_none] using h

variable [IsStrictWeakOrder κ lt]

theorem findValue_upsertEntry_same {f : ν → ν} {k k' : κ} {v : ν} {es : List (κ × ν)}
    (hs : es.Pairwise (fun a b => lt a.1 b.1)) (h : SameKey lt k k') :
    findValue lt k' (upsertEntry lt f k v es) = some ((findValue lt k' es).elim v f) := by
  induction es with
  | nil => exact findValue_cons_same h
  | cons a es ih =>
    obtain ⟨ha, hes⟩ := List.pairwise_cons.mp hs
    simp only [upsertEntry]
    split
    · next hk =>
      have hnone : findValue lt k' (a :: es) = none := by
        apply findValue_eq_none
        intro e he hsame
        have hlt : lt k e.1 := by
          rcases List.mem_cons.mp he with rfl | he
          · exact hk
          · exact IsTrans.trans _ _ _ hk (ha e he)
        exact (h.trans hsame.symm).1 hlt
      rw [findValue_cons_same h, hnone]
      rfl
    · next hk =>
      split
      · next hk' =>
        have hn : ¬ SameKey lt a.1 k' := fun hsame => (hsame.trans h.symm).1 hk'
        rw [findValue_cons_other hn, findValue_cons_other hn, ih hes]
      · next hk' =>
        have hsame : SameKey lt a.1 k' := SameKey.trans ⟨hk', hk⟩ h
        rw [findValue_cons_same (e := (a.1, f a.2)) hsame, findValue_cons_same hsame]
        rfl

theorem findValue_upsertEntry_other {f : ν → ν} {k k' : κ} {v : ν} {es : List (κ × ν)}
    (h : ¬ SameKey lt k k') : findValue lt k' (upsertEntry lt f k v es) = findValue lt k' es := by
  induction es with
  | nil => exact findValue_cons_other h
  | cons a es ih =>
    simp only [upsertEntry]
    split
    · exact findValue_cons_other h
    · next hk =>
      split
      · by_cases ha : SameKey lt a.1 k'
        · rw [findValue_cons_same ha, findValue_cons_same ha]
        · rw [findValue_cons_other ha, findValue_cons_other ha, ih]
      · next hk' =>
        have hn : ¬ SameKey lt a.1 k' := fun ha => h (SameKey.trans ⟨hk, hk'⟩ ha)
        rw [findValue_cons_other (e := (a.1, f a.2)) hn, findValue_cons_other hn]

namespace OrderedMap

omit [IsStrictWeakOrder κ lt] [DecidableRel lt] in
@[ext] theorem ext {m n : OrderedMap κ ν lt} (h : m.entries = n.entries) : m = n := by
  cases m
  cases n
  cases h
  rfl

instance [DecidableEq κ] [DecidableEq ν] : DecidableEq (OrderedMap κ ν lt) :=
  fun _ _ => decidable_of_iff _ ⟨OrderedMap.ext, congrArg _⟩

def empty : OrderedMap κ ν lt := ⟨[], List.Pairwise.nil⟩

def lookup (m : OrderedMap κ ν lt) (k : κ) : Option ν := findValue lt k m.entries

def upsert (f : ν → ν) (m : OrderedMap κ ν lt) (k : κ) (v : ν) : OrderedMap κ ν lt :=
  ⟨upsertEntry lt f k v m.entries, upsertEntry_sorted f k v m.sorted⟩

/-- A key that is present is left with its value. -/
def insert (m : OrderedMap κ ν lt) (k : κ) (v : ν) : OrderedMap κ ν lt := m.upsert id k v

/-- A key that is present has its value overwritten. -/
def assign (m : OrderedMap κ ν lt) (k : κ) (v : ν) : OrderedMap κ ν lt := m.upsert (fun _ => v) k v

def insertAll (m : OrderedMap κ ν lt) (es : List (κ × ν)) : OrderedMap κ ν lt :=
  es.foldl (fun m e => m.insert e.1 e.2) m

def assignAll (m : OrderedMap κ ν lt) (es : List (κ × ν)) : OrderedMap κ ν lt :=
  es.foldl (fun m e => m.assign e.1 e.2) m

omit [IsStrictWeakOrder κ lt] in
@[simp] theorem lookup_empty (k : κ) : (empty : OrderedMap κ ν lt).lookup k = none := rfl

omit [DecidableRel lt] [IsStrictWeakOrder κ lt] in
theorem pairwise_not_sameKey (m : OrderedMap κ ν lt) :
    m.entries.Pairwise (fun a b => ¬ SameKey lt a.1 b.1) :=
  m.sorted.imp (fun h hs => hs.1 h)

theorem lookup_upsert_same (f : ν → ν) (m : OrderedMap κ ν lt) {k k' : κ} (v : ν)
    (h : SameKey lt k k') : (m.upsert f k v).lookup k' = some ((m.lookup k').elim v f) :=
  findValue_upsertEntry_same m.sorted h

@[simp] theorem lookup_insert (m : OrderedMap κ ν lt) (k : κ) (v : ν) (k' : κ) :
    (m.insert k v).lookup k' =
      if SameKey lt k k' then some ((m.lookup k').getD v) else m.lookup k' := by
  split
  · next h =>
    rw [insert, lookup_upsert_same id m v h]
    cases m.lookup k' <;> rfl
  · next h => exact findValue_upsertEntry_other h

@[simp] theorem lookup_assign (m : OrderedMap κ ν lt) (k : κ) (v : ν) (k' : κ) :
    (m.assign k v).lookup k' = if SameKey lt k k' then some v else m.lookup k' := by
  split
  · next h =>
    rw [assign, lookup_upsert_same _ m v h]
    cases m.lookup k' <;> rfl
  · next h => exact findValue_upsertEntry_other h

omit [IsStrictWeakOrder κ lt] in
theorem mem_upsertEntry_id {k : κ} {v : ν} {es : List (κ × ν)} {e : κ × ν}
    (h : e ∈ upsertEntry lt id k v es) : e = (k, v) ∨ e ∈ es := by
  induction es with
  | nil => exact Or.inl (by simpa [upsertEntry] using h)
  | cons a es ih =>
    simp only [upsertEntry] at h
    split at h
    · exact List.mem_cons.mp h
    · split at h
      · rcases List.mem_cons.mp h with rfl | h
        · exact Or.inr List.mem_cons_self
        · exact (ih h).imp_right (List.mem_cons_of_mem _)
      · exact Or.inr h

omit [IsStrictWeakOrder κ lt] in
theorem mem_upsertEntry_id_of_mem {k : κ} {v : ν} {es : List (κ × ν)} {e : κ × ν} (h : e ∈ es) :
    e ∈ upsertEntry lt id k v es := by
  induction es with
  | nil => cases h
  | cons a es ih =>
    simp only [upsertEntry]
    split
    · exact List.mem_cons_of_mem _ h
    · split
      · rcases List.mem_cons.mp h with rfl | h
        · exact List.mem_cons_self
        · exact List.mem_cons_of_mem _ (ih h)
      · exact h

theorem mem_insertAll (m : OrderedMap κ ν lt) {es : List (κ × ν)} {e : κ × ν}
    (h : e ∈ (m.insertAll es).entries) : e ∈ m.entries ∨ e ∈ es := by
  induction es generalizing m with
  | nil => exact Or.inl h
  | cons a es ih =>
    rcases ih (m.insert a.1 a.2) h with h | h
    · rcases mem_upsertEntry_id h with rfl | h
      · exact Or.inr List.mem_cons_self
      · exact Or.inl h
    · exact Or.inr (List.mem_cons_of_mem _ h)

@[simp] theorem lookup_insertAll (m : OrderedMap κ ν lt) (es : List (κ × ν)) (k : κ) :
    (m.insertAll es).lookup k = (m.lookup k).or (findValue lt k es) := by
  induction es generalizing m with
  | nil => simp [insertAll, findValue_nil]
  | cons e es ih =>
    have hstep := ih (m.insert e.1 e.2)
    simp only [insertAll, List.foldl_cons] at hstep ⊢
    rw [hstep, lookup_insert]
    by_cases he : SameKey lt e.1 k
    · rw [if_pos he, findValue_cons_same he]
      cases m.lookup k <;> rfl
    · rw [if_neg he, findValue_cons_other he]

@[simp] theorem lookup_assignAll (m : OrderedMap κ ν lt) (es : List (κ × ν)) (k : κ) :
    (m.assignAll es).lookup k = (findValue lt k es.reverse).or (m.lookup k) := by
  induction es using List.reverseRecOn with
  | nil => simp [assignAll, findValue_nil]
  | append_singleton es e ih =>
    simp only [assignAll, List.foldl_append, List.foldl_cons, List.foldl_nil,
      List.reverse_append, List.reverse_cons, List.reverse_nil, List.nil_append,
      List.singleton_append] at ih ⊢
    rw [lookup_assign]
    by_cases he : SameKey lt e.1 k
    · rw [if_pos he, findValue_cons_same he]
      rfl
    · rw [if_neg he, findValue_cons_other he, ih]

/-- Entries that come in order, and after all that are there, are appended. -/
theorem foldl_upsert_append (f : κ × ν → ν → ν) (m : OrderedMap κ ν lt) (es : List (κ × ν))
    (h : (m.entries ++ es).Pairwise (fun a b => lt a.1 b.1)) :
    (es.foldl (fun m e => m.upsert (f e) e.1 e.2) m).entries = m.entries ++ es := by
  induction es generalizing m with
  | nil => simp
  | cons e es ih =>
    have hlt : ∀ a ∈ m.entries, lt a.1 e.1 := fun a ha =>
      (List.pairwise_append.mp h).2.2 a ha e List.mem_cons_self
    have hentries : (m.upsert (f e) e.1 e.2).entries = m.entries ++ [e] := upsertEntry_append hlt
    have hnext := ih (m.upsert (f e) e.1 e.2) (by rw [hentries]; simpa using h)
    rw [List.foldl_cons, hnext, hentries]
    simp

theorem assignAll_append (m : OrderedMap κ ν lt) (es : List (κ × ν))
    (h : (m.entries ++ es).Pairwise (fun a b => lt a.1 b.1)) :
    (m.assignAll es).entries = m.entries ++ es :=
  foldl_upsert_append (fun e _ => e.2) m es h

@[simp] theorem insertAll_entries (m : OrderedMap κ ν lt) : empty.insertAll m.entries = m :=
  ext (foldl_upsert_append (fun _ => id) empty m.entries m.sorted)

theorem mem_insertAll_of_mem (m : OrderedMap κ ν lt) (es : List (κ × ν)) {e : κ × ν}
    (h : e ∈ m.entries) : e ∈ (m.insertAll es).entries := by
  induction es generalizing m with
  | nil => exact h
  | cons a es ih => exact ih (m.insert a.1 a.2) (mem_upsertEntry_id_of_mem h)

@[simp] theorem assignAll_entries (m : OrderedMap κ ν lt) : empty.assignAll m.entries = m :=
  ext (assignAll_append empty m.entries m.sorted)

end OrderedMap
end Curlinho.Foundation
