import Curlinho.Foundation.OrderedMap
import Mathlib.Data.List.Pairwise
import Mathlib.Data.List.Perm.Basic

/-! # The entries of ordered maps

A map is determined by its entries as a set, so that laws of operations are facts about
membership. The union of two maps has the entries of the first, and those of the second
under keys that the first does not have.
-/
namespace Curlinho.Foundation
namespace OrderedMap
variable {κ ν : Type*} {lt : κ → κ → Prop}

theorem eq_of_sameKey (m : OrderedMap κ ν lt) {a b : κ × ν} (ha : a ∈ m.entries)
    (hb : b ∈ m.entries) (h : SameKey lt a.1 b.1) : a = b := by
  by_contra hne
  have hsymm : Std.Symm (fun a b : κ × ν => ¬ SameKey lt a.1 b.1) :=
    ⟨fun _ _ hab hba => hab hba.symm⟩
  exact m.pairwise_not_sameKey.forall ha hb hne h

variable [IsStrictWeakOrder κ lt]

theorem nodup_entries (m : OrderedMap κ ν lt) : m.entries.Nodup :=
  m.pairwise_not_sameKey.imp (fun {a b} h (heq : a = b) => h (heq ▸ SameKey.refl a.1))

theorem ext_mem {m n : OrderedMap κ ν lt} (h : ∀ e, e ∈ m.entries ↔ e ∈ n.entries) : m = n := by
  have hperm := (List.perm_ext_iff_of_nodup m.nodup_entries n.nodup_entries).mpr h
  refine ext (hperm.eq_of_pairwise (fun a b _ _ hab hba => ?_) m.sorted n.sorted)
  exact absurd (IsTrans.trans _ _ _ hab hba) (Std.Irrefl.irrefl a.1)

variable [DecidableRel lt]

theorem mem_insert (m : OrderedMap κ ν lt) (k : κ) (v : ν) (e : κ × ν) :
    e ∈ (m.insert k v).entries ↔
      e ∈ m.entries ∨ e = (k, v) ∧ ∀ a ∈ m.entries, ¬ SameKey lt a.1 k := by
  constructor
  · intro he
    rcases mem_upsertEntry_id he with rfl | hm
    · by_cases hk : ∃ a ∈ m.entries, SameKey lt a.1 k
      · -- the entry that is there has the key, so it is the one found
        obtain ⟨a, ha, hsame⟩ := hk
        have hkept : a ∈ (m.insert k v).entries := mem_upsertEntry_id_of_mem ha
        exact Or.inl ((m.insert k v).eq_of_sameKey hkept he hsame ▸ ha)
      · exact Or.inr ⟨rfl, fun a ha hsame => hk ⟨a, ha, hsame⟩⟩
    · exact Or.inl hm
  · rintro (hm | ⟨rfl, hk⟩)
    · exact mem_upsertEntry_id_of_mem hm
    · have hsome : ((m.insert k v).lookup k).isSome = true := by
        rw [m.lookup_insert, if_pos (SameKey.refl k)]
        rfl
      simp only [lookup, findValue, Option.isSome_map, List.find?_isSome, decide_eq_true_iff]
        at hsome
      obtain ⟨e, he, hsame⟩ := hsome
      rcases mem_upsertEntry_id he with rfl | hm
      · exact he
      · exact absurd hsame (hk e hm)

theorem mem_insertAll_iff (m : OrderedMap κ ν lt) {es : List (κ × ν)}
    (hes : es.Pairwise (fun a b => ¬ SameKey lt a.1 b.1)) (e : κ × ν) :
    e ∈ (m.insertAll es).entries ↔
      e ∈ m.entries ∨ e ∈ es ∧ ∀ a ∈ m.entries, ¬ SameKey lt a.1 e.1 := by
  induction es generalizing m with
  | nil => simp [insertAll]
  | cons b es ih =>
    obtain ⟨hb, hrest⟩ := List.pairwise_cons.mp hes
    have hinserted : ∀ e ∈ es, (∀ a ∈ (m.insert b.1 b.2).entries, ¬ SameKey lt a.1 e.1) ↔
        ∀ a ∈ m.entries, ¬ SameKey lt a.1 e.1 := by
      intro e he
      constructor
      · exact fun h a ha => h a (mem_upsertEntry_id_of_mem ha)
      · intro h a ha
        rcases mem_upsertEntry_id ha with rfl | ha
        · exact hb e he
        · exact h a ha
    rw [insertAll, List.foldl_cons, ← insertAll, ih (m.insert b.1 b.2) hrest, m.mem_insert,
      and_congr_right (hinserted e), List.mem_cons, or_and_right, or_assoc]
    refine or_congr_right (or_congr_left (and_congr_right ?_))
    rintro rfl
    rfl

/-- The entries of `m`, and those of `n` under other keys. -/
def union (m n : OrderedMap κ ν lt) : OrderedMap κ ν lt := m.insertAll n.entries

theorem mem_union (m n : OrderedMap κ ν lt) (e : κ × ν) :
    e ∈ (m.union n).entries ↔
      e ∈ m.entries ∨ e ∈ n.entries ∧ ∀ a ∈ m.entries, ¬ SameKey lt a.1 e.1 :=
  m.mem_insertAll_iff n.pairwise_not_sameKey e

theorem forall_mem_union (m n : OrderedMap κ ν lt) (k : κ) :
    (∀ a ∈ (m.union n).entries, ¬ SameKey lt a.1 k) ↔
      (∀ a ∈ m.entries, ¬ SameKey lt a.1 k) ∧ ∀ a ∈ n.entries, ¬ SameKey lt a.1 k := by
  constructor
  · intro h
    have hm : ∀ a ∈ m.entries, ¬ SameKey lt a.1 k := fun a ha =>
      h a ((m.mem_union n a).mpr (Or.inl ha))
    refine ⟨hm, fun a ha hsame => ?_⟩
    refine h a ((m.mem_union n a).mpr (Or.inr ⟨ha, fun b hb hba => ?_⟩)) hsame
    exact hm b hb (hba.trans hsame)
  · rintro ⟨hm, hn⟩ a ha
    rcases (m.mem_union n a).mp ha with ha | ⟨ha, -⟩
    · exact hm a ha
    · exact hn a ha

theorem union_assoc (m n p : OrderedMap κ ν lt) : (m.union n).union p = m.union (n.union p) := by
  apply ext_mem
  intro e
  rw [mem_union, forall_mem_union, mem_union, mem_union, mem_union]
  tauto

@[simp] theorem union_empty (m : OrderedMap κ ν lt) : m.union empty = m := rfl

omit [IsStrictWeakOrder κ lt] in
theorem mem_upsertEntry_const {k : κ} {v : ν} {es : List (κ × ν)} {e : κ × ν}
    (h : e ∈ upsertEntry lt (fun _ => v) k v es) :
    e ∈ es ∨ e.2 = v ∧ (e.1 = k ∨ ∃ a ∈ es, a.1 = e.1) := by
  induction es with
  | nil =>
    obtain rfl : e = (k, v) := by simpa [upsertEntry] using h
    exact Or.inr ⟨rfl, Or.inl rfl⟩
  | cons a es ih =>
    simp only [upsertEntry] at h
    split at h
    · rcases List.mem_cons.mp h with rfl | h
      · exact Or.inr ⟨rfl, Or.inl rfl⟩
      · exact Or.inl h
    · split at h
      · rcases List.mem_cons.mp h with rfl | h
        · exact Or.inl List.mem_cons_self
        · refine (ih h).imp (List.mem_cons_of_mem _) (And.imp_right (Or.imp_right ?_))
          rintro ⟨b, hb, hk⟩
          exact ⟨b, List.mem_cons_of_mem _ hb, hk⟩
      · rcases List.mem_cons.mp h with rfl | h
        · exact Or.inr ⟨rfl, Or.inr ⟨a, List.mem_cons_self, rfl⟩⟩
        · exact Or.inl (List.mem_cons_of_mem _ h)

/-- An entry after an assignment was there, or has the new value under the new key or
under a key that was there. -/
theorem mem_assign {m : OrderedMap κ ν lt} {k : κ} {v : ν} {e : κ × ν}
    (h : e ∈ (m.assign k v).entries) :
    e ∈ m.entries ∨ e.2 = v ∧ (e.1 = k ∨ ∃ a ∈ m.entries, a.1 = e.1) :=
  mem_upsertEntry_const h

omit [IsStrictWeakOrder κ lt] in
theorem upsertEntry_congr (f g : ν → ν) {k : κ} (v : ν) {es : List (κ × ν)}
    (h : ∀ a ∈ es, ¬ SameKey lt a.1 k) : upsertEntry lt f k v es = upsertEntry lt g k v es := by
  induction es with
  | nil => rfl
  | cons a es ih =>
    have htail := ih (fun b hb => h b (List.mem_cons_of_mem _ hb))
    have ha := h a List.mem_cons_self
    by_cases hka : lt k a.1
    · simp only [upsertEntry, if_pos hka]
    · have hak : lt a.1 k := by
        by_contra hak
        exact ha ⟨hak, hka⟩
      simp only [upsertEntry, if_neg hka, if_pos hak, htail]

/-- Under distinct keys it does not matter that an assignment overwrites. -/
theorem assignAll_eq_insertAll (m : OrderedMap κ ν lt) {es : List (κ × ν)}
    (h : (m.entries ++ es).Pairwise (fun a b => ¬ SameKey lt a.1 b.1)) :
    m.assignAll es = m.insertAll es := by
  induction es generalizing m with
  | nil => rfl
  | cons a es ih =>
    have hsplit := List.pairwise_append.mp h
    have hfirst : m.assign a.1 a.2 = m.insert a.1 a.2 :=
      ext (upsertEntry_congr _ _ a.2 (fun b hb => hsplit.2.2 b hb a List.mem_cons_self))
    rw [assignAll, List.foldl_cons, ← assignAll, hfirst, insertAll, List.foldl_cons, ← insertAll]
    refine ih (m.insert a.1 a.2) (List.pairwise_append.mpr ⟨pairwise_not_sameKey _, ?_, ?_⟩)
    · exact (List.pairwise_cons.mp hsplit.2.1).2
    · intro b hb c hc
      rcases mem_upsertEntry_id hb with rfl | hb
      · exact (List.pairwise_cons.mp hsplit.2.1).1 c hc
      · exact hsplit.2.2 b hb c (List.mem_cons_of_mem _ hc)

/-- Assigned in any order, the entries of a map give the map. -/
theorem assignAll_perm (m : OrderedMap κ ν lt) {es : List (κ × ν)} (h : es.Perm m.entries) :
    empty.assignAll es = m := by
  have hdistinct : es.Pairwise (fun a b => ¬ SameKey lt a.1 b.1) :=
    (h.pairwise_iff (fun hab hba => hab hba.symm)).mpr m.pairwise_not_sameKey
  rw [assignAll_eq_insertAll empty hdistinct]
  refine ext_mem (fun e => ?_)
  rw [mem_insertAll_iff empty hdistinct, h.mem_iff]
  simp [empty]

end OrderedMap
end Curlinho.Foundation
