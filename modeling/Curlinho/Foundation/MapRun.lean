import Curlinho.Foundation.OrderedMap

/-! # Runs of map operations

Any sequence of insertions, assignments and clearings of an ordered map. The map
has an entry for exactly the keys written since it was last cleared, up to keys
that the comparator does not separate, and an operation on one key leaves every
key that is separated from it alone.
-/
namespace Curlinho.Foundation
variable {κ ν : Type*} {lt : κ → κ → Prop}

inductive MapCall (κ ν : Type*)
  | insert (k : κ) (v : ν)
  | assign (k : κ) (v : ν)
  | clear

namespace MapCall

def key? : MapCall κ ν → Option κ
  | insert k _ => some k
  | assign k _ => some k
  | clear => none

/-- The keys written since the last clearing, one more call included. -/
def writtenStep (keys : List κ) (call : MapCall κ ν) : List κ :=
  match call.key? with
  | some k => keys ++ [k]
  | none => []

def written (calls : List (MapCall κ ν)) : List κ := calls.foldl writtenStep []

variable [DecidableRel lt] [IsStrictWeakOrder κ lt]

def apply (m : OrderedMap κ ν lt) : MapCall κ ν → OrderedMap κ ν lt
  | insert k v => m.insert k v
  | assign k v => m.assign k v
  | clear => OrderedMap.empty

def run (calls : List (MapCall κ ν)) : OrderedMap κ ν lt := calls.foldl apply OrderedMap.empty

end MapCall

open MapCall

section Lookup
variable [DecidableRel lt]

theorem OrderedMap.isSome_lookup (m : OrderedMap κ ν lt) [IsStrictWeakOrder κ lt] (k : κ) :
    (m.lookup k).isSome = true ↔ ∃ e ∈ m.entries, SameKey lt e.1 k := by
  simp [OrderedMap.lookup, findValue, List.find?_isSome]

variable [IsStrictWeakOrder κ lt]

theorem lookup_apply_other (m : OrderedMap κ ν lt) {call : MapCall κ ν} {k k' : κ}
    (hk : call.key? = some k) (h : ¬ SameKey lt k k') :
    (call.apply m).lookup k' = m.lookup k' := by
  cases call with
  | insert a v =>
    cases hk
    exact (m.lookup_insert k v k').trans (if_neg h)
  | assign a v =>
    cases hk
    exact (m.lookup_assign k v k').trans (if_neg h)
  | clear => cases hk

theorem isSome_lookup_apply_same (m : OrderedMap κ ν lt) {call : MapCall κ ν} {k k' : κ}
    (hk : call.key? = some k) (h : SameKey lt k k') :
    ((call.apply m).lookup k').isSome = true := by
  cases call with
  | insert a v =>
    cases hk
    rw [MapCall.apply, m.lookup_insert, if_pos h]
    rfl
  | assign a v =>
    cases hk
    rw [MapCall.apply, m.lookup_assign, if_pos h]
    rfl
  | clear => cases hk

theorem isSome_lookup_apply {m : OrderedMap κ ν lt} {keys : List κ}
    (hm : ∀ k, (m.lookup k).isSome = true ↔ ∃ a ∈ keys, SameKey lt a k) (call : MapCall κ ν) (k : κ) :
    ((call.apply m).lookup k).isSome = true ↔ ∃ a ∈ writtenStep keys call, SameKey lt a k := by
  cases hc : call.key? with
  | none =>
    cases call with
    | insert a v => cases hc
    | assign a v => cases hc
    | clear => simp [MapCall.apply, writtenStep, key?]
  | some a =>
    by_cases ha : SameKey lt a k
    · simp only [isSome_lookup_apply_same m hc ha, writtenStep, hc, true_iff]
      exact ⟨a, List.mem_append_right _ List.mem_cons_self, ha⟩
    · rw [lookup_apply_other m hc ha, hm k]
      simp only [writtenStep, hc, List.mem_append, List.mem_singleton]
      constructor
      · rintro ⟨b, hb, hs⟩
        exact ⟨b, Or.inl hb, hs⟩
      · rintro ⟨b, hb | rfl, hs⟩
        · exact ⟨b, hb, hs⟩
        · exact absurd hs ha

theorem isSome_lookup_run (calls : List (MapCall κ ν)) (k : κ) :
    ((run calls : OrderedMap κ ν lt).lookup k).isSome = true ↔
      ∃ a ∈ written calls, SameKey lt a k := by
  induction calls using List.reverseRecOn generalizing k with
  | nil => simp [run, written]
  | append_singleton calls call ih =>
    rw [run, List.foldl_append, written, List.foldl_append]
    exact isSome_lookup_apply ih call k

end Lookup
end Curlinho.Foundation
