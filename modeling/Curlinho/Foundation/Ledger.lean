import Mathlib.Data.List.Nodup
import Mathlib.Data.List.Count

/-! # Ledgers of resources

What has been acquired and what has been released, in order. A ledger owns what was
acquired once and not released yet; it is balanced when it owns nothing.
-/
namespace Curlinho.Foundation
variable {R S : Type*}

structure Ledger (R : Type*) where
  acquired : List R := []
  released : List R := []

namespace Ledger

def acquire (l : Ledger R) (r : R) : Ledger R := { l with acquired := l.acquired ++ [r] }

def release (l : Ledger R) (r : R) : Ledger R := { l with released := l.released ++ [r] }

def join (l m : Ledger R) : Ledger R := ⟨l.acquired ++ m.acquired, l.released ++ m.released⟩

def map (f : R → S) (l : Ledger R) : Ledger S := ⟨l.acquired.map f, l.released.map f⟩

/-- Nothing is acquired twice, and what is released is what was acquired, once each. -/
def Balanced [DecidableEq R] (l : Ledger R) : Prop :=
  ∀ r, l.acquired.count r ≤ 1 ∧ l.released.count r = l.acquired.count r

/-- Everything acquired is either released or owned, and never both. -/
structure Owns (l : Ledger R) (owned : List R) : Prop where
  nodup : l.acquired.Nodup
  perm : l.acquired.Perm (l.released ++ owned)

namespace Owns
variable {l m : Ledger R} {owned rest : List R} {r : R}

theorem empty : Owns ({} : Ledger R) [] := ⟨List.nodup_nil, List.Perm.nil⟩

theorem mem (h : l.Owns owned) (hr : r ∈ owned) : r ∈ l.acquired :=
  h.perm.mem_iff.mpr (List.mem_append_right _ hr)

theorem notMem_released (h : l.Owns owned) (hr : r ∈ owned) : r ∉ l.released := by
  intro hreleased
  have hnodup := h.perm.nodup_iff.mp h.nodup
  exact (List.disjoint_of_nodup_append hnodup) hreleased hr

theorem congr (h : l.Owns owned) (hp : owned.Perm rest) : l.Owns rest :=
  ⟨h.nodup, h.perm.trans (hp.append_left _)⟩

theorem acquire (h : l.Owns owned) (hr : r ∉ l.acquired) : (l.acquire r).Owns (owned ++ [r]) := by
  constructor
  · refine List.nodup_append.mpr ⟨h.nodup, List.nodup_singleton r, ?_⟩
    rintro a ha b hb rfl
    obtain rfl := List.mem_singleton.mp hb
    exact hr ha
  · have hp := h.perm.append_right [r]
    rwa [List.append_assoc] at hp

theorem release (h : l.Owns (owned ++ [r])) : (l.release r).Owns owned := by
  refine ⟨h.nodup, h.perm.trans ?_⟩
  have hp : (owned ++ [r]).Perm ([r] ++ owned) := List.perm_append_comm
  have hreleased := hp.append_left l.released
  rwa [← List.append_assoc l.released [r]] at hreleased

theorem join (hl : l.Owns owned) (hm : m.Owns rest) (hd : ∀ r ∈ l.acquired, r ∉ m.acquired) :
    (l.join m).Owns (owned ++ rest) := by
  constructor
  · refine List.nodup_append.mpr ⟨hl.nodup, hm.nodup, ?_⟩
    rintro a ha b hb rfl
    exact hd a ha hb
  · refine (hl.perm.append hm.perm).trans ?_
    have hp : (owned ++ (m.released ++ rest)).Perm (m.released ++ (owned ++ rest)) := by
      rw [← List.append_assoc, ← List.append_assoc]
      exact List.perm_append_comm.append_right rest
    simpa only [Ledger.join, List.append_assoc] using hp.append_left l.released

theorem map {f : R → S} (hf : Function.Injective f) (h : l.Owns owned) :
    (l.map f).Owns (owned.map f) := by
  refine ⟨h.nodup.map hf, ?_⟩
  have hp := h.perm.map f
  rwa [List.map_append] at hp

theorem balanced_iff [DecidableEq R] (h : l.Owns owned) : l.Balanced ↔ owned = [] := by
  have hcount : ∀ r, l.acquired.count r = l.released.count r + owned.count r := by
    intro r
    rw [h.perm.count_eq, List.count_append]
  constructor
  · intro hb
    apply List.eq_nil_iff_forall_not_mem.mpr
    intro r hr
    have hpos : 0 < owned.count r := List.count_pos_iff.mpr hr
    have heq := (hb r).2
    rw [hcount r] at heq
    omega
  · rintro rfl r
    refine ⟨List.nodup_iff_count_le_one.mp h.nodup r, ?_⟩
    rw [hcount r, List.count_nil, Nat.add_zero]

end Owns
end Ledger
end Curlinho.Foundation
