import Curlinho.Foundation.OrderedMap
import Mathlib.Data.List.Lex
import Mathlib.Order.Lattice

/-! # Lexicographical comparison through a key

Sequences are compared element by element through a key that need not be
injective. The comparison is the lexicographic order of the key sequences, so it
is a strict weak order whose classes are the sequences with equal keys.
-/
namespace Curlinho.Foundation
variable {α β : Type*}

/-- The comparison loop: the first pair that `less` separates decides, and a
proper prefix comes first. -/
def lexicographicalCompare (less : α → α → Bool) : List α → List α → Bool
  | _, [] => false
  | [], _ :: _ => true
  | a :: as, b :: bs =>
    if less a b then true
    else if less b a then false
    else lexicographicalCompare less as bs

variable [LinearOrder β] (key : α → β)

def keyLess (a b : α) : Bool := decide (key a < key b)

theorem lexicographicalCompare_iff (as bs : List α) :
    lexicographicalCompare (keyLess key) as bs = true ↔ as.map key < bs.map key := by
  induction as generalizing bs with
  | nil => cases bs <;> simp [lexicographicalCompare]
  | cons a as ih =>
    cases bs with
    | nil => simp [lexicographicalCompare]
    | cons b bs =>
      simp only [lexicographicalCompare, keyLess, decide_eq_true_eq, List.map_cons,
        List.cons_lt_cons_iff]
      rcases lt_trichotomy (key a) (key b) with h | h | h
      · simp [h]
      · simpa [h] using ih bs
      · simp [h, h.not_gt, h.ne']

theorem isStrictWeakOrder_lexicographicalCompare :
    IsStrictWeakOrder (List α) (fun as bs => lexicographicalCompare (keyLess key) as bs = true) where
  irrefl as := by
    rw [lexicographicalCompare_iff]
    exact lt_irrefl _
  trans as bs cs := by
    simp only [lexicographicalCompare_iff]
    exact lt_trans
  incomp_trans as bs cs := by
    simp only [lexicographicalCompare_iff, not_lt]
    rintro ⟨hba, hab⟩ ⟨hcb, hbc⟩
    exact ⟨hcb.trans hba, hab.trans hbc⟩

theorem sameKey_lexicographicalCompare (as bs : List α) :
    SameKey (fun as bs => lexicographicalCompare (keyLess key) as bs = true) as bs ↔
      as.map key = bs.map key := by
  simp only [SameKey, lexicographicalCompare_iff, not_lt]
  exact ⟨fun h => le_antisymm h.2 h.1, fun h => ⟨h.ge, h.le⟩⟩

end Curlinho.Foundation
