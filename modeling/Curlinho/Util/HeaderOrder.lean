import Curlinho.Foundation.MapRun
import Curlinho.Util.Headers

/-! # The order of header names under any locale

`CaseInsensitiveCompare` for an arbitrary table of `std::tolower`. It orders the
folded names lexicographically, so whatever the table, a map under it keeps one
entry for each folded name and no more.
-/
namespace Curlinho
open Foundation

/-- The comparator of header maps in a locale whose lower case is `tolower`. -/
def FoldedLt (tolower : UInt8 → UInt8) (a b : Bytes) : Prop :=
  caseInsensitiveCompare tolower a b = true

instance (tolower : UInt8 → UInt8) : DecidableRel (FoldedLt tolower) := fun a b =>
  inferInstanceAs (Decidable (caseInsensitiveCompare tolower a b = true))

instance (tolower : UInt8 → UInt8) : IsStrictWeakOrder Bytes (FoldedLt tolower) :=
  isStrictWeakOrder_lexicographicalCompare (fun c => (tolower c).toNat)

/-- The same length, and byte by byte the same after `tolower`. -/
def AgreeFolded (tolower : UInt8 → UInt8) (a b : Bytes) : Prop :=
  a.length = b.length ∧
    ∀ (i : ℕ) (ha : i < a.length) (hb : i < b.length), tolower a[i] = tolower b[i]

theorem agreeFolded_iff (tolower : UInt8 → UInt8) (a b : Bytes) :
    AgreeFolded tolower a b ↔ a.map tolower = b.map tolower := by
  constructor
  · rintro ⟨hlen, hbytes⟩
    apply List.ext_getElem
    · simpa using hlen
    · intro i ha hb
      simp only [List.getElem_map]
      exact hbytes i (by simpa using ha) (by simpa using hb)
  · intro h
    refine ⟨by simpa using congrArg List.length h, ?_⟩
    intro i ha hb
    have hi : (a.map tolower)[i]? = (b.map tolower)[i]? := by rw [h]
    rw [List.getElem?_map, List.getElem?_map, List.getElem?_eq_getElem ha,
      List.getElem?_eq_getElem hb] at hi
    exact Option.some.inj hi

theorem sameKey_foldedLt (tolower : UInt8 → UInt8) (a b : Bytes) :
    SameKey (FoldedLt tolower) a b ↔ AgreeFolded tolower a b :=
  (sameKey_caseInsensitiveCompare tolower a b).trans (agreeFolded_iff tolower a b).symm

abbrev FoldedHeaders (tolower : UInt8 → UInt8) := OrderedMap Bytes Bytes (FoldedLt tolower)

theorem foldedHeaders_pairwise {tolower : UInt8 → UInt8} (m : FoldedHeaders tolower) :
    m.entries.Pairwise (fun e f => ¬ AgreeFolded tolower e.1 f.1) := by
  apply m.pairwise_not_sameKey.imp
  intro e f h
  rwa [sameKey_foldedLt] at h

theorem foldedHeaders_run {tolower : UInt8 → UInt8} (calls : List (MapCall Bytes Bytes))
    (name : Bytes) :
    (∃ e ∈ (MapCall.run calls : FoldedHeaders tolower).entries, AgreeFolded tolower e.1 name) ↔
      ∃ a ∈ MapCall.written calls, AgreeFolded tolower a name := by
  have h : ((MapCall.run calls : FoldedHeaders tolower).lookup name).isSome = true ↔
      ∃ a ∈ MapCall.written calls, SameKey (FoldedLt tolower) a name :=
    isSome_lookup_run calls name
  rw [OrderedMap.isSome_lookup] at h
  simpa only [sameKey_foldedLt] using h

def Incomparable (tolower : UInt8 → UInt8) (a b : Bytes) : Prop :=
  caseInsensitiveCompare tolower a b = false ∧ caseInsensitiveCompare tolower b a = false

theorem incomparable_iff (tolower : UInt8 → UInt8) (a b : Bytes) :
    Incomparable tolower a b ↔ AgreeFolded tolower a b := by
  rw [← sameKey_foldedLt]
  simp [Incomparable, SameKey, FoldedLt]

/-- `CaseInsensitiveCompare` is a strict weak order whose classes are the names that
agree up to case, and a header map separates exactly these classes. -/
theorem caseInsensitiveCompare_strictWeakOrder (tolower : UInt8 → UInt8) :
    (∀ a, caseInsensitiveCompare tolower a a = false) ∧
    (∀ a b c, caseInsensitiveCompare tolower a b = true →
      caseInsensitiveCompare tolower b c = true → caseInsensitiveCompare tolower a c = true) ∧
    (∀ a b c, Incomparable tolower a b → Incomparable tolower b c → Incomparable tolower a c) ∧
    (∀ a b, Incomparable tolower a b ↔ AgreeFolded tolower a b) ∧
    (∀ (calls : List (MapCall Bytes Bytes)) (m : FoldedHeaders tolower), m = MapCall.run calls →
      m.entries.Pairwise (fun e f => ¬ AgreeFolded tolower e.1 f.1) ∧
      (∀ name, (∃ e ∈ m.entries, AgreeFolded tolower e.1 name) ↔
        ∃ a ∈ MapCall.written calls, AgreeFolded tolower a name) ∧
      ∀ (call : MapCall Bytes Bytes) (k name : Bytes), call.key? = some k →
        ¬ AgreeFolded tolower k name → (call.apply m).lookup name = m.lookup name) := by
  refine ⟨?_, ?_, ?_, incomparable_iff tolower, ?_⟩
  · intro a
    exact Bool.eq_false_iff.mpr (Std.Irrefl.irrefl (r := FoldedLt tolower) a)
  · intro a b c hab hbc
    exact IsTrans.trans (r := FoldedLt tolower) a b c hab hbc
  · intro a b c
    simp only [incomparable_iff, agreeFolded_iff]
    exact Eq.trans
  · rintro calls m rfl
    refine ⟨foldedHeaders_pairwise _, foldedHeaders_run calls, ?_⟩
    intro call k name hk hname
    rw [← sameKey_foldedLt] at hname
    exact lookup_apply_other _ hk hname

end Curlinho
