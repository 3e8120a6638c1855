import Curlinho.Foundation.LexicographicalCompare
import Curlinho.Util.Bytes

/-! # Header names and header maps

Names are compared byte by byte after `tolower`. A header map is a `std::map`
under this comparator, so it never holds two spellings of one name.
-/
namespace Curlinho
open Foundation

/-- `CaseInsensitiveCompare::operator()`, for the table that `std::tolower` applies. -/
def caseInsensitiveCompare (tolower : UInt8 → UInt8) (a b : Bytes) : Bool :=
  lexicographicalCompare (fun ac bc => decide ((tolower ac).toNat < (tolower bc).toNat)) a b

theorem sameKey_caseInsensitiveCompare (tolower : UInt8 → UInt8) (a b : Bytes) :
    SameKey (fun a b => caseInsensitiveCompare tolower a b = true) a b ↔
      a.map tolower = b.map tolower := by
  have hkey := sameKey_lexicographicalCompare (fun c : UInt8 => (tolower c).toNat) a b
  have hmap : ∀ s : Bytes, s.map (fun c => (tolower c).toNat) =
      (s.map tolower).map UInt8.toNat := by
    intro s
    rw [List.map_map]
    rfl
  have hinj : Function.Injective (List.map UInt8.toNat) :=
    List.map_injective_iff.mpr (fun _ _ h => UInt8.toNat_inj.mp h)
  rw [hmap, hmap, hinj.eq_iff] at hkey
  exact hkey

def HeaderLt (a b : Bytes) : Prop := caseInsensitiveCompare asciiToLower a b = true

instance : DecidableRel HeaderLt := fun a b =>
  inferInstanceAs (Decidable (caseInsensitiveCompare asciiToLower a b = true))

instance : IsStrictWeakOrder Bytes HeaderLt :=
  isStrictWeakOrder_lexicographicalCompare (fun c => (asciiToLower c).toNat)

def EqFold (a b : Bytes) : Prop := a.map asciiToLower = b.map asciiToLower

instance : DecidableRel EqFold := fun a b =>
  inferInstanceAs (Decidable (a.map asciiToLower = b.map asciiToLower))

theorem EqFold.refl (a : Bytes) : EqFold a a := rfl

theorem sameKey_headerLt {a b : Bytes} : SameKey HeaderLt a b ↔ EqFold a b :=
  sameKey_caseInsensitiveCompare asciiToLower a b

abbrev Headers := OrderedMap Bytes Bytes HeaderLt

theorem findValue_headerLt (name : Bytes) (es : List (Bytes × Bytes)) :
    findValue HeaderLt name es =
      (es.find? (fun e => decide (EqFold e.1 name))).map Prod.snd := by
  have hp : (fun e : Bytes × Bytes => decide (SameKey HeaderLt e.1 name)) =
      fun e => decide (EqFold e.1 name) :=
    funext (fun e => decide_eq_decide.mpr sameKey_headerLt)
  rw [findValue, hp]

end Curlinho
