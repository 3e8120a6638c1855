import Mathlib.Data.List.DropRight

/-! # Byte strings and the character functions of the C library

A `std::string` is a list of bytes. The search and trimming functions are stated
as the source calls them, with `npos` as `none`, and related to the list
functions that the proofs use.
-/
namespace Curlinho

abbrev Bytes := List UInt8

def ch (c : Char) : UInt8 := UInt8.ofNat c.toNat

def str (cs : List Char) : Bytes := cs.map ch

abbrev LF : UInt8 := 10
abbrev CR : UInt8 := 13
abbrev HTAB : UInt8 := 9
abbrev SP : UInt8 := 32

theorem lf_ne_cr : LF ≠ CR := by decide

theorem lf_ne_colon : LF ≠ ch ':' := by decide

theorem colon_ne_semicolon : ch ':' ≠ ch ';' := by decide

/-- What a `char *` parameter conveys of a string: the bytes before the first NUL. -/
def cstr (s : Bytes) : Bytes := s.takeWhile (fun b => decide (b ≠ 0))

theorem cstr_of_notMem {s : Bytes} (h : (0 : UInt8) ∉ s) : cstr s = s := by
  apply List.takeWhile_eq_self_iff.mpr
  intro b hb
  simp only [decide_eq_true_eq]
  rintro rfl
  exact h hb

theorem cstr_append_of_mem {s : Bytes} (h : (0 : UInt8) ∈ s) (t : Bytes) :
    cstr (s ++ t) = cstr s := by
  induction s with
  | nil => cases h
  | cons b s ih =>
    by_cases hb : b = 0
    · simp [cstr, hb]
    · have hs : 0 ∈ s := (List.mem_cons.mp h).resolve_left (Ne.symm hb)
      have hcons : ∀ r : Bytes, cstr (b :: r) = b :: cstr r := fun r => by
        simp [cstr, hb]
      rw [List.cons_append, hcons, hcons, ih hs]

theorem cstr_append_of_notMem {s : Bytes} (h : (0 : UInt8) ∉ s) (t : Bytes) :
    cstr (s ++ t) = s ++ cstr t := by
  apply List.takeWhile_append_of_pos
  intro b hb
  simp only [decide_eq_true_eq]
  rintro rfl
  exact h hb

/-- On a platform with a signed `char`, the value a byte takes as an `int` argument. -/
def charToInt (c : UInt8) : Int := if c.toNat < 128 then c.toNat else (c.toNat : Int) - 256

/-- `std::isalnum` in the C locale. -/
def isalnum (c : Int) : Bool :=
  decide (48 ≤ c ∧ c ≤ 57 ∨ 65 ≤ c ∧ c ≤ 90 ∨ 97 ≤ c ∧ c ≤ 122)

/-- `std::tolower` in the C locale, as a table on bytes. -/
def asciiToLower (c : UInt8) : UInt8 := if 65 ≤ c ∧ c ≤ 90 then c + 32 else c

/-- `s.erase(0, pos)` removes everything when `pos` is `npos`. -/
def eraseFront (s : Bytes) : Option ℕ → Bytes
  | none => []
  | some pos => s.drop pos

/-- `s.resize(std::min(s.size(), pos + 1))`, where `npos + 1` wraps around to `0`. -/
def resizeThrough (s : Bytes) : Option ℕ → Bytes
  | none => s.take (min s.length 0)
  | some pos => s.take (min s.length (pos + 1))

def findFirstNotOf (set : Bytes) (s : Bytes) : Option ℕ := s.findIdx? (fun b => decide (b ∉ set))

def findLastNotOf (set : Bytes) (s : Bytes) : Option ℕ :=
  (s.reverse.findIdx? (fun b => decide (b ∉ set))).map (fun i => s.length - 1 - i)

theorem eraseFront_findFirstNotOf (set s : Bytes) :
    eraseFront s (findFirstNotOf set s) = s.dropWhile (fun b => decide (b ∈ set)) := by
  induction s with
  | nil => rfl
  | cons c s ih =>
    by_cases hc : c ∈ set
    · rw [List.dropWhile_cons_of_pos (by simpa using hc), ← ih]
      simp only [findFirstNotOf, List.findIdx?_cons, hc, not_true_eq_false, decide_false,
        Bool.false_eq_true, if_false]
      cases s.findIdx? (fun b => decide (b ∉ set)) <;> rfl
    · rw [List.dropWhile_cons_of_neg (by simpa using hc)]
      simp [findFirstNotOf, List.findIdx?_cons, hc, eraseFront]

theorem resizeThrough_findLastNotOf (set s : Bytes) :
    resizeThrough s (findLastNotOf set s) = s.rdropWhile (fun b => decide (b ∈ set)) := by
  induction s using List.reverseRecOn with
  | nil => rfl
  | append_singleton s c ih =>
    by_cases hc : c ∈ set
    · rw [List.rdropWhile_concat_pos _ _ _ (by simpa using hc), ← ih]
      simp only [findLastNotOf, List.reverse_append, List.reverse_singleton, List.singleton_append,
        List.findIdx?_cons, hc, not_true_eq_false, decide_false, Bool.false_eq_true, if_false]
      cases hi : s.reverse.findIdx? (fun b => decide (b ∉ set)) with
      | none => simp [resizeThrough]
      | some i =>
        have hlt : i < s.length := by
          simpa using (List.findIdx?_eq_some_iff_getElem.mp hi).1
        simp only [Option.map_some, resizeThrough, List.length_append, List.length_singleton]
        rw [List.take_append_of_le_length (by omega)]
        congr 1
        omega
    · rw [List.rdropWhile_concat_neg _ _ _ (by simpa using hc)]
      simp only [findLastNotOf, List.reverse_append, List.reverse_singleton, List.singleton_append,
        List.findIdx?_cons, hc, not_false_eq_true, decide_true, if_true, Option.map_some,
        resizeThrough, List.length_append, List.length_singleton]
      exact List.take_of_length_le (by simp)

end Curlinho
