import Curlinho.Util.Bytes

/-! # Percent encoding

`urlEncode` writes to a string stream whose fill character and base are set once
and whose width is reset by every formatted output. The stream is kept as it is;
its effect on one byte is then a plain escape of at most three bytes.
-/
namespace Curlinho

/-- The part of `std::ostringstream` that formatting depends on. -/
structure OStringStream where
  buf : Bytes := []
  fill : UInt8 := SP
  hex : Bool := false
  width : ℕ := 0

namespace OStringStream

/-- A formatted output is padded on the left up to the width, which is then reset. -/
def put (s : OStringStream) (text : Bytes) : OStringStream :=
  { s with buf := s.buf ++ List.replicate (s.width - text.length) s.fill ++ text, width := 0 }

def putChar (s : OStringStream) (c : UInt8) : OStringStream := s.put [c]

def putInt (s : OStringStream) (n : ℕ) : OStringStream :=
  s.put (str (Nat.toDigits (if s.hex then 16 else 10) n))

def setw (s : OStringStream) (n : ℕ) : OStringStream := { s with width := n }

end OStringStream

def keptIntact (c : UInt8) : Bool :=
  isalnum (charToInt c) || c == ch '-' || c == ch '_' || c == ch '.' || c == ch '~'

def urlEncodeStep (escaped : OStringStream) (c : UInt8) : OStringStream :=
  if keptIntact c then escaped.putChar c
  else ((escaped.putChar (ch '%')).setw 2).putInt c.toNat

def urlEncode (value : Bytes) : Bytes :=
  (value.foldl urlEncodeStep { fill := ch '0', hex := true }).buf

def hexDigit (n : ℕ) : UInt8 := if n < 10 then UInt8.ofNat (48 + n) else UInt8.ofNat (87 + n)

def escape (c : UInt8) : Bytes :=
  if keptIntact c then [c] else [ch '%', hexDigit (c.toNat / 16), hexDigit (c.toNat % 16)]

/-- The zero padding makes every byte value exactly two digits long. -/
theorem pad_hex_digits : ∀ n < 256,
    List.replicate (2 - (str (Nat.toDigits 16 n)).length) (ch '0') ++ str (Nat.toDigits 16 n) =
      [hexDigit (n / 16), hexDigit (n % 16)] := by
  decide +kernel

theorem urlEncodeStep_eq (buf : Bytes) (c : UInt8) :
    urlEncodeStep { buf := buf, fill := ch '0', hex := true } c =
      { buf := buf ++ escape c, fill := ch '0', hex := true } := by
  unfold urlEncodeStep escape
  split
  · simp [OStringStream.putChar, OStringStream.put]
  · have hpad := pad_hex_digits c.toNat c.toNat_lt
    simp only [OStringStream.putChar, OStringStream.put, OStringStream.setw, OStringStream.putInt,
      if_true, List.length_singleton, Nat.zero_sub, List.replicate_zero, List.append_nil]
    rw [List.append_assoc, hpad]
    simp

theorem urlEncode_eq (value : Bytes) : urlEncode value = value.flatMap escape := by
  have hrun : ∀ buf : Bytes,
      value.foldl urlEncodeStep { buf := buf, fill := ch '0', hex := true } =
        { buf := buf ++ value.flatMap escape, fill := ch '0', hex := true } := by
    induction value with
    | nil => simp
    | cons c value ih =>
      intro buf
      rw [List.foldl_cons, urlEncodeStep_eq, ih, List.flatMap_cons, List.append_assoc]
  simp [urlEncode, hrun]

example : urlEncode [0x61, 0x20, 0xC3, 0x0A] =
    str ['a', '%', '2', '0', '%', 'c', '3', '%', '0', 'a'] := by decide

def hexValue (c : UInt8) : Option ℕ :=
  if 48 ≤ c ∧ c ≤ 57 then some (c.toNat - 48)
  else if 65 ≤ c ∧ c ≤ 70 then some (c.toNat - 55)
  else if 97 ≤ c ∧ c ≤ 102 then some (c.toNat - 87)
  else none

/-- Replace every `%XX` by the byte it names. -/
def percentDecode : Bytes → Bytes
  | c :: a :: b :: rest =>
    if c = ch '%' then
      match hexValue a, hexValue b with
      | some x, some y => UInt8.ofNat (16 * x + y) :: percentDecode rest
      | _, _ => c :: percentDecode (a :: b :: rest)
    else c :: percentDecode (a :: b :: rest)
  | c :: rest => c :: percentDecode rest
  | [] => []

theorem percentDecode_cons {c : UInt8} (hc : c ≠ ch '%') (rest : Bytes) :
    percentDecode (c :: rest) = c :: percentDecode rest := by
  match rest with
  | [] => rfl
  | [_] => rfl
  | a :: b :: rest => rw [percentDecode, if_neg hc]

theorem hexValue_hexDigit : ∀ n < 16, hexValue (hexDigit n) = some n := by decide

theorem keptIntact_percent : keptIntact (ch '%') = false := by decide

theorem percentDecode_escape (c : UInt8) (rest : Bytes) :
    percentDecode (escape c ++ rest) = c :: percentDecode rest := by
  unfold escape
  split
  · next hkept =>
    have hc : c ≠ ch '%' := by
      rintro rfl
      simp [keptIntact_percent] at hkept
    exact percentDecode_cons hc rest
  · have hlt := c.toNat_lt
    have hhi := hexValue_hexDigit (c.toNat / 16) (by omega)
    have hlo := hexValue_hexDigit (c.toNat % 16) (by omega)
    simp only [List.cons_append, List.nil_append, percentDecode, if_true, hhi, hlo, Nat.div_add_mod]
    rw [UInt8.ofNat_toNat]

@[simp] theorem percentDecode_urlEncode (value : Bytes) : percentDecode (urlEncode value) = value := by
  rw [urlEncode_eq]
  induction value with
  | nil => rfl
  | cons c value ih => rw [List.flatMap_cons, percentDecode_escape, ih]

def isHexDigit (c : UInt8) : Bool := (hexValue c).isSome

/-- Encoded text: characters kept intact and escapes of two hexadecimal digits,
with `extra` characters allowed between them. -/
inductive EncodedText (extra : Bytes) : Bytes → Prop
  | nil : EncodedText extra []
  | plain {c : UInt8} {rest : Bytes} (hc : keptIntact c = true ∨ c ∈ extra)
      (h : EncodedText extra rest) : EncodedText extra (c :: rest)
  | escaped {a b : UInt8} {rest : Bytes} (ha : isHexDigit a = true) (hb : isHexDigit b = true)
      (h : EncodedText extra rest) : EncodedText extra (ch '%' :: a :: b :: rest)

theorem EncodedText.append {extra s t : Bytes} (hs : EncodedText extra s)
    (ht : EncodedText extra t) : EncodedText extra (s ++ t) := by
  induction hs with
  | nil => exact ht
  | plain hc _ ih => exact EncodedText.plain hc ih
  | escaped ha hb _ ih => exact EncodedText.escaped ha hb ih

theorem isHexDigit_hexDigit {n : ℕ} (h : n < 16) : isHexDigit (hexDigit n) = true := by
  simp [isHexDigit, hexValue_hexDigit n h]

theorem encodedText_escape (extra : Bytes) (c : UInt8) : EncodedText extra (escape c) := by
  have hlt := c.toNat_lt
  unfold escape
  split
  · next hkept => exact EncodedText.plain (Or.inl hkept) EncodedText.nil
  · exact EncodedText.escaped (isHexDigit_hexDigit (by omega)) (isHexDigit_hexDigit (by omega))
      EncodedText.nil

theorem encodedText_urlEncode (extra value : Bytes) : EncodedText extra (urlEncode value) := by
  rw [urlEncode_eq]
  induction value with
  | nil => exact EncodedText.nil
  | cons c value ih =>
    rw [List.flatMap_cons]
    exact (encodedText_escape extra c).append ih

theorem EncodedText.notMem {extra s : Bytes} (hs : EncodedText extra s) {c : UInt8}
    (hkept : keptIntact c = false) (hhex : isHexDigit c = false) (hpercent : c ≠ ch '%')
    (hextra : c ∉ extra) : c ∉ s := by
  induction hs with
  | nil => exact List.not_mem_nil
  | plain hc _ ih =>
    intro h
    rcases List.mem_cons.mp h with rfl | h
    · rcases hc with hc | hc
      · simp [hkept] at hc
      · exact hextra hc
    · exact ih h
  | escaped ha hb _ ih =>
    intro h
    simp only [List.mem_cons] at h
    rcases h with h | rfl | rfl | h
    · exact hpercent h
    · simp [hhex] at ha
    · simp [hhex] at hb
    · exact ih h

end Curlinho
