import Curlinho.Foundation.CallLog
import Curlinho.Util.Headers
import Curlinho.Util.Parameters

/-! # Arguments of the character-class functions

`std::isalnum` and `std::tolower` take an `int` that must be `EOF` or the value of
an `unsigned char`. `urlEncode` passes a `char`, which is sign-extended;
`CaseInsensitiveCompare` converts to `unsigned char` first. The two functions are
run here with every argument recorded.
-/
namespace Curlinho
open Foundation

/-- What the character-class functions accept. -/
def InDomain (eof x : Int) : Prop := x = eof ∨ 0 ≤ x ∧ x ≤ 255

instance (eof x : Int) : Decidable (InDomain eof x) :=
  inferInstanceAs (Decidable (x = eof ∨ 0 ≤ x ∧ x ≤ 255))

def unsignedToInt (c : UInt8) : Int := c.toNat

theorem inDomain_unsignedToInt (eof : Int) (c : UInt8) : InDomain eof (unsignedToInt c) := by
  have hlt := c.toNat_lt
  refine Or.inr ⟨?_, ?_⟩ <;> simp only [unsignedToInt] <;> omega

theorem inDomain_charToInt (eof : Int) (c : UInt8) :
    InDomain eof (charToInt c) ↔ c.toNat < 128 ∨ charToInt c = eof := by
  have hlt := c.toNat_lt
  unfold InDomain charToInt
  split <;> omega

section Encode
variable (isalnum : Int → Bool)

def keptIntactCalls (c : UInt8) : StateM (List Int) Bool := do
  let alphanumeric ← called (charToInt c) (isalnum (charToInt c))
  pure (alphanumeric || c == ch '-' || c == ch '_' || c == ch '.' || c == ch '~')

def urlEncodeStepCalls (escaped : OStringStream) (c : UInt8) : StateM (List Int) OStringStream := do
  let kept ← keptIntactCalls isalnum c
  pure (if kept then escaped.putChar c
    else ((escaped.putChar (ch '%')).setw 2).putInt c.toNat)

def urlEncodeCalls (value : Bytes) : StateM (List Int) Bytes := do
  let escaped ← value.foldlM (urlEncodeStepCalls isalnum) { fill := ch '0', hex := true }
  pure escaped.buf

def Parameters.addParameterCalls (parameters : Parameters) (parameter : Parameter) :
    StateM (List Int) Parameters := do
  let content :=
    if parameters.content ≠ [] then parameters.content ++ [ch '&'] else parameters.content
  let escapedKey ← urlEncodeCalls isalnum parameter.key
  if parameter.value = [] then pure { content := content ++ escapedKey }
  else
    let escapedValue ← urlEncodeCalls isalnum parameter.value
    pure { content := content ++ (escapedKey ++ [ch '='] ++ escapedValue) }

def Parameters.ofListCalls (parameters : List Parameter) : StateM (List Int) Parameters :=
  parameters.foldlM (Parameters.addParameterCalls isalnum) {}

/-- The answer of `std::isalnum` decides what is written, not what it is asked next. -/
def urlEncodeStepWith (escaped : OStringStream) (c : UInt8) : OStringStream :=
  if isalnum (charToInt c) || c == ch '-' || c == ch '_' || c == ch '.' || c == ch '~' then
    escaped.putChar c
  else ((escaped.putChar (ch '%')).setw 2).putInt c.toNat

theorem records_urlEncodeStepCalls (escaped : OStringStream) (c : UInt8) :
    Records (urlEncodeStepCalls isalnum escaped c) (urlEncodeStepWith isalnum escaped c)
      [charToInt c] :=
  ((Records.called _ _).bind (Records.pure _)).bind (Records.pure _)

theorem records_urlEncodeCalls (value : Bytes) :
    Records (urlEncodeCalls isalnum value)
      (value.foldl (urlEncodeStepWith isalnum) { fill := ch '0', hex := true }).buf
      (value.map charToInt) := by
  have hmap : value.map charToInt = value.flatMap (fun c => [charToInt c]) ++ [] := by
    rw [List.append_nil, List.map_eq_flatMap]
  rw [hmap]
  exact (Records.foldlM (records_urlEncodeStepCalls isalnum) value _).bind (Records.pure _)

/-- One call for each byte of the key and of the value: an empty value is not encoded. -/
theorem records_addParameterCalls (parameters : Parameters) (p : Parameter) :
    ∃ parameters', Records (Parameters.addParameterCalls isalnum parameters p) parameters'
      ((p.key ++ p.value).map charToInt) := by
  have hkey := records_urlEncodeCalls isalnum p.key
  have hvalue := records_urlEncodeCalls isalnum p.value
  by_cases hv : p.value = []
  · simp only [Parameters.addParameterCalls, hv, if_true, List.append_nil]
    rw [← List.append_nil (p.key.map charToInt)]
    exact ⟨_, hkey.bind (Records.pure _)⟩
  · simp only [Parameters.addParameterCalls, hv, if_false, List.map_append]
    rw [← List.append_nil (p.value.map charToInt)]
    exact ⟨_, hkey.bind (hvalue.bind (Records.pure _))⟩

theorem records_ofListCalls (ps : List Parameter) :
    ∃ parameters, Records (Parameters.ofListCalls isalnum ps) parameters
      (ps.flatMap (fun p => (p.key ++ p.value).map charToInt)) := by
  choose f hf using records_addParameterCalls isalnum
  exact ⟨_, Records.foldlM hf ps {}⟩

end Encode

theorem urlEncodeCalls_value (value : Bytes) (log : List Int) :
    (urlEncodeCalls isalnum value).run log = (urlEncode value, log ++ value.map charToInt) :=
  records_urlEncodeCalls isalnum value log

section Compare
variable (tolower : UInt8 → UInt8)

def lessCalls (ac bc : UInt8) : StateM (List Int) Bool := do
  let la ← called (unsignedToInt ac) (tolower ac)
  let lb ← called (unsignedToInt bc) (tolower bc)
  pure (decide (la.toNat < lb.toNat))

def caseInsensitiveCompareCalls : Bytes → Bytes → StateM (List Int) Bool
  | _, [] => pure false
  | [], _ :: _ => pure true
  | a :: as, b :: bs => do
    if ← lessCalls tolower a b then pure true
    else if ← lessCalls tolower b a then pure false
    else caseInsensitiveCompareCalls as bs

theorem records_lessCalls (a b : UInt8) :
    Records (lessCalls tolower a b) (decide ((tolower a).toNat < (tolower b).toNat))
      [unsignedToInt a, unsignedToInt b] :=
  (Records.called _ _).bind ((Records.called _ _).bind (Records.pure _))

theorem records_caseInsensitiveCompareCalls (as bs : Bytes) :
    ∃ args, Records (caseInsensitiveCompareCalls tolower as bs)
      (caseInsensitiveCompare tolower as bs) args ∧ ∀ x ∈ args, ∃ c, x = unsignedToInt c := by
  induction as generalizing bs with
  | nil =>
    cases bs with
    | nil => exact ⟨[], Records.pure _, by simp⟩
    | cons b bs => exact ⟨[], Records.pure _, by simp⟩
  | cons a as ih =>
    cases bs with
    | nil => exact ⟨[], Records.pure _, by simp⟩
    | cons b bs =>
      obtain ⟨args, hargs, hall⟩ := ih bs
      have hab := records_lessCalls tolower a b
      have hba := records_lessCalls tolower b a
      simp only [caseInsensitiveCompareCalls, caseInsensitiveCompare, lexicographicalCompare]
      -- the pair decides in its first call, in its second, or leaves it to the rest
      by_cases h₁ : (tolower a).toNat < (tolower b).toNat
      · simp only [h₁, decide_true, if_true] at hab ⊢
        exact ⟨_, hab.bind (Records.pure true), by simp⟩
      · simp only [h₁, decide_false, Bool.false_eq_true, if_false] at hab ⊢
        by_cases h₂ : (tolower b).toNat < (tolower a).toNat
        · simp only [h₂, decide_true, if_true] at hba ⊢
          exact ⟨_, hab.bind (hba.bind (Records.pure false)), by simp⟩
        · simp only [h₂, decide_false, Bool.false_eq_true, if_false] at hba ⊢
          refine ⟨_, hab.bind (hba.bind hargs), ?_⟩
          intro x hx
          simp only [List.cons_append, List.nil_append, List.mem_cons] at hx
          rcases hx with rfl | rfl | rfl | rfl | hx
          · exact ⟨a, rfl⟩
          · exact ⟨b, rfl⟩
          · exact ⟨b, rfl⟩
          · exact ⟨a, rfl⟩
          · exact hall x hx

end Compare

/-- The calls stay in the domain exactly if no byte of a key or value is negative as a
`char`, that of `EOF` excepted. Comparisons never leave it. -/
theorem inDomain_calls_iff (isalnum : Int → Bool) (tolower : UInt8 → UInt8) (eof : Int)
    (parameters : List Parameter) (a b : Bytes) :
    ((∀ x ∈ arguments (Parameters.ofListCalls isalnum parameters), InDomain eof x) ∧
        ∀ x ∈ arguments (caseInsensitiveCompareCalls tolower a b), InDomain eof x) ↔
      ∀ p ∈ parameters, ∀ c ∈ p.key ++ p.value, c.toNat < 128 ∨ charToInt c = eof := by
  obtain ⟨content, hcontent⟩ := records_ofListCalls isalnum parameters
  obtain ⟨args, hargs, hall⟩ := records_caseInsensitiveCompareCalls tolower a b
  have hcompare : ∀ x ∈ args, InDomain eof x := by
    intro x hx
    obtain ⟨c, rfl⟩ := hall x hx
    exact inDomain_unsignedToInt eof c
  rw [hcontent.arguments_eq, hargs.arguments_eq]
  constructor
  · rintro ⟨h, -⟩ p hp c hc
    apply (inDomain_charToInt eof c).mp
    exact h _ (List.mem_flatMap.mpr ⟨p, hp, List.mem_map.mpr ⟨c, hc, rfl⟩⟩)
  · intro h
    refine ⟨?_, hcompare⟩
    intro x hx
    obtain ⟨p, hp, hx⟩ := List.mem_flatMap.mp hx
    obtain ⟨c, hc, rfl⟩ := List.mem_map.mp hx
    exact (inDomain_charToInt eof c).mpr (h p hp c hc)

/-- The first byte of a two-byte UTF-8 sequence is passed as a negative number. -/
theorem not_inDomain_utf8_key :
    ¬ ∀ x ∈ arguments (Parameters.ofListCalls isalnum [⟨[0xC3, 0xA9], []⟩]), InDomain (-1) x := by
  decide

end Curlinho
