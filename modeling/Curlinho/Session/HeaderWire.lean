import Curlinho.Session.HeaderList

/-! # Header lines on the wire

The items that a session hands to libcurl are sent as header lines, by a rule of which
only what is documented is assumed. Read back by `parseHeaders`, the lines of well-formed
headers give the session's own map.
-/
namespace Curlinho
open Foundation
namespace Session

/-- The token characters of RFC 7230. -/
def isTchar (c : UInt8) : Bool :=
  isalnum c.toNat || [33, 35, 36, 37, 38, 39, 42, 43, 45, 46, 94, 95, 96, 124, 126].contains c

def IsToken (name : Bytes) : Prop := name ≠ [] ∧ ∀ c ∈ name, isTchar c = true

instance : DecidablePred IsToken := fun name =>
  @instDecidableAnd _ _ inferInstance (List.decidableBAll _ name)

def isControl (c : UInt8) : Bool := decide (c < 32 ∨ c = 127)

/-- No control character but HTAB, and no white space at either end. -/
def IsFieldValue (value : Bytes) : Prop :=
  (∀ c ∈ value, isControl c = true → c = HTAB) ∧
    (∀ c ∈ value.head?, c ≠ SP ∧ c ≠ HTAB) ∧ (∀ c ∈ value.getLast?, c ≠ SP ∧ c ≠ HTAB)

instance : DecidablePred IsFieldValue := fun value =>
  @instDecidableAnd _ _ (List.decidableBAll _ value)
    (@instDecidableAnd _ _ (Option.decidableForallMem _) (Option.decidableForallMem _))

theorem IsToken.notMem {name : Bytes} (h : IsToken name) {c : UInt8} (hc : isTchar c = false) :
    c ∉ name := by
  intro hm
  rw [h.2 c hm] at hc
  cases hc

theorem IsFieldValue.notMem {value : Bytes} (h : IsFieldValue value) {c : UInt8}
    (hc : isControl c = true) (hne : c ≠ HTAB) : c ∉ value :=
  fun hm => hne (h.1 c hm hc)

theorem IsToken.not_httpSlash {name : Bytes} (h : IsToken name) : ¬ httpSlash <+: name := by
  intro hp
  exact h.notMem (c := ch '/') (by decide) (hp.subset (by decide))

/-- White space as `isspace` has it in the C locale. -/
def isSpace (c : UInt8) : Bool := decide (c = SP ∨ HTAB ≤ c ∧ c ≤ CR)

/-- What libcurl documents of the header line that it sends for an item of
`CURLOPT_HTTPHEADER`: `name: value` is sent as it is if the value is not blank, and `name;`
is sent as `name:`. -/
structure SendsHeaders (wire : Bytes → Bytes) : Prop where
  field : ∀ {name value : Bytes}, name ≠ [] → ch ':' ∉ name →
    (∃ c ∈ value, isSpace c = false) →
      wire (name ++ ch ':' :: value) = name ++ ch ':' :: value ++ [CR, LF]
  bare : ∀ {name : Bytes}, name ≠ [] → ch ':' ∉ name → ch ';' ∉ name →
    wire (name ++ [ch ';']) = name ++ [ch ':', CR, LF]

/-- The line of an item, if there is one. -/
def itemLine (item : Bytes) : Bytes :=
  match cutFirst (ch ':') item with
  | (_, some _) => item ++ [CR, LF]
  | (_, none) =>
    match cutFirst (ch ';') item with
    | (name, some []) => name ++ [ch ':', CR, LF]
    | _ => []

/-- An item is sent as its line or left out. Which items are left out is not said. -/
def SendsLines (wire : Bytes → Bytes) : Prop := ∀ item, wire item = [] ∨ wire item = itemLine item

def wireText (wire : Bytes → Bytes) (items : List Bytes) : Bytes := items.flatMap wire

/-- A way of sending items that leaves out those with a blank value and those with a value
but no name. -/
def wireLine (item : Bytes) : Bytes :=
  match cutFirst (ch ':') item with
  | (name, some value) => if name = [] ∨ value.all isSpace = true then [] else item ++ [CR, LF]
  | (_, none) => itemLine item

theorem itemLine_of_mem {item : Bytes} (h : ch ':' ∈ item) : itemLine item = item ++ [CR, LF] := by
  obtain ⟨name, value, rfl, hname⟩ := List.eq_append_cons_of_mem h
  rw [itemLine, cutFirst_append hname]

theorem itemLine_bare {name : Bytes} (hcolon : ch ':' ∉ name) (hsemi : ch ';' ∉ name) :
    itemLine (name ++ [ch ';']) = name ++ [ch ':', CR, LF] := by
  have hcut : ch ':' ∉ name ++ [ch ';'] := by simp [hcolon, colon_ne_semicolon]
  rw [itemLine, cutFirst_of_notMem hcut, cutFirst_append hsemi]

theorem itemLine_shape (item : Bytes) :
    itemLine item = [] ∨ itemLine item = item ++ [CR, LF] ∨
      ∃ name, item = name ++ [ch ';'] ∧ itemLine item = name ++ [ch ':', CR, LF] := by
  by_cases hcolon : ch ':' ∈ item
  · exact .inr (.inl (itemLine_of_mem hcolon))
  · rcases cutFirst_cases (ch ';') item with ⟨-, hcut⟩ | ⟨name, rest, hsemi, rfl, hcut⟩
    · exact .inl (by rw [itemLine, cutFirst_of_notMem hcolon, hcut])
    · cases rest with
      | nil =>
        have hname : ch ':' ∉ name := fun hm => hcolon (List.mem_append_left _ hm)
        exact .inr (.inr ⟨name, rfl, itemLine_bare hname hsemi⟩)
      | cons c rest => exact .inl (by rw [itemLine, cutFirst_of_notMem hcolon, hcut])

theorem sendsLines_wireLine : SendsLines wireLine := by
  intro item
  rcases cutFirst_cases (ch ':') item with ⟨-, hcut⟩ | ⟨name, value, -, hitem, hcut⟩
  · exact .inr (by rw [wireLine, hcut])
  · have hmem : ch ':' ∈ item := hitem ▸ List.mem_append_right _ List.mem_cons_self
    rw [itemLine_of_mem hmem, wireLine, hcut]
    by_cases hdrop : name = [] ∨ value.all isSpace = true
    · exact .inl (if_pos hdrop)
    · exact .inr (if_neg hdrop)

theorem sendsHeaders_wireLine : SendsHeaders wireLine where
  field := by
    rintro name value hname hcolon ⟨c, hc, hspace⟩
    have hblank : ¬ value.all isSpace = true := by
      intro hall
      rw [List.all_eq_true.mp hall c hc] at hspace
      cases hspace
    rw [wireLine, cutFirst_append hcolon]
    exact if_neg (fun h => h.elim hname hblank)
  bare := by
    intro name _ hcolon hsemi
    have hcut : ch ':' ∉ name ++ [ch ';'] := by simp [hcolon, colon_ne_semicolon]
    rw [wireLine, cutFirst_of_notMem hcut, itemLine_bare hcolon hsemi]

def entryLine (e : Bytes × Bytes) (hname : IsToken e.1) (hvalue : IsFieldValue e.2) : FieldLine where
  name := e.1
  before := if e.2 = [] then [] else [SP]
  value := e.2
  after := []
  crlf := true
  name_ne_nil := hname.1
  colon_notMem_name := hname.notMem (by decide)
  lf_notMem_name := hname.notMem (by decide)
  name_not_http := hname.not_httpSlash
  before_blank := by
    intro b hb
    split at hb
    · cases hb
    · exact Or.inl (List.mem_singleton.mp hb)
  after_blank := by simp
  lf_notMem_value := hvalue.notMem (by decide) (by decide)
  value_head := hvalue.2.1
  value_last := by
    intro b hb
    obtain ⟨hsp, htab⟩ := hvalue.2.2 b hb
    refine ⟨hsp, htab, ?_⟩
    rintro rfl
    exact hvalue.notMem (by decide) (by decide) (List.mem_of_mem_getLast? hb)

theorem itemText_eq {e : Bytes × Bytes} (hname : IsToken e.1) (hvalue : IsFieldValue e.2) :
    itemText e = headerString e := by
  have hn : (0 : UInt8) ∉ e.1 := hname.notMem (by decide)
  have hv : (0 : UInt8) ∉ e.2 := hvalue.notMem (by decide) (by decide)
  apply cstr_of_notMem
  unfold headerString
  split <;> simp [hn, hv, ch, str]

variable {wire : Bytes → Bytes}

theorem SendsHeaders.wire_itemText (hwire : SendsHeaders wire) {e : Bytes × Bytes}
    (hname : IsToken e.1) (hvalue : IsFieldValue e.2) :
    wire (itemText e) = (entryLine e hname hvalue).text := by
  have hcolon : ch ':' ∉ e.1 := hname.notMem (by decide)
  rw [itemText_eq hname hvalue]
  unfold headerString
  split
  · next hempty =>
    rw [hwire.bare hname.1 hcolon (hname.notMem (by decide))]
    simp [FieldLine.text, entryLine, hempty, eol]
  · next hvalue' =>
    obtain ⟨c, rest, hc⟩ := List.exists_cons_of_ne_nil hvalue'
    have hmem : c ∈ e.2 := hc ▸ List.mem_cons_self
    have hfirst := hvalue.2.1 c (by rw [hc]; rfl)
    -- the first byte of a value is not blank, and no other space is allowed in a value
    have hspace : isSpace c = false := by
      have hcr : CR < 32 := by decide
      refine decide_eq_false (fun h => h.elim hfirst.1 fun hctl => hfirst.2 (hvalue.1 c hmem ?_))
      exact decide_eq_true (.inl (UInt8.lt_of_le_of_lt hctl.2 hcr))
    have hsent := hwire.field hname.1 hcolon ⟨c, List.mem_cons_of_mem SP hmem, hspace⟩
    refine hsent.trans ?_
    simp [FieldLine.text, entryLine, hvalue', eol]

theorem exists_fieldLines (hwire : SendsHeaders wire) {es : List (Bytes × Bytes)}
    (h : ∀ e ∈ es, IsToken e.1 ∧ IsFieldValue e.2) :
    ∃ fields : List FieldLine, fields.map (fun f => (f.name, f.value)) = es ∧
      wireText wire (es.map itemText) = fields.flatMap FieldLine.text := by
  induction es with
  | nil => exact ⟨[], rfl, rfl⟩
  | cons e es ih =>
    obtain ⟨hname, hvalue⟩ := h e List.mem_cons_self
    obtain ⟨fields, hfields, htext⟩ := ih (fun e he => h e (List.mem_cons_of_mem _ he))
    refine ⟨entryLine e hname hvalue :: fields, ?_, ?_⟩
    · rw [List.map_cons, hfields]
      rfl
    · rw [wireText, List.map_cons, List.flatMap_cons, hwire.wire_itemText hname hvalue,
        List.flatMap_cons, ← htext]
      rfl

theorem parseHeaders_wireText (hwire : SendsHeaders wire) (m : Headers)
    (h : ∀ e ∈ m.entries, IsToken e.1 ∧ IsFieldValue e.2) :
    parseHeaders (wireText wire (m.entries.map itemText)) = m := by
  obtain ⟨fields, hfields, htext⟩ := exists_fieldLines hwire h
  rw [htext, parseHeaders_fieldLines, hfields]
  exact OrderedMap.assignAll_entries m

/-- The writer and the reader of headers agree after every run: the lines sent for the
items of the session's list are read back as the session's map, spelling included. -/
theorem parseHeaders_wireText_run (hwire : SendsHeaders wire) (platform : Platform) (url : Url)
    (addr : Addr) (body : Body) (ops : List Operation)
    (hwell : ∀ H ∈ ops.filterMap Operation.headers?, ∀ e ∈ H.entries,
      IsToken e.1 ∧ IsFieldValue e.2) :
    let s := (newWith platform true url addr body).run platform ops
    ∃ items, s.slists.items s.curl_.chunk = some items ∧
      parseHeaders (wireText wire items) = s.headers_ := by
  intro s
  have hinv : HeadersSet s (ops.filterMap Operation.headers?) := by
    simpa using (headersSet_newWith platform url addr body).run platform ops
  refine ⟨s.headers_.entries.map itemText, hinv.rendered.items, parseHeaders_wireText hwire _ ?_⟩
  intro e he
  obtain ⟨H, hH, he⟩ := hinv.mem e he
  exact hwell H hH e he

theorem parseHeaders_wireText_run_two :
    ∃ items, ((newWith ⟨false, false, [], true⟩ true [] 0 []).run ⟨false, false, [], true⟩
      [.option 1 ⟨.lvalue, .headers ((OrderedMap.empty.insert (str ['A']) (str [':', ';'])).insert
        (str ['b']) [])⟩]).slists.items ((newWith ⟨false, false, [], true⟩ true [] 0 []).run
          ⟨false, false, [], true⟩ [.option 1 ⟨.lvalue, .headers ((OrderedMap.empty.insert
            (str ['A']) (str [':', ';'])).insert (str ['b']) [])⟩]).curl_.chunk = some items ∧
      parseHeaders (wireText wireLine items) =
        (OrderedMap.empty.insert (str ['A']) (str [':', ';'])).insert (str ['b']) [] := by
  obtain ⟨items, hitems, hparse⟩ := parseHeaders_wireText_run sendsHeaders_wireLine
    ⟨false, false, [], true⟩ [] 0 []
    [.option 1 ⟨.lvalue, .headers ((OrderedMap.empty.insert (str ['A']) (str [':', ';'])).insert
      (str ['b']) [])⟩] (by decide)
  exact ⟨items, hitems, hparse.trans rfl⟩

end Session
end Curlinho
