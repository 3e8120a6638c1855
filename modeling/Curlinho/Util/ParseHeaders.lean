import Curlinho.Util.Headers
import Curlinho.Foundation.Delimited

/-! # The header reader

`parseHeaders` reads all header blocks of a transfer from one text. A status line
clears the map, so what is read of a sequence of blocks is its last block; lines
keep their carriage return and values are trimmed on both sides.
-/
namespace Curlinho
open Foundation

def httpSlash : Bytes := str ['H', 'T', 'T', 'P', '/']

def trimValue (value : Bytes) : Bytes :=
  let value := eraseFront value (findFirstNotOf [HTAB, SP] value)
  resizeThrough value (findLastNotOf [HTAB, LF, CR, SP] value)

/-- One round of the loop over the lines. The test for a status line and the field
branch are not exclusive. -/
def parseLine (header : Headers) (line : Bytes) : Headers :=
  let header := if line.take 5 = httpSlash then OrderedMap.empty else header
  if line.length > 0 then
    match line.idxOf? (ch ':') with
    | some found => header.assign (line.take found) (trimValue (line.drop (found + 1)))
    | none => header
  else header

def parseHeaders (headers : Bytes) : Headers :=
  (getlines LF headers).foldl parseLine OrderedMap.empty

theorem take_five_eq_iff {line : Bytes} : line.take 5 = httpSlash ↔ httpSlash <+: line :=
  ⟨fun h => h ▸ List.take_prefix 5 line, fun h => (List.prefix_iff_eq_take.mp h).symm⟩

theorem idxOf?_append_colon {name : Bytes} (h : ch ':' ∉ name) (rest : Bytes) :
    (name ++ ch ':' :: rest).idxOf? (ch ':') = some name.length := by
  induction name with
  | nil => simp [List.idxOf?_cons]
  | cons c name ih =>
    have hc : (c == ch ':') = false := by
      apply beq_eq_false_iff_ne.mpr
      rintro rfl
      exact h List.mem_cons_self
    rw [List.cons_append, List.idxOf?_cons, hc, ih (fun hm => h (List.mem_cons_of_mem _ hm))]
    rfl

theorem parseLine_of_notMem {line : Bytes} (h : ch ':' ∉ line) (header : Headers) :
    parseLine header line = if httpSlash <+: line then OrderedMap.empty else header := by
  have hidx : line.idxOf? (ch ':') = none := List.idxOf?_eq_none_iff.mpr h
  simp only [parseLine, hidx, take_five_eq_iff, ite_self]

/-- A status line with a colon shows before the colon already. -/
theorem httpSlash_prefix_append_colon (name rest : Bytes) :
    httpSlash <+: name ++ ch ':' :: rest ↔ httpSlash <+: name := by
  refine ⟨fun hp => ?_, fun hp => hp.trans (List.prefix_append _ _)⟩
  have hn : name ++ [ch ':'] <+: name ++ ch ':' :: rest := ⟨rest, by simp⟩
  have hcolon : ch ':' ∉ httpSlash := by decide
  rcases List.prefix_or_prefix_of_prefix hp hn with hle | hle
  · rcases List.prefix_concat_iff.mp hle with heq | hle
    · exact absurd (heq ▸ List.mem_append_right _ List.mem_cons_self) hcolon
    · exact hle
  · exact absurd (hle.subset (List.mem_append_right _ List.mem_cons_self)) hcolon

theorem parseLine_append_colon {name : Bytes} (h : ch ':' ∉ name) (rest : Bytes)
    (header : Headers) :
    parseLine header (name ++ ch ':' :: rest) =
      (if httpSlash <+: name then OrderedMap.empty else header).assign name (trimValue rest) := by
  have hprefix := httpSlash_prefix_append_colon name rest
  have hdrop : (name ++ ch ':' :: rest).drop (name.length + 1) = rest := by
    rw [← List.drop_drop, List.drop_left]
    rfl
  have hlen : (name ++ ch ':' :: rest).length > 0 := by
    rw [List.length_append, List.length_cons]
    omega
  simp [parseLine, idxOf?_append_colon h, take_five_eq_iff, hprefix, hdrop]

theorem trimValue_eq (value : Bytes) :
    trimValue value = (value.dropWhile (fun b => decide (b ∈ [HTAB, SP]))).rdropWhile
      (fun b => decide (b ∈ [HTAB, LF, CR, SP])) := by
  simp only [trimValue, eraseFront_findFirstNotOf, resizeThrough_findLastNotOf]

theorem rdropWhile_append_of_pos {p : UInt8 → Bool} (s : Bytes) {t : Bytes}
    (h : ∀ b ∈ t, p b = true) : (s ++ t).rdropWhile p = s.rdropWhile p := by
  simp only [List.rdropWhile, List.reverse_append]
  rw [List.dropWhile_append_of_pos (fun b hb => h b (List.mem_reverse.mp hb))]

theorem trimValue_padded {before value trail : Bytes} (hbefore : ∀ b ∈ before, b ∈ [HTAB, SP])
    (hhead : ∀ b ∈ value.head?, b ∉ [HTAB, SP])
    (hlast : ∀ b ∈ value.getLast?, b ∉ [HTAB, LF, CR, SP])
    (htrail : ∀ b ∈ trail, b ∈ [HTAB, LF, CR, SP]) :
    trimValue (before ++ (value ++ trail)) = value := by
  rw [trimValue_eq, List.dropWhile_append_of_pos (fun b hb => decide_eq_true (hbefore b hb))]
  cases value with
  | nil =>
    apply List.rdropWhile_eq_nil_iff.mpr
    intro b hb
    exact decide_eq_true (htrail b (List.dropWhile_subset _ hb))
  | cons c value =>
    have hc : (c :: (value ++ trail)).dropWhile (fun b => decide (b ∈ [HTAB, SP])) =
        c :: (value ++ trail) :=
      List.dropWhile_cons_of_neg (by simpa using hhead c rfl)
    rw [List.cons_append, hc, ← List.cons_append,
      rdropWhile_append_of_pos _ (fun b hb => decide_eq_true (htrail b hb))]
    apply List.rdropWhile_eq_self_iff.mpr
    intro hne
    simpa using hlast _ (List.getLast?_eq_getLast_of_ne_nil hne)

def eol (crlf : Bool) : Bytes := if crlf then [CR, LF] else [LF]

/-- A field line with optional white space around its value. -/
structure FieldLine where
  name : Bytes
  before : Bytes
  value : Bytes
  after : Bytes
  crlf : Bool
  name_ne_nil : name ≠ []
  colon_notMem_name : ch ':' ∉ name
  lf_notMem_name : LF ∉ name
  name_not_http : ¬ httpSlash <+: name
  before_blank : ∀ b ∈ before, b = SP ∨ b = HTAB
  after_blank : ∀ b ∈ after, b = SP ∨ b = HTAB
  lf_notMem_value : LF ∉ value
  value_head : ∀ b ∈ value.head?, b ≠ SP ∧ b ≠ HTAB
  value_last : ∀ b ∈ value.getLast?, b ≠ SP ∧ b ≠ HTAB ∧ b ≠ CR

def FieldLine.text (f : FieldLine) : Bytes :=
  f.name ++ ch ':' :: (f.before ++ f.value ++ f.after ++ eol f.crlf)

/-- A status line, field lines and the empty line. -/
structure HeaderBlock where
  status : Bytes
  statusCrlf : Bool
  fields : List FieldLine
  endCrlf : Bool
  status_http : httpSlash <+: status
  colon_notMem_status : ch ':' ∉ status
  lf_notMem_status : LF ∉ status

def HeaderBlock.text (b : HeaderBlock) : Bytes :=
  b.status ++ eol b.statusCrlf ++ b.fields.flatMap FieldLine.text ++ eol b.endCrlf

def eolRest (crlf : Bool) : Bytes := if crlf then [CR] else []

theorem eol_eq (crlf : Bool) : eol crlf = eolRest crlf ++ [LF] := by
  cases crlf <;> rfl

theorem mem_eolRest {crlf : Bool} {b : UInt8} (h : b ∈ eolRest crlf) : b = CR := by
  cases crlf
  · cases h
  · exact List.mem_singleton.mp h

def FieldLine.line (f : FieldLine) : Bytes :=
  f.name ++ ch ':' :: (f.before ++ (f.value ++ (f.after ++ eolRest f.crlf)))

theorem FieldLine.text_eq (f : FieldLine) : f.text = f.line ++ [LF] := by
  simp [FieldLine.text, FieldLine.line, eol_eq]

theorem flatMap_text (fields : List FieldLine) :
    fields.flatMap FieldLine.text = (fields.map FieldLine.line).flatMap (fun l => l ++ [LF]) := by
  rw [List.flatMap_map]
  exact congrArg (fun g => fields.flatMap g) (funext FieldLine.text_eq)

theorem FieldLine.lf_notMem_line (f : FieldLine) : LF ∉ f.line := by
  have hb : LF ∉ f.before := fun h => absurd (f.before_blank _ h) (by decide)
  have ha : LF ∉ f.after := fun h => absurd (f.after_blank _ h) (by decide)
  have he : LF ∉ eolRest f.crlf := fun h => absurd (mem_eolRest h) (by decide)
  simp only [FieldLine.line, List.mem_append, List.mem_cons, not_or]
  exact ⟨f.lf_notMem_name, lf_ne_colon, hb, f.lf_notMem_value, ha, he⟩

theorem FieldLine.parseLine_line (f : FieldLine) (header : Headers) :
    parseLine header f.line = header.assign f.name f.value := by
  rw [FieldLine.line, parseLine_append_colon f.colon_notMem_name, if_neg f.name_not_http]
  congr 1
  apply trimValue_padded
  · intro b hb
    rcases f.before_blank b hb with rfl | rfl <;> simp
  · intro b hb
    have h := f.value_head b hb
    simp [h.1, h.2]
  · intro b hb
    have h := f.value_last b hb
    have hlf : b ≠ LF := by
      rintro rfl
      exact f.lf_notMem_value (List.mem_of_mem_getLast? hb)
    simp [h.1, h.2.1, h.2.2, hlf]
  · intro b hb
    rcases List.mem_append.mp hb with hb | hb
    · rcases f.after_blank b hb with rfl | rfl <;> simp
    · simp [mem_eolRest hb]

def HeaderBlock.lines (b : HeaderBlock) : List Bytes :=
  (b.status ++ eolRest b.statusCrlf) :: b.fields.map FieldLine.line ++ [eolRest b.endCrlf]

theorem HeaderBlock.text_eq (b : HeaderBlock) :
    b.text = b.lines.flatMap (fun l => l ++ [LF]) := by
  simp [HeaderBlock.text, HeaderBlock.lines, eol_eq, flatMap_text]

theorem HeaderBlock.lf_notMem_lines (b : HeaderBlock) : ∀ l ∈ b.lines, LF ∉ l := by
  have he : ∀ crlf, LF ∉ eolRest crlf := fun _ h => absurd (mem_eolRest h) (by decide)
  intro l hl
  simp only [HeaderBlock.lines, List.cons_append, List.mem_cons, List.mem_append, List.mem_map,
    List.not_mem_nil, or_false] at hl
  rcases hl with rfl | ⟨f, _, rfl⟩ | rfl
  · exact fun h => (List.mem_append.mp h).elim b.lf_notMem_status (he _)
  · exact f.lf_notMem_line
  · exact he _

theorem foldl_parseLine_fields (fields : List FieldLine) (header : Headers) :
    (fields.map FieldLine.line).foldl parseLine header =
      header.assignAll (fields.map (fun f => (f.name, f.value))) := by
  induction fields generalizing header with
  | nil => rfl
  | cons f fields ih =>
    rw [List.map_cons, List.foldl_cons, f.parseLine_line, ih]
    rfl

theorem parseHeaders_fieldLines (fields : List FieldLine) :
    parseHeaders (fields.flatMap FieldLine.text) =
      OrderedMap.empty.assignAll (fields.map (fun f => (f.name, f.value))) := by
  have hlf : ∀ l ∈ fields.map FieldLine.line, LF ∉ l := by
    intro l hl
    obtain ⟨f, _, rfl⟩ := List.mem_map.mp hl
    exact f.lf_notMem_line
  rw [parseHeaders, flatMap_text, getlines_lines hlf, foldl_parseLine_fields]

/-- Whatever was read before it, a block leaves exactly its own fields. -/
theorem HeaderBlock.foldl_parseLine (b : HeaderBlock) (header : Headers) :
    b.lines.foldl parseLine header =
      OrderedMap.empty.assignAll (b.fields.map (fun f => (f.name, f.value))) := by
  have hstatus : ch ':' ∉ b.status ++ eolRest b.statusCrlf := fun h =>
    (List.mem_append.mp h).elim b.colon_notMem_status
      (fun h => absurd (mem_eolRest h) (by decide))
  have hend : ch ':' ∉ eolRest b.endCrlf := fun h => absurd (mem_eolRest h) (by decide)
  have hhttp : ¬ httpSlash <+: eolRest b.endCrlf := fun h =>
    absurd (mem_eolRest (h.subset (List.mem_cons_self (a := ch 'H')))) (by decide)
  rw [HeaderBlock.lines, List.cons_append, List.foldl_cons, parseLine_of_notMem hstatus,
    if_pos (b.status_http.trans (List.prefix_append _ _)), List.foldl_append,
    foldl_parseLine_fields, List.foldl_cons, List.foldl_nil, parseLine_of_notMem hend,
    if_neg hhttp]

theorem parseHeaders_flatMap (blocks : List HeaderBlock) :
    parseHeaders (blocks.flatMap HeaderBlock.text) =
      (blocks.flatMap HeaderBlock.lines).foldl parseLine OrderedMap.empty := by
  have htext : blocks.flatMap HeaderBlock.text =
      (blocks.flatMap HeaderBlock.lines).flatMap (fun l => l ++ [LF]) := by
    rw [List.flatMap_assoc]
    exact congrArg (fun g => blocks.flatMap g) (funext HeaderBlock.text_eq)
  have hlines : ∀ l ∈ blocks.flatMap HeaderBlock.lines, LF ∉ l := by
    intro l hl
    obtain ⟨b, _, hb⟩ := List.mem_flatMap.mp hl
    exact b.lf_notMem_lines l hb
  rw [parseHeaders, htext, getlines_lines hlines]

/-- Of a sequence of header blocks the reader keeps the last one: a name is bound
to the value of the last field line of that block that bears it in any letter case,
and no other name is bound. -/
theorem parseHeaders_blocks (blocks : List HeaderBlock) (last : HeaderBlock) (name : Bytes) :
    (parseHeaders ((blocks ++ [last]).flatMap HeaderBlock.text)).lookup name =
      (last.fields.reverse.find? (fun f => decide (EqFold f.name name))).map FieldLine.value := by
  rw [parseHeaders_flatMap, List.flatMap_append, List.foldl_append, List.flatMap_singleton,
    last.foldl_parseLine, OrderedMap.lookup_assignAll, OrderedMap.lookup_empty, Option.or_none,
    findValue_headerLt, ← List.map_reverse, List.find?_map, Option.map_map]
  rfl

def redirectBlock : HeaderBlock where
  status := httpSlash ++ str ['1']
  statusCrlf := true
  fields := [⟨str ['A'], [SP], str ['1'], [SP], true, by decide, by decide, by decide, by decide,
    by simp, by simp, by decide, by rintro b ⟨⟩; decide, by rintro b ⟨⟩; decide⟩]
  endCrlf := true
  status_http := by decide
  colon_notMem_status := by decide
  lf_notMem_status := by decide

/-- The block has one name twice, in two spellings. -/
def answerBlock : HeaderBlock where
  status := httpSlash ++ str ['2']
  statusCrlf := true
  fields := [⟨str ['b'], [SP], str ['2'], [HTAB], true, by decide, by decide, by decide,
      by decide, by simp, by simp, by decide, by rintro b ⟨⟩; decide, by rintro b ⟨⟩; decide⟩,
    ⟨str ['B'], [HTAB], str ['3', ':'], [SP, HTAB], false, by decide, by decide, by decide,
      by decide, by simp, by simp, by decide, by rintro b ⟨⟩; decide, by rintro b ⟨⟩; decide⟩]
  endCrlf := false
  status_http := by decide
  colon_notMem_status := by decide
  lf_notMem_status := by decide

theorem parseHeaders_blocks_two :
    let headers := parseHeaders ([redirectBlock, answerBlock].flatMap HeaderBlock.text)
    headers.lookup (str ['b']) = some (str ['3', ':']) ∧ headers.lookup (str ['A']) = none :=
  ⟨(parseHeaders_blocks [redirectBlock] answerBlock (str ['b'])).trans (by decide),
    (parseHeaders_blocks [redirectBlock] answerBlock (str ['A'])).trans (by decide)⟩

end Curlinho
