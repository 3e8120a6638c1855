import Curlinho.Session.HeaderAlgebra
import Curlinho.Session.HeaderWire
import Curlinho.Util.HeaderRange

/-! # Headers as they are read at the other end

A reader of the header lines that libcurl sends for a session's list gets the session's map
back exactly if no append was lost, the item of each entry is sent and carries the entry
whole, and only the first name starts like a status line.
-/
namespace Curlinho
open Foundation

/-- An entry whose item is copied whole, sent, and read as the entry. -/
structure Carried (wire : Bytes → Bytes) (e : Bytes × Bytes) : Prop extends ReadableEntry e where
  nul_notMem_name : 0 ∉ e.1
  nul_notMem_value : 0 ∉ e.2
  sent : wire (Session.itemText e) ≠ []

/-- What a reader of the header lines makes of a request. -/
def Request.headersRead (wire : Bytes → Bytes) (q : Request) : Headers :=
  parseHeaders (Session.wireText wire (q.headers.join.getD []))

def SessionCall.appends? : SessionCall → Option (ℕ → Bool)
  | .setOption ok _ arg =>
    match arg.object with
    | .headers _ => some ok
    | _ => none
  | _ => none

namespace Session

variable {wire : Bytes → Bytes}

def isSent (wire : Bytes → Bytes) (e : Bytes × Bytes) : Bool := decide (wire (itemText e) ≠ [])

/-- The line of an entry, up to the line feed. -/
def sentLine (e : Bytes × Bytes) : Bytes :=
  e.1 ++ ch ':' :: (if e.2 = [] then [CR] else SP :: (e.2 ++ [CR]))

theorem notMem_of_mem_line {c : UInt8} {text line : Bytes} (hc : c ∉ text)
    (hline : line ∈ getlines LF text) : c ∉ line := by
  obtain ⟨init, rest, -, -, htext, hlines⟩ := exists_getlines_eq LF text
  rw [htext, List.mem_append, not_or] at hc
  rw [hlines, List.mem_append] at hline
  rcases hline with hline | hline
  · intro hm
    exact hc.1 (List.mem_flatMap.mpr ⟨line, hline, List.mem_append_left _ hm⟩)
  · split at hline
    · cases hline
    · exact List.mem_singleton.mp hline ▸ hc.2

theorem nul_notMem_cstr (s : Bytes) : 0 ∉ cstr s := by
  unfold cstr
  intro hm
  simpa using List.mem_takeWhile_imp hm

theorem nul_notMem_itemLine {item : Bytes} (h : 0 ∉ item) : 0 ∉ itemLine item := by
  have hends : (0 : UInt8) ∉ [CR, LF] := by decide
  have hcolon : (0 : UInt8) ∉ [ch ':', CR, LF] := by decide
  rcases itemLine_shape item with hnone | hsent | ⟨name, rfl, hsent⟩
  · rw [hnone]
    exact List.not_mem_nil
  · rw [hsent, List.mem_append, not_or]
    exact ⟨h, hends⟩
  · rw [hsent, List.mem_append, not_or]
    exact ⟨fun hm => h (List.mem_append_left _ hm), hcolon⟩

theorem nul_notMem_wireText (hwire : SendsLines wire) (es : List (Bytes × Bytes)) :
    0 ∉ wireText wire (es.map itemText) := by
  rw [wireText, List.mem_flatMap]
  rintro ⟨item, hitem, hm⟩
  obtain ⟨e, -, rfl⟩ := List.mem_map.mp hitem
  have hnul : 0 ∉ itemText e := nul_notMem_cstr (headerString e)
  rcases hwire (itemText e) with hnone | hsent
  · rw [hnone] at hm
    cases hm
  · exact nul_notMem_itemLine hnul (hsent ▸ hm)

variable {e : Bytes × Bytes}

theorem itemText_of_notMem (hname : 0 ∉ e.1) (hvalue : 0 ∉ e.2) : itemText e = headerString e := by
  have hsemi : (0 : UInt8) ∉ [ch ';'] := by decide
  have hcolon : (0 : UInt8) ∉ str [':', ' '] := by decide
  refine cstr_of_notMem ?_
  unfold headerString
  split <;> simp only [List.mem_append, not_or]
  · exact ⟨hname, hsemi⟩
  · exact ⟨hname, hcolon, hvalue⟩

theorem itemLine_itemText (he : ReadableEntry e) (hname : 0 ∉ e.1) (hvalue : 0 ∉ e.2) :
    itemLine (itemText e) = [] ∨ itemLine (itemText e) = sentLine e ++ [LF] := by
  rw [itemText_of_notMem hname hvalue]
  by_cases hempty : e.2 = []
  · have hstring : headerString e = e.1 ++ [ch ';'] := if_pos hempty
    have hcolon : ch ':' ∉ e.1 ++ [ch ';'] := by simp [he.colon_notMem_name, colon_ne_semicolon]
    rw [hstring]
    by_cases hsemi : ch ';' ∈ e.1
    · -- cut at the first semicolon, something is left after it
      obtain ⟨a, b, hab, ha⟩ := List.eq_append_cons_of_mem hsemi
      rw [itemLine, cutFirst_of_notMem hcolon, hab, List.append_assoc, List.cons_append,
        cutFirst_append ha]
      cases b <;> exact .inl rfl
    · rw [itemLine_bare he.colon_notMem_name hsemi]
      exact .inr (by simp [sentLine, hempty])
  · have hstring : headerString e = e.1 ++ ch ':' :: SP :: e.2 := if_neg hempty
    rw [hstring, itemLine_of_mem (List.mem_append_right _ List.mem_cons_self)]
    exact .inr (by simp [sentLine, hempty])

theorem wire_of_readable (hwire : SendsLines wire) (he : ReadableEntry e) (hname : 0 ∉ e.1)
    (hvalue : 0 ∉ e.2) :
    wire (itemText e) = if isSent wire e then sentLine e ++ [LF] else [] := by
  by_cases hsent : wire (itemText e) = []
  · have hnot : isSent wire e = false := by simp [isSent, hsent]
    rw [hnot, hsent]
    rfl
  · have hline := (hwire (itemText e)).resolve_left hsent
    have hin : isSent wire e = true := decide_eq_true hsent
    rw [hin, if_pos rfl, hline]
    exact (itemLine_itemText he hname hvalue).resolve_left (hline ▸ hsent)

theorem fieldOf_sentLine (he : ReadableEntry e) : FieldOf (sentLine e) e.1 e.2 := by
  refine ⟨_, he.colon_notMem_name, rfl, ?_⟩
  have hreturn : ∀ b ∈ [CR], b ∈ [HTAB, LF, CR, SP] := by simp
  have hblank : ∀ b ∈ [SP], b ∈ [HTAB, SP] := by simp
  split
  · next hempty =>
    have hpadded : trimValue ([] ++ (e.2 ++ [CR])) = e.2 :=
      trimValue_padded (fun b hb => absurd hb List.not_mem_nil) he.value_head he.value_last hreturn
    rwa [hempty] at hpadded ⊢
  · exact trimValue_padded hblank he.value_head he.value_last hreturn

theorem lf_notMem_sentLine (he : ReadableEntry e) : LF ∉ sentLine e := by
  have hsp : LF ≠ SP := by decide
  unfold sentLine
  split <;> simp [he.lf_notMem_name, he.lf_notMem_value, lf_ne_colon, lf_ne_cr, hsp]

theorem parseHeaders_wireText_readable (hwire : SendsLines wire) {es : List (Bytes × Bytes)}
    (h : ∀ e ∈ es, ReadableEntry e ∧ 0 ∉ e.1 ∧ 0 ∉ e.2) :
    parseHeaders (wireText wire (es.map itemText)) =
      ((es.filter (isSent wire)).map sentLine).foldl parseLine OrderedMap.empty := by
  have htext : wireText wire (es.map itemText) =
      ((es.filter (isSent wire)).map sentLine).flatMap (fun l => l ++ [LF]) := by
    rw [wireText]
    induction es with
    | nil => rfl
    | cons e es ih =>
      obtain ⟨he, hname, hvalue⟩ := h e List.mem_cons_self
      rw [List.map_cons, List.flatMap_cons, wire_of_readable hwire he hname hvalue,
        ih (fun a ha => h a (List.mem_cons_of_mem _ ha)), List.filter_cons]
      split <;> rfl
  have hlf : ∀ l ∈ (es.filter (isSent wire)).map sentLine, LF ∉ l := by
    intro l hl
    obtain ⟨e, he, rfl⟩ := List.mem_map.mp hl
    exact lf_notMem_sentLine (h e (List.mem_of_mem_filter he)).1
  rw [parseHeaders, htext, getlines_lines hlf]

/-- Whatever has been read, a line like a status line starts afresh. -/
theorem foldl_parseLine_status {line : Bytes} (h : httpSlash <+: line) (before after : List Bytes)
    (m : Headers) : (before ++ line :: after).foldl parseLine m =
      (line :: after).foldl parseLine OrderedMap.empty := by
  have hreset : ∀ m : Headers, parseLine m line = parseLine OrderedMap.empty line := by
    intro m
    simp [parseLine, take_five_eq_iff.mpr h]
  rw [List.foldl_append, List.foldl_cons, List.foldl_cons, hreset]

theorem copied_of_mem (hwire : SendsLines wire) {es : List (Bytes × Bytes)}
    (he : e ∈ (parseHeaders (wireText wire (es.map itemText))).entries) :
    ReadableEntry e ∧ 0 ∉ e.1 ∧ 0 ∉ e.2 := by
  obtain ⟨⟨line, hline, value, rest, -, rfl, -⟩, line', hline', name, rest', -, rfl, hvalue⟩ :=
    mem_foldl_parseLine he
  have hnul := notMem_of_mem_line (nul_notMem_wireText hwire es) hline
  have hnul' := notMem_of_mem_line (nul_notMem_wireText hwire es) hline'
  refine ⟨readableEntry_parseHeaders he, fun hm => hnul (List.mem_append_left _ hm), fun hm => ?_⟩
  have hrest : 0 ∈ rest' := (trimValue_inside rest').subset (hvalue ▸ hm)
  exact hnul' (List.mem_append_right _ (List.mem_cons_of_mem _ hrest))

section
variable {m : Headers} {es : List (Bytes × Bytes)}

theorem mem_of_foldl_sentLine (hreadable : ∀ e ∈ m.entries, ReadableEntry e)
    (hes : ∀ a ∈ es, a ∈ m.entries)
    (hread : (es.map sentLine).foldl parseLine OrderedMap.empty = m) (he : e ∈ m.entries) :
    e ∈ es := by
  obtain ⟨⟨line, hline, value, hfield⟩, -⟩ := mem_foldl_parseLine (hread.symm ▸ he)
  obtain ⟨a, ha, rfl⟩ := List.mem_map.mp hline
  have hname : a.1 = e.1 := FieldOf.name_eq (fieldOf_sentLine (hreadable a (hes a ha))) hfield
  have hae : a = e := m.eq_of_sameKey (hes a ha) he (hname ▸ SameKey.refl a.1)
  exact hae ▸ ha

theorem not_httpSlash_of_foldl_sentLine (hreadable : ∀ e ∈ m.entries, ReadableEntry e)
    (hread : (m.entries.map sentLine).foldl parseLine OrderedMap.empty = m) :
    ∀ e ∈ m.entries.tail, ¬ httpSlash <+: e.1 := by
  intro e he hp
  cases hm : m.entries with
  | nil =>
    rw [hm] at he
    cases he
  | cons first rest =>
    rw [hm, List.tail_cons] at he
    obtain ⟨before, after, rfl⟩ := List.append_of_mem he
    have hstart : httpSlash <+: sentLine e := hp.trans (List.prefix_append _ _)
    have hafter : ((e :: after).map sentLine).foldl parseLine OrderedMap.empty = m := by
      rw [hm, List.map_cons, List.map_append, List.map_cons, ← List.cons_append,
        foldl_parseLine_status hstart] at hread
      exact hread
    have hes : ∀ a ∈ e :: after, a ∈ m.entries := by
      intro a ha
      rw [hm]
      exact List.mem_cons_of_mem _ (List.mem_append_right _ ha)
    have hfirst := mem_of_foldl_sentLine hreadable hes hafter (hm ▸ List.mem_cons_self)
    have hnodup := m.nodup_entries
    rw [hm, List.nodup_cons] at hnodup
    exact hnodup.1 (List.mem_append_right _ hfirst)

end

/-- Of a map whose entries were sent in part, what is read is the map itself exactly if none
was left out, each is carried, and only the first may be like a status line. -/
theorem parseHeaders_wireText_iff (hwire : SendsLines wire) {m : Headers}
    {kept : List (Bytes × Bytes)} (hkept : kept.Sublist m.entries) :
    parseHeaders (wireText wire (kept.map itemText)) = m ↔
      kept = m.entries ∧ (∀ e ∈ m.entries, Carried wire e) ∧
        ∀ e ∈ m.entries.tail, ¬ httpSlash <+: e.1 := by
  constructor
  · intro h
    have hcopied : ∀ e ∈ m.entries, ReadableEntry e ∧ 0 ∉ e.1 ∧ 0 ∉ e.2 :=
      fun e he => copied_of_mem hwire (h.symm ▸ he)
    have hreadable : ∀ e ∈ m.entries, ReadableEntry e := fun e he => (hcopied e he).1
    have hread := parseHeaders_wireText_readable hwire (fun e he => hcopied e (hkept.subset he))
    rw [h] at hread
    have hsublist : (kept.filter (isSent wire)).Sublist m.entries := List.filter_sublist.trans hkept
    have hall : ∀ e ∈ m.entries, e ∈ kept.filter (isSent wire) := fun e he =>
      mem_of_foldl_sentLine hreadable (fun a ha => hsublist.subset ha) hread.symm he
    have hsent : kept.filter (isSent wire) = m.entries :=
      hsublist.eq_of_length_le (List.subperm_of_subset m.nodup_entries hall).length_le
    have hwhole : kept = m.entries :=
      hkept.eq_of_length_le (hsent ▸ List.filter_sublist.length_le)
    rw [hsent] at hread
    refine ⟨hwhole, fun e he => ?_, not_httpSlash_of_foldl_sentLine hreadable hread.symm⟩
    obtain ⟨hentry, hname, hvalue⟩ := hcopied e he
    have hin : isSent wire e = true := (List.mem_filter.mp (hall e he)).2
    exact ⟨hentry, hname, hvalue, of_decide_eq_true hin⟩
  · rintro ⟨rfl, hcarried, hstatus⟩
    have hsent : m.entries.filter (isSent wire) = m.entries :=
      List.filter_eq_self.mpr (fun e he => decide_eq_true (hcarried e he).sent)
    rw [parseHeaders_wireText_readable hwire (fun e he => ⟨(hcarried e he).toReadableEntry,
      (hcarried e he).nul_notMem_name, (hcarried e he).nul_notMem_value⟩), hsent,
      foldl_parseLine_empty (fun e he => fieldOf_sentLine (hcarried e he).toReadableEntry) hstatus]
    exact m.assignAll_entries

def keptEntries (ok : ℕ → Bool) : ℕ → List (Bytes × Bytes) → List (Bytes × Bytes)
  | _, [] => []
  | i, e :: rest => (if ok i then [e] else []) ++ keptEntries ok (i + 1) rest

theorem appendedItems_eq (ok : ℕ → Bool) (i : ℕ) (es : List (Bytes × Bytes)) :
    appendedItems ok i es = (keptEntries ok i es).map itemText := by
  induction es generalizing i with
  | nil => rfl
  | cons e es ih =>
    rw [appendedItems, keptEntries, List.map_append, ih]
    split <;> rfl

theorem keptEntries_sublist (ok : ℕ → Bool) (i : ℕ) (es : List (Bytes × Bytes)) :
    (keptEntries ok i es).Sublist es := by
  induction es generalizing i with
  | nil => exact List.Sublist.refl []
  | cons e es ih =>
    rw [keptEntries]
    split
    · exact (ih (i + 1)).cons_cons e
    · exact (ih (i + 1)).cons e

theorem keptEntries_eq_iff (ok : ℕ → Bool) (i : ℕ) (es : List (Bytes × Bytes)) :
    keptEntries ok i es = es ↔ ∀ j < es.length, ok (i + j) = true := by
  induction es generalizing i with
  | nil => exact iff_of_true rfl (fun j hj => absurd hj (Nat.not_lt_zero j))
  | cons e es ih =>
    rw [keptEntries, List.length_cons, Nat.forall_lt_succ_left, Nat.add_zero]
    have hshift : (∀ j < es.length, ok (i + (j + 1)) = true) ↔ keptEntries ok (i + 1) es = es := by
      rw [ih (i + 1)]
      simp only [Nat.add_assoc, Nat.add_comm 1]
    rw [hshift]
    cases hok : ok i with
    | true => simp
    | false =>
      have hlength := (keptEntries_sublist ok (i + 1) es).length_le
      simp only [Bool.false_eq_true, if_false, List.nil_append, false_and, iff_false]
      intro heq
      rw [heq, List.length_cons] at hlength
      omega

theorem told_items (url : Url) (addr : Addr) (body : Body) (calls : List SessionCall) :
    let τ := calls.foldl Told.applyCall (Told.start url addr body)
    τ.items = appendedItems ((lastSome SessionCall.appends? calls).getD allAppended) 0
        τ.settings.headers.entries ∧
      (τ.settings.headersSet = false → τ.settings.headers = OrderedMap.empty) := by
  induction calls using List.reverseRecOn with
  | nil => exact ⟨rfl, fun _ => rfl⟩
  | append_singleton calls call ih =>
    simp only [List.foldl_append, List.foldl_cons, List.foldl_nil, lastSome_concat]
    cases call with
    | setOption ok addr arg =>
      obtain ⟨category, object⟩ := arg
      cases object with
      | headers h => exact ⟨rfl, fun hset => absurd hset Bool.true_eq_false.mp⟩
      | _ => exact ih
    | _ => exact ih

variable {platform : Platform}

/-- After any run, a request is read to have the session's headers exactly if no append of
the last header option failed, each entry is carried, and only the first name may start
like a status line. -/
theorem headersRead_iff (hwire : SendsLines wire) (url : Url) (addr : Addr) (body : Body)
    (calls : List SessionCall) (method : Bytes) (mem : Memory) (t : Transfer) :
    let s := (newWith platform true url addr body).applyCalls platform calls
    (s.perform method mem t).request.map (Request.headersRead wire) = some s.headers_ ↔
      (∀ ok ∈ lastSome SessionCall.appends? calls, ∀ i < s.headers_.entries.length, ok i = true) ∧
        (∀ e ∈ s.headers_.entries, Carried wire e) ∧
          ∀ e ∈ s.headers_.entries.tail, ¬ httpSlash <+: e.1 := by
  intro s
  have hf : s.Follows platform _ := (follows_newWith url addr body).applyCalls calls
  obtain ⟨hitems, hset⟩ := told_items url addr body calls
  rw [hf.request_eq, Option.map_some, Option.some.injEq, hf.headers]
  generalize calls.foldl Told.applyCall (Told.start url addr body) = τ at hitems hset ⊢
  have hread : (τ.requestIn platform method mem).headersRead wire =
      parseHeaders (wireText wire τ.items) := by
    have hheaders : (τ.requestIn platform method mem).headers =
        if τ.settings.headersSet then some (some τ.items) else none := rfl
    rw [Request.headersRead, hheaders]
    cases hsome : τ.settings.headersSet with
    | true => rfl
    | false =>
      rw [hitems, hset hsome]
      rfl
  rw [hread, hitems, appendedItems_eq, parseHeaders_wireText_iff hwire (keptEntries_sublist _ _ _),
    keptEntries_eq_iff]
  refine and_congr_left' ?_
  cases lastSome SessionCall.appends? calls with
  | none => exact iff_of_true (fun _ _ => rfl) (fun ok hok => by cases hok)
  | some ok => simp

def twoHeaders : Headers :=
  (OrderedMap.empty.insert (str ['A']) (str [':', ';'])).insert (str ['b']) []

/-- Both headers are read back if both appends succeed, and not if the second fails. -/
theorem headersRead_iff_two :
    let told ok := (newWith .linux true [] 0 []).applyCalls .linux
      [.setOption ok 1 ⟨.lvalue, .headers twoHeaders⟩]
    let read ok := ((told ok).perform (str ['G', 'E', 'T']) (fun _ => []) {}).request.map
      (Request.headersRead wireLine)
    read allAppended = some (told allAppended).headers_ ∧
      read (fun i => i = 0) ≠ some (told (fun i => i = 0)).headers_ := by
  intro told read
  have hiff := fun ok => @headersRead_iff wireLine .linux sendsLines_wireLine [] 0 []
    [.setOption ok 1 ⟨.lvalue, .headers twoHeaders⟩] (str ['G', 'E', 'T']) (fun _ => []) {}
  constructor
  · refine (hiff allAppended).mpr ⟨?_, ?_, ?_⟩
    · intro ok hok i _
      obtain rfl := Option.mem_some_iff.mp hok
      rfl
    · intro e he
      rcases List.mem_cons.mp he with rfl | he
      · exact ⟨⟨by decide, by decide, by decide, by rintro b ⟨⟩; decide, by rintro b ⟨⟩; decide⟩,
          by decide, by decide, by decide⟩
      · obtain rfl := List.mem_singleton.mp he
        exact ⟨⟨by decide, by decide, by decide, by rintro b ⟨⟩, by rintro b ⟨⟩⟩,
          by decide, by decide, by decide⟩
    · intro e he
      obtain rfl := List.mem_singleton.mp he
      decide
  · intro hread
    have hok := ((hiff (fun i => i = 0)).mp hread).1 _ rfl 1 (by decide)
    cases hok

end Session
end Curlinho
