import Curlinho.Session.HeaderWire
import Curlinho.Session.ListOwnership

/-! # Line breaks in headers

`SetHeaders` hands names and values on as they are. If the items of the list are sent as
they are, it puts one line on the wire for each header exactly as long as nothing that
libcurl copies of a name or a value has a carriage return or a line feed in it.
-/
namespace Curlinho
open Foundation

def SessionCall.operation : SessionCall → Operation
  | setOption _ addr arg => .option addr arg
  | get mem t => .get mem t
  | post mem t => .post mem t

def SessionCall.Appended : SessionCall → Prop
  | setOption ok _ _ => ∀ j, ok j = true
  | _ => True

theorem map_operation_call (ops : List Operation) :
    (ops.map Operation.call).map SessionCall.operation = ops := by
  rw [List.map_map]
  exact List.map_id'' (fun op => by cases op <;> rfl) ops

theorem map_call_operation {calls : List SessionCall} (h : ∀ call ∈ calls, call.Appended) :
    (calls.map SessionCall.operation).map Operation.call = calls := by
  rw [List.map_map]
  refine (List.map_congr_left ?_).trans (List.map_id calls)
  intro call hcall
  have happended := h call hcall
  cases call with
  | setOption ok addr arg =>
    have hok : ok = allAppended := funext happended
    rw [hok]
    rfl
  | get mem t => rfl
  | post mem t => rfl

namespace Session

/-- The text of each item is sent as it is, and CRLF. -/
def SentAsIs (wire : Bytes → Bytes) (items : List Bytes) : Prop :=
  ∀ item ∈ items, wire item = item ++ [CR, LF]

/-- No item of the list that the handle names has a line break in it, and if the items are
sent as they are, there are as many lines on the wire as items. -/
def InjectionFree (wire : Bytes → Bytes) (s : Session) : Prop :=
  ∀ h chunk, s.curl_.handle = some h → h.httpHeader = some chunk →
    ∃ items, s.slists.items chunk = some items ∧
      (∀ item ∈ items, CR ∉ item ∧ LF ∉ item) ∧
      (SentAsIs wire items → (getlines LF (wireText wire items)).length = items.length)

/-- If its items are sent as they are, the list that the handle names puts as many lines on
the wire as there are headers. -/
def LinePerHeader (wire : Bytes → Bytes) (s : Session) : Prop :=
  ∀ h chunk items, s.curl_.handle = some h → h.httpHeader = some chunk →
    s.slists.items chunk = some items → SentAsIs wire items →
      (getlines LF (wireText wire items)).length = s.headers_.entries.length

/-- No line break in the part of a header that is copied: its name up to a NUL and, if
there is none in the name, its value up to a NUL. -/
def BreakFree (e : Bytes × Bytes) : Prop :=
  (CR ∉ cstr e.1 ∧ LF ∉ cstr e.1) ∧ (0 ∉ e.1 → CR ∉ cstr e.2 ∧ LF ∉ cstr e.2)

theorem notMem_itemText_iff {c : UInt8} (hcolon : c ≠ ch ':') (hsp : c ≠ ch ' ')
    (hsemi : c ≠ ch ';') (e : Bytes × Bytes) :
    c ∉ itemText e ↔ c ∉ cstr e.1 ∧ (0 ∉ e.1 → c ∉ cstr e.2) := by
  unfold itemText headerString
  by_cases hzero : (0 : UInt8) ∈ e.1
  · split
    · simp [cstr_append_of_mem hzero, hzero]
    · simp [cstr_append_of_mem hzero, hzero]
  · have hname : cstr e.1 = e.1 := cstr_of_notMem hzero
    split
    · next hempty =>
      have hvalue : cstr e.2 = [] := by
        rw [hempty]
        rfl
      have hrest : cstr [ch ';'] = [ch ';'] := by decide
      rw [cstr_append_of_notMem hzero, hname, hvalue, hrest]
      simp [hsemi]
    · have hsep : cstr (str [':', ' '] ++ e.2) = str [':', ' '] ++ cstr e.2 :=
        cstr_append_of_notMem (by decide) e.2
      rw [cstr_append_of_notMem hzero, hname, hsep]
      simp [str, hcolon, hsp, hzero]

theorem breakFree_iff (e : Bytes × Bytes) :
    BreakFree e ↔ CR ∉ itemText e ∧ LF ∉ itemText e := by
  rw [notMem_itemText_iff (by decide) (by decide) (by decide),
    notMem_itemText_iff (by decide) (by decide) (by decide)]
  unfold BreakFree
  tauto

section
variable {wire : Bytes → Bytes} {items : List Bytes}

theorem getlines_wireText (hsent : SentAsIs wire items) (h : ∀ item ∈ items, LF ∉ item) :
    getlines LF (wireText wire items) = items.map (fun item => item ++ [CR]) := by
  have hlines : wireText wire items =
      (items.map (fun item => item ++ [CR])).flatMap (fun l => l ++ [LF]) := by
    rw [wireText, List.flatMap_map]
    exact List.flatMap_congr fun item hitem => by simp [hsent item hitem]
  have hlf : ∀ l ∈ items.map (fun item => item ++ [CR]), LF ∉ l := by
    intro l hl
    obtain ⟨item, hitem, rfl⟩ := List.mem_map.mp hl
    simp [h item hitem, lf_ne_cr]
  rw [hlines, getlines_lines hlf]

theorem length_wireText (hsent : SentAsIs wire items) (h : ∀ item ∈ items, LF ∉ item) :
    (getlines LF (wireText wire items)).length = items.length := by
  rw [getlines_wireText hsent h, List.length_map]

end

/-- Every header was given in some call, and every item is the text of a header. -/
structure HeaderState.Listed (st : HeaderState) (given : List Headers) : Prop where
  mem : ∀ e ∈ st.headers_.entries, ∃ H ∈ given, e ∈ H.entries
  items : ∃ items, st.slists.items st.chunk = some items ∧
    ∀ item ∈ items, ∃ e ∈ st.headers_.entries, itemText e = item
  kept : st.Kept

theorem HeaderState.Listed.append {st : HeaderState} {given : List Headers} (h : st.Listed given)
    (more : List Headers) : st.Listed (given ++ more) := by
  refine ⟨?_, h.items, h.kept⟩
  intro e he
  obtain ⟨H, hH, he⟩ := h.mem e he
  exact ⟨H, List.mem_append_left _ hH, he⟩

theorem HeaderState.Listed.notMem_itemText {st : HeaderState} {given : List Headers}
    (h : st.Listed given) (hclean : ∀ H ∈ given, ∀ e ∈ H.entries, BreakFree e)
    {e : Bytes × Bytes} (he : e ∈ st.headers_.entries) :
    CR ∉ itemText e ∧ LF ∉ itemText e := by
  obtain ⟨H, hH, he⟩ := h.mem e he
  exact (breakFree_iff e).mp (hclean H hH e he)

theorem HeaderState.Listed.setHeaders {s : Session} {given : List Headers}
    (h : s.headerState.Listed given) (ok : ℕ → Bool) (headers : Headers) :
    (s.setHeaders ok headers).headerState.Listed (given ++ [headers]) := by
  have hkept := h.kept.setHeaders ok headers
  cases hs : s.curl_.handle.isSome with
  | false =>
    rw [Session.setHeaders, hs]
    exact h.append [headers]
  | true =>
    obtain ⟨items, hitems, hsub, -⟩ := items_setHeaders hs (fun _ hp => h.kept.owned.lt_next hp) ok
      headers
    refine ⟨?_, ⟨items, hitems, fun item hitem => List.mem_map.mp (hsub.subset hitem)⟩, hkept⟩
    rw [headerState_setHeaders hs ok headers]
    intro e he
    rcases mem_mergeHeaders he with he | he
    · exact ⟨headers, by simp, he⟩
    · obtain ⟨H, hH, he⟩ := h.mem e he
      exact ⟨H, List.mem_append_left _ hH, he⟩

variable (platform : Platform)

theorem HeaderState.Listed.applyCall {s : Session} {given : List Headers}
    (h : s.headerState.Listed given) (call : SessionCall) :
    (s.applyCall platform call).headerState.Listed
      (given ++ call.operation.headers?.toList) := by
  rcases applyCall_cases platform s call with
    ⟨ok, addr, category, headers, rfl⟩ | ⟨hstate, -⟩
  · exact h.setHeaders ok headers
  · rw [hstate]
    exact h.append _

theorem HeaderState.Listed.applyCalls {s : Session} {given : List Headers}
    (h : s.headerState.Listed given) (calls : List SessionCall) :
    (s.applyCalls platform calls).headerState.Listed
      (given ++ (calls.map SessionCall.operation).filterMap Operation.headers?) := by
  induction calls generalizing s given with
  | nil => simpa [Session.applyCalls] using h
  | cons call calls ih =>
    have hrest := ih (h.applyCall platform call)
    have hgiven : call.operation.headers?.toList ++
        (calls.map SessionCall.operation).filterMap Operation.headers? =
          ((call :: calls).map SessionCall.operation).filterMap Operation.headers? := by
      rw [List.map_cons, List.filterMap_cons]
      cases call.operation.headers? <;> rfl
    rw [List.append_assoc, hgiven] at hrest
    exact hrest

theorem listed_newWith (url : Url) (addr : Addr) (body : Body) :
    (newWith platform true url addr body).headerState.Listed [] := by
  refine ⟨?_, ⟨[], ?_, by simp⟩, kept_newWith platform true url addr body⟩
  · rw [headerState_newWith]
    intro e he
    cases he
  · rw [headerState_newWith]
    rfl

variable {wire : Bytes → Bytes}

theorem injectionFree_of_listed {s : Session} {given : List Headers}
    (h : s.headerState.Listed given) (hclean : ∀ H ∈ given, ∀ e ∈ H.entries, BreakFree e) :
    s.InjectionFree wire := by
  intro handle chunk hh hchunk
  obtain rfl : chunk = s.curl_.chunk :=
    h.kept.named chunk ((httpHeader_headerState hh).mpr hchunk)
  obtain ⟨items, hitems, htext⟩ := h.items
  have hbreak : ∀ item ∈ items, CR ∉ item ∧ LF ∉ item := by
    intro item hitem
    obtain ⟨e, he, rfl⟩ := htext item hitem
    exact h.notMem_itemText hclean he
  exact ⟨items, hitems, hbreak,
    fun hsent => length_wireText hsent (fun item hitem => (hbreak item hitem).2)⟩

theorem mem_setHeaders {s : Session} (hs : s.curl_.handle.isSome = true) {headers : Headers}
    {e : Bytes × Bytes} (he : e ∈ headers.entries) :
    e ∈ (s.setHeaders allAppended headers).headers_.entries := by
  have hst := headerState_setHeaders hs allAppended headers
  rw [show (s.setHeaders allAppended headers).headers_ = mergeHeaders headers s.headers_ from
    congrArg HeaderState.headers_ hst, mergeHeaders]
  apply OrderedMap.mem_insertAll_of_mem
  rwa [OrderedMap.insertAll_entries]

theorem linePerHeader_of_rendered {s : Session} {given : List Headers}
    (h : s.headerState.Listed given) (hr : s.headerState.Rendered)
    (hclean : ∀ H ∈ given, ∀ e ∈ H.entries, BreakFree e) :
    s.LinePerHeader wire := by
  intro handle chunk items hh hchunk hitems hsent
  obtain rfl : chunk = s.curl_.chunk :=
    h.kept.named chunk ((httpHeader_headerState hh).mpr hchunk)
  obtain rfl : items = s.headers_.entries.map itemText :=
    Option.some.inj (hitems.symm.trans hr.items)
  rw [length_wireText hsent, List.length_map]
  intro item hitem
  obtain ⟨e, he, rfl⟩ := List.mem_map.mp hitem
  exact (h.notMem_itemText hclean he).2

theorem breakFree_of_injectionFree {s : Session} {given : List Headers} (h : HeadersSet s given)
    (hgiven : given ≠ []) (hfree : s.InjectionFree wire) :
    ∀ e ∈ s.headers_.entries, BreakFree e := by
  obtain ⟨handle, hh⟩ := Option.isSome_iff_exists.mp h.valid
  have hlinked : handle.httpHeader = some s.curl_.chunk :=
    (httpHeader_headerState hh).mp (h.linked hgiven)
  obtain ⟨items, hitems, hbreak, -⟩ := hfree handle s.curl_.chunk hh hlinked
  obtain rfl : items = s.headers_.entries.map itemText :=
    Option.some.inj (hitems.symm.trans h.rendered.items)
  intro e he
  exact (breakFree_iff e).mpr (hbreak _ (List.mem_map_of_mem he))

/-- Every state of a run is free of injections, whatever the outcomes of the appends, and
sends a line for each header if they all succeed, exactly if no call was given a line
break in the part of a header that is copied. -/
theorem injectionFree_run_iff (wire : Bytes → Bytes) (url : Url) (addr : Addr) (body : Body)
    (ops : List Operation) :
    (∀ calls : List SessionCall, calls.map SessionCall.operation <+: ops →
        ((newWith platform true url addr body).applyCalls platform calls).InjectionFree wire ∧
        ((∀ call ∈ calls, call.Appended) →
          ((newWith platform true url addr body).applyCalls platform calls).LinePerHeader wire)) ↔
      ∀ H ∈ ops.filterMap Operation.headers?, ∀ e ∈ H.entries, BreakFree e := by
  have hset : ∀ pre, HeadersSet ((newWith platform true url addr body).run platform pre)
      (pre.filterMap Operation.headers?) := by
    intro pre
    simpa using (headersSet_newWith platform url addr body).run platform pre
  constructor
  · intro hfree H hH e he
    obtain ⟨op, hop, hheaders⟩ := List.mem_filterMap.mp hH
    obtain ⟨before, after, rfl⟩ := List.append_of_mem hop
    cases op with
    | option addr' arg =>
      obtain ⟨category, object⟩ := arg
      cases object with
      | headers headers =>
        obtain rfl : headers = H := Option.some.inj hheaders
        have hpre : before ++ [Operation.option addr' ⟨category, .headers headers⟩] <+:
            before ++ .option addr' ⟨category, .headers headers⟩ :: after := ⟨after, by simp⟩
        rw [← map_operation_call (before ++ [_])] at hpre
        obtain ⟨hstate, -⟩ := hfree _ hpre
        rw [applyCalls_map_call, run, List.foldl_append] at hstate
        exact breakFree_of_injectionFree ((hset before).setHeaders headers) (by simp) hstate e
          (mem_setHeaders (hset before).valid he)
      | _ => cases hheaders
    | get mem t => cases hheaders
    | post mem t => cases hheaders
  · intro hclean calls hpre
    have hgiven : ∀ H ∈ (calls.map SessionCall.operation).filterMap Operation.headers?,
        ∀ e ∈ H.entries, BreakFree e :=
      fun H hH => hclean H ((hpre.filterMap _).subset hH)
    have hlisted := (listed_newWith platform url addr body).applyCalls platform calls
    rw [List.nil_append] at hlisted
    refine ⟨injectionFree_of_listed hlisted hgiven, ?_⟩
    intro hall
    have hrendered := (hset (calls.map SessionCall.operation)).rendered
    rw [← applyCalls_map_call, map_call_operation hall] at hrendered
    exact linePerHeader_of_rendered hlisted hrendered hgiven

def splitHeaders : Headers :=
  OrderedMap.empty.insert (str ['X']) (str ['a'] ++ [CR, LF] ++ str ['Y', ':'])

/-- The one item of the list is sent as it is, and its value brings a line of its own. -/
theorem not_injectionFree_split :
    ¬ ((new .linux true).setHeaders allAppended splitHeaders).InjectionFree wireLine ∧
      ¬ ((new .linux true).setHeaders allAppended splitHeaders).LinePerHeader wireLine := by
  have hsent : SentAsIs wireLine [str ['X', ':', ' ', 'a'] ++ [CR, LF] ++ str ['Y', ':']] := by
    intro item hitem
    obtain rfl := List.mem_singleton.mp hitem
    rfl
  constructor
  · intro hfree
    obtain ⟨items, hitems, hbreak, -⟩ := hfree _ _ rfl rfl
    obtain rfl : [str ['X', ':', ' ', 'a'] ++ [CR, LF] ++ str ['Y', ':']] = items :=
      Option.some.inj hitems
    exact (hbreak _ List.mem_cons_self).1 (by decide)
  · intro hline
    exact absurd (hline _ _ _ rfl rfl rfl hsent) (by decide)

end Session
end Curlinho
