import Curlinho.Session.Run
import Curlinho.Foundation.LastWrite

/-! # The header list of a session

`SetHeaders` merges a map into the session's headers and rebuilds the libcurl list
from the result. The invariant ties the three pieces of state together: the list is
the one the handle names, and its items render the entries of the map in order.
-/
namespace Curlinho
open Foundation
namespace Session

/-- The text of one item, as `curl_slist_append` copies it. -/
def itemText (header : Bytes × Bytes) : Bytes := cstr (headerString header)

theorem append_spec {heap : SlistHeap} {chunk : Option SlistPtr} {items : List Bytes}
    (hitems : heap.items chunk = some items) (hfresh : ∀ p, chunk = some p → p < heap.next)
    (s : Bytes) :
    ∃ p, (heap.append true chunk s).2 = some p ∧
      (heap.append true chunk s).1.items (some p) = some (items ++ [cstr s]) ∧
      p < (heap.append true chunk s).1.next ∧ heap.next ≤ (heap.append true chunk s).1.next ∧
      (chunk = some p ∨ chunk = none ∧ p = heap.next) ∧
      ∀ q, q ≠ p → (heap.append true chunk s).1.lists q = heap.lists q := by
  cases chunk with
  | none =>
    cases hitems
    refine ⟨heap.next, rfl, ?_, Nat.lt_succ_self _, Nat.le_succ _, Or.inr ⟨rfl, rfl⟩, ?_⟩
    · simp [SlistHeap.append, SlistHeap.items]
    · intro q hq
      simp [SlistHeap.append, Function.update_of_ne hq]
  | some p =>
    refine ⟨p, rfl, ?_, hfresh p rfl, le_rfl, Or.inl rfl, ?_⟩
    · simp only [SlistHeap.items] at hitems
      simp [SlistHeap.append, SlistHeap.items, hitems]
    · intro q hq
      simp [SlistHeap.append, Function.update_of_ne hq]

theorem buildChunk_spec (ok : ℕ → Bool) (entries : List (Bytes × Bytes)) (i : ℕ)
    (heap : SlistHeap) (chunk : Option SlistPtr) {items : List Bytes} {base : SlistPtr}
    (hitems : heap.items chunk = some items)
    (hfresh : ∀ p, chunk = some p → base ≤ p ∧ p < heap.next) (hbase : base ≤ heap.next) :
    ∃ added, (buildChunk ok i entries (heap, chunk)).1.items
        (buildChunk ok i entries (heap, chunk)).2 = some (items ++ added) ∧
      added.Sublist (entries.map itemText) ∧
      ((∀ j, ok j = true) → added = entries.map itemText) ∧
      ∀ p, (buildChunk ok i entries (heap, chunk)).2 = some p →
        base ≤ p ∧ p < (buildChunk ok i entries (heap, chunk)).1.next := by
  induction entries generalizing i heap chunk items with
  | nil =>
    refine ⟨[], ?_, List.Sublist.slnil, fun _ => rfl, hfresh⟩
    rw [List.append_nil]
    exact hitems
  | cons header entries ih =>
    cases hok : ok i with
    | false =>
      obtain ⟨added, hadded, hsub, -, hrest⟩ := ih (i + 1) heap chunk hitems hfresh hbase
      rw [buildChunk_cons_failed hok]
      refine ⟨added, hadded, hsub.cons _, ?_, hrest⟩
      intro hall
      rw [hall i] at hok
      cases hok
    | true =>
      obtain ⟨p, hp, hnew, hlt, hle, hcase, _⟩ :=
        append_spec hitems (fun p h => (hfresh p h).2) (headerString header)
      have hbp : base ≤ p := by
        rcases hcase with h | ⟨_, rfl⟩
        · exact (hfresh p h).1
        · exact hbase
      obtain ⟨added, hadded, hsub, hall, hrest⟩ := ih (i + 1) _ (some p) hnew
        (fun q hq => Option.some.inj hq ▸ ⟨hbp, hlt⟩) (hbase.trans hle)
      rw [← hp] at hadded hrest
      rw [buildChunk_cons_appended hok]
      refine ⟨itemText header :: added, ?_, hsub.cons_cons _, ?_, hrest⟩
      · rw [hadded, List.append_assoc]
        rfl
      · intro h
        rw [hall h, List.map_cons]

/-- The map that `SetHeaders` stores: new entries first, so that old ones do not
overwrite them. -/
def mergeHeaders (headers old : Headers) : Headers :=
  (OrderedMap.empty.insertAll headers.entries).insertAll old.entries

structure HeaderState.Rendered (st : HeaderState) : Prop where
  items : st.slists.items st.chunk = some (st.headers_.entries.map itemText)
  fresh : ∀ p, st.chunk = some p → p < st.slists.next

def HeaderState.Linked (st : HeaderState) : Prop := st.httpHeader = some (some st.chunk)

theorem setHeaders_of_some {s : Session} {h : Handle} (hs : s.curl_.handle = some h)
    (ok : ℕ → Bool) (headers : Headers) :
    s.setHeaders ok headers =
      let built := buildChunk ok 0 (mergeHeaders headers s.headers_).entries (s.slists, none)
      { s with
        headers_ := mergeHeaders headers s.headers_
        slists := built.1.freeAll s.curl_.chunk
        curl_ := { s.curl_ with
          handle := some { h with httpHeader := some built.2 }, chunk := built.2 } } := by
  simp only [setHeaders, setopt, hs, Option.isSome_some, if_true, Option.map_some]
  rfl

theorem headerState_setHeaders {s : Session} (hs : s.curl_.handle.isSome = true)
    (ok : ℕ → Bool) (headers : Headers) :
    (s.setHeaders ok headers).headerState =
      let built := buildChunk ok 0 (mergeHeaders headers s.headers_).entries (s.slists, none)
      { headers_ := mergeHeaders headers s.headers_
        chunk := built.2
        slists := built.1.freeAll s.curl_.chunk
        httpHeader := some (some built.2) } := by
  obtain ⟨h, hh⟩ := Option.isSome_iff_exists.mp hs
  rw [setHeaders_of_some hh]
  rfl

theorem items_freeAll {heap : SlistHeap} {chunk old : Option SlistPtr}
    (h : ∀ p, old = some p → chunk ≠ some p) : (heap.freeAll old).items chunk = heap.items chunk := by
  cases old with
  | none => rfl
  | some p =>
    cases chunk with
    | none => rfl
    | some q => exact Function.update_of_ne (fun hq => h p rfl (congrArg some hq)) none heap.lists

/-- Releasing the previous list leaves the new one, which was allocated after it. -/
theorem items_setHeaders {s : Session} (hs : s.curl_.handle.isSome = true)
    (hfresh : ∀ p, s.curl_.chunk = some p → p < s.slists.next) (ok : ℕ → Bool)
    (headers : Headers) :
    ∃ items, (s.setHeaders ok headers).slists.items (s.setHeaders ok headers).curl_.chunk =
        some items ∧
      items.Sublist ((s.setHeaders ok headers).headers_.entries.map itemText) ∧
      ((∀ j, ok j = true) → items = (s.setHeaders ok headers).headers_.entries.map itemText) ∧
      ∀ p, (s.setHeaders ok headers).curl_.chunk = some p →
        p < (s.setHeaders ok headers).slists.next := by
  have hst := headerState_setHeaders hs ok headers
  obtain ⟨items, hitems, hsub, hall, hnew⟩ := buildChunk_spec ok
    (mergeHeaders headers s.headers_).entries 0 s.slists none rfl (fun p hp => by cases hp)
    (le_refl s.slists.next)
  have hne : ∀ p, s.curl_.chunk = some p →
      (buildChunk ok 0 (mergeHeaders headers s.headers_).entries (s.slists, none)).2 ≠ some p := by
    intro p hp hq
    exact absurd (hfresh p hp) (not_lt.mpr (hnew p hq).1)
  rw [show (s.setHeaders ok headers).slists = _ from congrArg HeaderState.slists hst,
    show (s.setHeaders ok headers).curl_.chunk = _ from congrArg HeaderState.chunk hst,
    show (s.setHeaders ok headers).headers_ = _ from congrArg HeaderState.headers_ hst]
  refine ⟨items, (items_freeAll hne).trans hitems, hsub, hall, ?_⟩
  intro p hp
  have hlt := (hnew p hp).2
  cases s.curl_.chunk <;> exact hlt

theorem rendered_setHeaders {s : Session} (hs : s.curl_.handle.isSome = true)
    (hr : s.headerState.Rendered) (headers : Headers) :
    (s.setHeaders allAppended headers).headerState.Rendered := by
  obtain ⟨items, hitems, -, hall, hfresh⟩ := items_setHeaders hs hr.fresh allAppended headers
  rw [hall (fun _ => rfl)] at hitems
  exact ⟨hitems, hfresh⟩

theorem lookup_mergeHeaders (headers old : Headers) (name : Bytes) :
    (mergeHeaders headers old).lookup name = (headers.lookup name).or (old.lookup name) := by
  rw [mergeHeaders, OrderedMap.lookup_insertAll, OrderedMap.lookup_insertAll,
    OrderedMap.lookup_empty, Option.none_or]
  rfl

theorem mem_mergeHeaders {headers old : Headers} {e : Bytes × Bytes}
    (h : e ∈ (mergeHeaders headers old).entries) : e ∈ headers.entries ∨ e ∈ old.entries := by
  rcases OrderedMap.mem_insertAll _ h with h | h
  · rcases OrderedMap.mem_insertAll _ h with h | h
    · cases h
    · exact Or.inl h
  · exact Or.inr h

end Session

def Operation.headers? : Operation → Option Headers
  | .option _ arg => arg.object.headers?
  | .get _ _ => none
  | .post _ _ => none

namespace Session
variable (platform : Platform)

structure HeadersSet (s : Session) (calls : List Headers) : Prop where
  valid : s.curl_.handle.isSome = true
  lookup : ∀ name, s.headers_.lookup name = lastSome (fun H => H.lookup name) calls
  mem : ∀ e ∈ s.headers_.entries, ∃ H ∈ calls, e ∈ H.entries
  rendered : s.headerState.Rendered
  linked : calls ≠ [] → s.headerState.Linked

theorem isSome_handle_eq (s : Session) :
    s.curl_.handle.isSome = s.headerState.httpHeader.isSome := by
  simp [headerState]

theorem HeadersSet.congr {s s' : Session} {calls : List Headers} (h : HeadersSet s calls)
    (hst : s'.headerState = s.headerState) : HeadersSet s' calls where
  valid := by rw [isSome_handle_eq, hst, ← isSome_handle_eq, h.valid]
  lookup := by
    rw [show s'.headers_ = s.headers_ from congrArg HeaderState.headers_ hst]
    exact h.lookup
  mem := by
    rw [show s'.headers_ = s.headers_ from congrArg HeaderState.headers_ hst]
    exact h.mem
  rendered := hst ▸ h.rendered
  linked := hst ▸ h.linked

theorem headersSet_newWith (url : Url) (addr : Addr) (body : Body) :
    HeadersSet (newWith platform true url addr body) [] := by
  have hst := headerState_newWith platform true url addr body
  have hheaders : (newWith platform true url addr body).headers_ = OrderedMap.empty :=
    congrArg HeaderState.headers_ hst
  refine ⟨?_, ?_, ?_, ⟨?_, ?_⟩, fun h => absurd rfl h⟩
  · rw [isSome_handle_eq, hst]
    rfl
  · intro name
    rw [hheaders]
    rfl
  · rw [hheaders]
    intro e he
    cases he
  · rw [hst]
    rfl
  · rw [hst]
    intro p hp
    cases hp

theorem HeadersSet.setHeaders {s : Session} {calls : List Headers} (h : HeadersSet s calls)
    (headers : Headers) : HeadersSet (s.setHeaders allAppended headers) (calls ++ [headers]) := by
  have hst := headerState_setHeaders h.valid allAppended headers
  have hheaders : (s.setHeaders allAppended headers).headers_ = mergeHeaders headers s.headers_ :=
    congrArg HeaderState.headers_ hst
  refine ⟨?_, ?_, ?_, rendered_setHeaders h.valid h.rendered headers, fun _ => ?_⟩
  · rw [isSome_handle_eq, hst]
    rfl
  · intro name
    rw [hheaders, lookup_mergeHeaders, h.lookup, lastSome_concat]
  · rw [hheaders]
    intro e he
    rcases mem_mergeHeaders he with he | he
    · exact ⟨headers, by simp, he⟩
    · obtain ⟨H, hH, he⟩ := h.mem e he
      exact ⟨H, List.mem_append_left _ hH, he⟩
  · rw [hst]
    rfl

theorem HeadersSet.step {s : Session} {calls : List Headers} (h : HeadersSet s calls)
    (op : Operation) : HeadersSet (s.applyOperation platform op) (calls ++ op.headers?.toList) := by
  cases op with
  | option addr arg =>
    obtain ⟨category, object⟩ := arg
    cases object with
    | headers headers => exact h.setHeaders headers
    | _ =>
      simp only [Operation.headers?, OptionObject.headers?, Option.toList_none, List.append_nil]
      exact h.congr (headerState_setOption platform s allAppended addr _ (by simp))
  | get mem t =>
    simp only [Operation.headers?, Option.toList_none, List.append_nil]
    exact h.congr (headerState_perform s _ mem t)
  | post mem t =>
    simp only [Operation.headers?, Option.toList_none, List.append_nil]
    exact h.congr (headerState_perform s _ mem t)

theorem HeadersSet.run {s : Session} {calls : List Headers} (h : HeadersSet s calls)
    (ops : List Operation) :
    HeadersSet (s.run platform ops) (calls ++ ops.filterMap Operation.headers?) := by
  induction ops generalizing s calls with
  | nil => simpa [Session.run] using h
  | cons op ops ih =>
    have hstep := ih (h.step platform op)
    rw [List.append_assoc] at hstep
    have hcalls : op.headers?.toList ++ ops.filterMap Operation.headers? =
        (op :: ops).filterMap Operation.headers? := by
      rw [List.filterMap_cons]
      cases op.headers? <;> rfl
    rw [hcalls] at hstep
    exact hstep

def itemName (item : Bytes) : Bytes :=
  item.takeWhile (fun b => decide (b ≠ ch ':' ∧ b ≠ ch ';'))

def NameWithoutDelimiters (name : Bytes) : Prop := 0 ∉ name ∧ ch ':' ∉ name ∧ ch ';' ∉ name

instance : DecidablePred NameWithoutDelimiters := fun name =>
  inferInstanceAs (Decidable (0 ∉ name ∧ ch ':' ∉ name ∧ ch ';' ∉ name))

theorem itemName_itemText {e : Bytes × Bytes} (h : NameWithoutDelimiters e.1) :
    itemName (itemText e) = e.1 := by
  obtain ⟨hzero, hcolon, hsemi⟩ := h
  have hpos : ∀ b ∈ e.1, decide (b ≠ ch ':' ∧ b ≠ ch ';') = true := by
    intro b hb
    exact decide_eq_true ⟨fun h => hcolon (h ▸ hb), fun h => hsemi (h ▸ hb)⟩
  unfold itemName itemText headerString
  split
  · rw [cstr_append_of_notMem hzero, List.takeWhile_append_of_pos hpos]
    simp [cstr, ch]
  · rw [cstr_append_of_notMem hzero, List.takeWhile_append_of_pos hpos]
    simp [cstr, ch, str]

/-- After any run, the session's headers give every name the value of the latest call
that had it, and the list that the handle names is the list the session holds, with one
item for each header in comparator order. -/
theorem setHeaders_run (url : Url) (addr : Addr) (body : Body) (ops : List Operation)
    (hnames : ∀ H ∈ ops.filterMap Operation.headers?, ∀ e ∈ H.entries,
      NameWithoutDelimiters e.1) :
    let s := (newWith platform true url addr body).run platform ops
    let calls := ops.filterMap Operation.headers?
    (∀ name, s.headers_.lookup name = lastSome (fun H => H.lookup name) calls) ∧
    (calls ≠ [] → ∃ h items, s.curl_.handle = some h ∧ h.httpHeader = some s.curl_.chunk ∧
      s.slists.items s.curl_.chunk = some items ∧
      items = s.headers_.entries.map (fun e => cstr (headerString e)) ∧
      items.map itemName = s.headers_.entries.map Prod.fst ∧
      (items.map itemName).Pairwise HeaderLt ∧
      (items.map itemName).Pairwise (fun a b => ¬ EqFold a b)) := by
  intro s calls
  have hinv : HeadersSet s calls := by
    simpa using (headersSet_newWith platform url addr body).run platform ops
  refine ⟨hinv.lookup, fun hcalls => ?_⟩
  obtain ⟨h, hh⟩ := Option.isSome_iff_exists.mp hinv.valid
  have hlinked : h.httpHeader = some s.curl_.chunk :=
    (httpHeader_headerState hh).mp (hinv.linked hcalls)
  have hitemNames : (s.headers_.entries.map itemText).map itemName =
      s.headers_.entries.map Prod.fst := by
    rw [List.map_map]
    apply List.map_congr_left
    intro e he
    obtain ⟨H, hH, he⟩ := hinv.mem e he
    exact itemName_itemText (hnames H hH e he)
  have hsorted : (s.headers_.entries.map Prod.fst).Pairwise HeaderLt :=
    List.pairwise_map.mpr s.headers_.sorted
  refine ⟨h, s.headers_.entries.map itemText, hh, hlinked, hinv.rendered.items, rfl, hitemNames,
    ?_, ?_⟩
  · rw [hitemNames]
    exact hsorted
  · rw [hitemNames]
    exact hsorted.imp (fun hab hfold => (sameKey_headerLt.mpr hfold).1 hab)

def twoSpellings : List Operation :=
  [.option 1 ⟨.lvalue, .headers (OrderedMap.empty.insert (str ['X', 'a']) (str ['1']))⟩,
    .option 2 ⟨.rvalue, .headers (OrderedMap.empty.insert (str ['x', 'A']) [])⟩]

/-- The later spelling has replaced the earlier one in the map, on the list and in what the
handle names. -/
theorem setHeaders_run_two :
    let s := (newWith ⟨false, false, [], true⟩ true [] 0 []).run ⟨false, false, [], true⟩
      twoSpellings
    s.headers_.lookup (str ['X', 'A']) = some [] ∧
      ∃ h, s.curl_.handle = some h ∧ h.httpHeader = some s.curl_.chunk ∧
        s.slists.items s.curl_.chunk = some [str ['x', 'A', ';']] := by
  intro s
  obtain ⟨hlookup, hlist⟩ := setHeaders_run ⟨false, false, [], true⟩ [] 0 [] twoSpellings
    (by decide)
  obtain ⟨h, items, hh, hnamed, hitems, htext, -⟩ := hlist (by decide)
  exact ⟨(hlookup (str ['X', 'A'])).trans (by decide), h, hh, hnamed,
    hitems.trans (congrArg some (htext.trans (by decide)))⟩

end Session
end Curlinho
