import Curlinho.Util.ParseHeaders

/-! # Status lines

A status line clears the map and then goes through the field branch like any other
line. What precedes it is forgotten; the line itself is forgotten exactly if it has
no colon.
-/
namespace Curlinho
open Foundation

/-- `L` is the last line of `h` that starts with `HTTP/`, and `rest` is what follows
its terminator, nothing if it has none. -/
structure LastStatusLine (h L rest : Bytes) : Prop where
  split : ∃ before tail, h = before ++ L ++ tail ∧
    (before = [] ∨ ∃ b, before = b ++ [LF]) ∧ (tail = LF :: rest ∨ tail = [] ∧ rest = [])
  lf_notMem : LF ∉ L
  http : httpSlash <+: L
  last : ∀ l ∈ getlines LF rest, ¬ httpSlash <+: l

theorem LastStatusLine.getlines_eq {h L rest : Bytes} (hL : LastStatusLine h L rest) :
    ∃ ls, getlines LF h = ls ++ L :: getlines LF rest := by
  obtain ⟨before, tail, rfl, hbefore, htail⟩ := hL.split
  have hne : L ≠ [] := by
    rintro rfl
    exact absurd (List.prefix_nil.mp hL.http) (by decide)
  have hline : getlines LF (L ++ tail) = L :: getlines LF rest := by
    rcases htail with rfl | ⟨rfl, rfl⟩
    · exact getlines_append hL.lf_notMem rest
    · rw [List.append_nil, getlines_of_notMem hL.lf_notMem hne, getlines_nil]
  rcases hbefore with rfl | ⟨b, rfl⟩
  · exact ⟨[], hline⟩
  · refine ⟨getlines LF (b ++ [LF]), ?_⟩
    rw [List.append_assoc, getlines_append_concat, hline]

theorem exists_lastStatusLine (h : Bytes) (hs : ∃ l ∈ getlines LF h, httpSlash <+: l) :
    ∃ L rest, LastStatusLine h L rest := by
  induction hn : h.length using Nat.strongRecOn generalizing h with
  | _ n ih =>
    by_cases hlf : LF ∈ h
    · obtain ⟨a, b, rfl, ha⟩ := List.eq_append_cons_of_mem hlf
      rw [getlines_append ha] at hs
      by_cases hb : ∃ l ∈ getlines LF b, httpSlash <+: l
      · have hlen : b.length < n := by
          rw [← hn, List.length_append, List.length_cons]
          omega
        obtain ⟨L, rest, hL⟩ := ih b.length hlen b hb rfl
        obtain ⟨before, tail, rfl, hbefore, htail⟩ := hL.split
        refine ⟨L, rest, ⟨a ++ LF :: before, tail, by simp, Or.inr ?_, htail⟩, hL.lf_notMem,
          hL.http, hL.last⟩
        rcases hbefore with rfl | ⟨c, rfl⟩
        · exact ⟨a, rfl⟩
        · exact ⟨a ++ LF :: c, by simp⟩
      · obtain ⟨l, hl, hhttp⟩ := hs
        rcases List.mem_cons.mp hl with rfl | hl
        · refine ⟨l, b, ⟨[], LF :: b, rfl, Or.inl rfl, Or.inl rfl⟩, ha, hhttp, ?_⟩
          intro l' hl' hhttp'
          exact hb ⟨l', hl', hhttp'⟩
        · exact absurd ⟨l, hl, hhttp⟩ hb
    · obtain ⟨l, hl, hhttp⟩ := hs
      have hne : h ≠ [] := by
        rintro rfl
        cases hl
      rw [getlines_of_notMem hlf hne] at hl
      obtain rfl := List.mem_singleton.mp hl
      exact ⟨l, [], ⟨[], [], by simp, Or.inl rfl, Or.inr ⟨rfl, rfl⟩⟩, hlf, hhttp, by simp⟩

/-- A line that is no status line changes nothing or writes one field, whose name is
no status line either. -/
theorem parseLine_cases {line : Bytes} (hline : ¬ httpSlash <+: line) (header : Headers) :
    parseLine header line = header ∨
      ∃ name value, ¬ httpSlash <+: name ∧ parseLine header line = header.assign name value := by
  by_cases hc : ch ':' ∈ line
  · obtain ⟨name, value, rfl, hname⟩ := List.eq_append_cons_of_mem hc
    have hn : ¬ httpSlash <+: name := fun h => hline (h.trans (List.prefix_append _ _))
    rw [parseLine_append_colon hname, if_neg hn]
    exact Or.inr ⟨name, trimValue value, hn, rfl⟩
  · rw [parseLine_of_notMem hc, if_neg hline]
    exact Or.inl rfl

theorem foldl_parseLine_keeps {ls : List Bytes} (hls : ∀ l ∈ ls, ¬ httpSlash <+: l) {k : Bytes}
    {header : Headers} (hk : ∃ e ∈ header.entries, e.1 = k) :
    ∃ e ∈ (ls.foldl parseLine header).entries, e.1 = k := by
  induction ls generalizing header with
  | nil => exact hk
  | cons l ls ih =>
    apply ih (fun l' hl' => hls l' (List.mem_cons_of_mem _ hl'))
    rcases parseLine_cases (hls l List.mem_cons_self) header with h | ⟨name, value, -, h⟩
    · rw [h]
      exact hk
    · obtain ⟨e, he, rfl⟩ := hk
      rw [h]
      exact exists_mem_upsertEntry he

theorem foldl_parseLine_names {ls : List Bytes} (hls : ∀ l ∈ ls, ¬ httpSlash <+: l)
    {header : Headers} (hh : ∀ e ∈ header.entries, ¬ httpSlash <+: e.1) :
    ∀ e ∈ (ls.foldl parseLine header).entries, ¬ httpSlash <+: e.1 := by
  induction ls generalizing header with
  | nil => exact hh
  | cons l ls ih =>
    apply ih (fun l' hl' => hls l' (List.mem_cons_of_mem _ hl'))
    rcases parseLine_cases (hls l List.mem_cons_self) header with h | ⟨name, value, hn, h⟩
    · rw [h]
      exact hh
    · rw [h]
      intro e he
      rcases mem_upsertEntry he with rfl | ⟨e', he', hkey⟩
      · exact hn
      · rw [hkey]
        exact hh e' he'

theorem parseHeaders_afterStatus {h L rest : Bytes} (hL : LastStatusLine h L rest) :
    parseHeaders h = (getlines LF rest).foldl parseLine (parseLine OrderedMap.empty L) := by
  obtain ⟨ls, hls⟩ := hL.getlines_eq
  have hclear : ∀ header, parseLine header L = parseLine OrderedMap.empty L := by
    intro header
    have hL5 : L.take 5 = httpSlash := take_five_eq_iff.mpr hL.http
    simp [parseLine, hL5]
  rw [parseHeaders, hls, List.foldl_append, List.foldl_cons, hclear]

theorem parseHeaders_statusName {h L rest name value : Bytes} (hL : LastStatusLine h L rest)
    (hname : ch ':' ∉ name) (heq : L = name ++ ch ':' :: value) :
    ∃ e ∈ (parseHeaders h).entries, e.1 = name := by
  rw [parseHeaders_afterStatus hL]
  apply foldl_parseLine_keeps hL.last
  rw [heq, parseLine_append_colon hname, ite_self]
  exact ⟨(name, trimValue value), List.mem_cons_self, rfl⟩

theorem parseHeaders_names {rest : Bytes} (hlast : ∀ l ∈ getlines LF rest, ¬ httpSlash <+: l) :
    ∀ e ∈ (parseHeaders rest).entries, ¬ httpSlash <+: e.1 :=
  foldl_parseLine_names hlast (by simp [OrderedMap.empty])

theorem parseHeaders_eq_rest_iff {h L rest : Bytes} (hL : LastStatusLine h L rest) :
    parseHeaders h = parseHeaders rest ↔ ch ':' ∉ L := by
  constructor
  · intro heq hc
    obtain ⟨name, value, hsplit, hname⟩ := List.eq_append_cons_of_mem hc
    have hhttp : httpSlash <+: name := by
      rw [← httpSlash_prefix_append_colon name value, ← hsplit]
      exact hL.http
    obtain ⟨e, he, rfl⟩ := parseHeaders_statusName hL hname hsplit
    rw [heq] at he
    exact parseHeaders_names hL.last e he hhttp
  · intro hc
    rw [parseHeaders_afterStatus hL, parseLine_of_notMem hc, ite_self]
    rfl

/-- A text with a status line reads as the text after the last one exactly if that
line has no colon. -/
theorem parseHeaders_lastStatusLine (h : Bytes) (hs : ∃ l ∈ getlines LF h, httpSlash <+: l) :
    (∃ L rest, LastStatusLine h L rest) ∧
      ∀ L rest, LastStatusLine h L rest →
        (parseHeaders h = parseHeaders rest ↔ ch ':' ∉ L) :=
  ⟨exists_lastStatusLine h hs, fun _ _ hL => parseHeaders_eq_rest_iff hL⟩

def colonStatus : Bytes :=
  str ['H', 'T', 'T', 'P', '/', '1', '.', '1', ' ', '2', '0', '0', ' ', 'a', ':', ' ', 'b']

theorem parseHeaders_lastStatusLine_colon :
    LastStatusLine (colonStatus ++ [LF]) colonStatus [] ∧
      parseHeaders (colonStatus ++ [LF]) ≠ parseHeaders [] := by
  refine ⟨⟨⟨[], [LF], rfl, Or.inl rfl, Or.inl rfl⟩, by decide, by decide, by simp⟩, ?_⟩
  decide

def plainStatus : Bytes :=
  str ['H', 'T', 'T', 'P', '/', '1', '.', '1', ' ', '2', '0', '0', ' ', 'O', 'K']

theorem parseHeaders_lastStatusLine_plain :
    (∃ L rest, LastStatusLine (plainStatus ++ [LF]) L rest) ∧
      ∀ L rest, LastStatusLine (plainStatus ++ [LF]) L rest →
        (parseHeaders (plainStatus ++ [LF]) = parseHeaders rest ↔ ch ':' ∉ L) :=
  parseHeaders_lastStatusLine _ ⟨plainStatus, by decide, by decide⟩

end Curlinho
