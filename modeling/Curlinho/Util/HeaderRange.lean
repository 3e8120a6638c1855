import Curlinho.Foundation.MapEntries
import Curlinho.Util.ParseHeaders

/-! # What the header reader returns

The maps that `parseHeaders` can return are those whose names have neither colon nor line
feed, whose values have no line feed and no white space at the ends, and of which at most
one name starts like a status line. Each of them is read back from a text of its own.
-/
namespace Curlinho
open Foundation

/-- An entry that some field line is read as. -/
structure ReadableEntry (e : Bytes × Bytes) : Prop where
  colon_notMem_name : ch ':' ∉ e.1
  lf_notMem_name : LF ∉ e.1
  lf_notMem_value : LF ∉ e.2
  value_head : ∀ b ∈ e.2.head?, b ∉ [HTAB, SP]
  value_last : ∀ b ∈ e.2.getLast?, b ∉ [HTAB, LF, CR, SP]

structure ReadableHeaders (m : Headers) : Prop where
  entry : ∀ e ∈ m.entries, ReadableEntry e
  status : ∀ e ∈ m.entries, ∀ e' ∈ m.entries, httpSlash <+: e.1 → httpSlash <+: e'.1 → e = e'

theorem trimValue_inside (value : Bytes) : trimValue value <:+: value := by
  rw [trimValue_eq]
  exact (List.rdropWhile_prefix _ _).isInfix.trans (List.dropWhile_suffix _).isInfix

theorem trimValue_head (value : Bytes) : ∀ b ∈ (trimValue value).head?, b ∉ [HTAB, SP] := by
  intro b hb
  rw [trimValue_eq, Option.mem_def, List.head?_eq_some_iff] at hb
  obtain ⟨r, hr⟩ := hb
  obtain ⟨t, ht⟩ := List.rdropWhile_prefix (fun b => decide (b ∈ [HTAB, LF, CR, SP]))
    (value.dropWhile (fun b => decide (b ∈ [HTAB, SP])))
  have hhead := List.head?_dropWhile_not (fun b => decide (b ∈ [HTAB, SP])) value
  rw [← ht, hr, List.cons_append, List.head?_cons] at hhead
  exact of_decide_eq_false hhead

theorem trimValue_last (value : Bytes) :
    ∀ b ∈ (trimValue value).getLast?, b ∉ [HTAB, LF, CR, SP] := by
  intro b hb
  have hne : trimValue value ≠ [] := by
    rintro hnil
    rw [hnil] at hb
    cases hb
  rw [List.getLast?_eq_getLast_of_ne_nil hne] at hb
  obtain rfl := Option.some.inj hb
  simp only [trimValue_eq] at hne ⊢
  simpa using List.rdropWhile_last_not _ _ hne

def FieldOf (line name value : Bytes) : Prop :=
  ∃ rest, ch ':' ∉ name ∧ line = name ++ ch ':' :: rest ∧ trimValue rest = value

theorem FieldOf.name_eq {line name name' value value' : Bytes} (h : FieldOf line name value)
    (h' : FieldOf line name' value') : name = name' := by
  obtain ⟨rest, hname, hline, -⟩ := h
  obtain ⟨rest', hname', hline', -⟩ := h'
  have hcut := cutFirst_append hname rest
  rw [← hline, hline', cutFirst_append hname'] at hcut
  exact (congrArg Prod.fst hcut).symm

theorem mem_parseLine {m : Headers} {line : Bytes} {e : Bytes × Bytes}
    (h : e ∈ (parseLine m line).entries) :
    ((∃ a ∈ m.entries, a.1 = e.1) ∨ ∃ value, FieldOf line e.1 value) ∧
      ((∃ a ∈ m.entries, a.2 = e.2) ∨ ∃ name, FieldOf line name e.2) := by
  by_cases hc : ch ':' ∈ line
  · obtain ⟨name, rest, rfl, hname⟩ := List.eq_append_cons_of_mem hc
    have hfield : FieldOf (name ++ ch ':' :: rest) name (trimValue rest) := ⟨rest, hname, rfl, rfl⟩
    have hbase : ∀ a, a ∈ (if httpSlash <+: name then OrderedMap.empty else m).entries →
        a ∈ m.entries := by
      intro a ha
      split at ha
      · cases ha
      · exact ha
    rw [parseLine_append_colon hname] at h
    rcases OrderedMap.mem_assign h with h | ⟨hvalue, hkey⟩
    · exact ⟨Or.inl ⟨e, hbase e h, rfl⟩, Or.inl ⟨e, hbase e h, rfl⟩⟩
    · refine ⟨?_, Or.inr ⟨name, hvalue ▸ hfield⟩⟩
      rcases hkey with hkey | ⟨a, ha, hkey⟩
      · exact Or.inr ⟨trimValue rest, hkey ▸ hfield⟩
      · exact Or.inl ⟨a, hbase a ha, hkey⟩
  · rw [parseLine_of_notMem hc] at h
    split at h
    · cases h
    · exact ⟨Or.inl ⟨e, h, rfl⟩, Or.inl ⟨e, h, rfl⟩⟩

/-- Every name and every value that the reader returns is that of some line, though not
always of the same one. -/
theorem mem_foldl_parseLine {lines : List Bytes} {e : Bytes × Bytes}
    (h : e ∈ (lines.foldl parseLine OrderedMap.empty).entries) :
    (∃ line ∈ lines, ∃ value, FieldOf line e.1 value) ∧
      ∃ line ∈ lines, ∃ name, FieldOf line name e.2 := by
  induction lines using List.reverseRecOn generalizing e with
  | nil => cases h
  | append_singleton lines line ih =>
    rw [List.foldl_append, List.foldl_cons, List.foldl_nil] at h
    have hlast : line ∈ lines ++ [line] := by simp
    obtain ⟨hname, hvalue⟩ := mem_parseLine h
    constructor
    · rcases hname with ⟨a, ha, hkey⟩ | hfield
      · obtain ⟨⟨l, hl, hfield⟩, -⟩ := ih ha
        exact ⟨l, List.mem_append_left _ hl, hkey ▸ hfield⟩
      · exact ⟨line, hlast, hfield⟩
    · rcases hvalue with ⟨a, ha, hkey⟩ | hfield
      · obtain ⟨-, l, hl, hfield⟩ := ih ha
        exact ⟨l, List.mem_append_left _ hl, hkey ▸ hfield⟩
      · exact ⟨line, hlast, hfield⟩

theorem readableEntry_parseHeaders {text : Bytes} {e : Bytes × Bytes}
    (h : e ∈ (parseHeaders text).entries) : ReadableEntry e := by
  obtain ⟨⟨line, hline, -, rest, hcolon, rfl, -⟩, line', hline', name, rest', -, rfl, hvalue⟩ :=
    mem_foldl_parseLine h
  have hlf := notMem_of_mem_getlines hline
  have hlf' := notMem_of_mem_getlines hline'
  simp only [List.mem_append, List.mem_cons, not_or] at hlf hlf'
  refine ⟨hcolon, hlf.1, ?_, ?_, ?_⟩
  · exact hvalue ▸ fun hm => hlf'.2.2 ((trimValue_inside rest').subset hm)
  · exact hvalue ▸ trimValue_head rest'
  · exact hvalue ▸ trimValue_last rest'

def OneStatus (m : Headers) : Prop :=
  ∀ e ∈ m.entries, ∀ e' ∈ m.entries, httpSlash <+: e.1 → httpSlash <+: e'.1 → e = e'

theorem OneStatus.line {m : Headers} (h : OneStatus m) (line : Bytes) :
    OneStatus (parseLine m line) := by
  by_cases hline : httpSlash <+: line
  · have hempty : parseLine m line = parseLine OrderedMap.empty line := by
      simp [parseLine, take_five_eq_iff.mpr hline]
    intro e he e' he' _ _
    rw [hempty] at he he'
    by_cases hc : ch ':' ∈ line
    · obtain ⟨name, rest, rfl, hname⟩ := List.eq_append_cons_of_mem hc
      rw [parseLine_append_colon hname, ite_self] at he he'
      exact (List.mem_singleton.mp he).trans (List.mem_singleton.mp he').symm
    · rw [parseLine_of_notMem hc, ite_self] at he
      cases he
  · -- a name like a status line was there before
    have hold : ∀ e ∈ (parseLine m line).entries, httpSlash <+: e.1 →
        ∃ a ∈ m.entries, a.1 = e.1 := by
      intro e he hp
      obtain ⟨hname | ⟨-, rest, -, rfl, -⟩, -⟩ := mem_parseLine he
      · exact hname
      · exact absurd (hp.trans (List.prefix_append _ _)) hline
    intro e he e' he' hp hp'
    obtain ⟨a, ha, hkey⟩ := hold e he hp
    obtain ⟨a', ha', hkey'⟩ := hold e' he' hp'
    have haa := h a ha a' ha' (hkey ▸ hp) (hkey' ▸ hp')
    have hsame : e.1 = e'.1 := by rw [← hkey, ← hkey', haa]
    exact OrderedMap.eq_of_sameKey _ he he' (hsame ▸ SameKey.refl e.1)

theorem oneStatus_foldl (lines : List Bytes) {m : Headers} (h : OneStatus m) :
    OneStatus (lines.foldl parseLine m) := by
  induction lines generalizing m with
  | nil => exact h
  | cons line lines ih => exact ih (h.line line)

theorem readableHeaders_parseHeaders (text : Bytes) : ReadableHeaders (parseHeaders text) where
  entry _ he := readableEntry_parseHeaders he
  status := oneStatus_foldl (getlines LF text) (fun _ he => absurd he List.not_mem_nil)

def isStatusEntry (e : Bytes × Bytes) : Bool := decide (httpSlash <+: e.1)

def entryText (e : Bytes × Bytes) : Bytes := e.1 ++ ch ':' :: e.2

/-- One line for each entry, first the one that starts like a status line. -/
def renderHeaders (m : Headers) : Bytes :=
  ((m.entries.filter isStatusEntry ++ m.entries.filter (fun e => !isStatusEntry e)).map
    entryText).flatMap (fun l => l ++ [LF])

theorem FieldOf.parseLine_eq {line name value : Bytes} (h : FieldOf line name value) (m : Headers) :
    parseLine m line = (if httpSlash <+: name then OrderedMap.empty else m).assign name value := by
  obtain ⟨rest, hcolon, rfl, rfl⟩ := h
  exact parseLine_append_colon hcolon rest m

theorem foldl_parseLine_assignAll {line : Bytes × Bytes → Bytes} {es : List (Bytes × Bytes)}
    (h : ∀ e ∈ es, FieldOf (line e) e.1 e.2) (hhttp : ∀ e ∈ es, ¬ httpSlash <+: e.1) (m : Headers) :
    (es.map line).foldl parseLine m = m.assignAll es := by
  induction es generalizing m with
  | nil => rfl
  | cons e es ih =>
    rw [List.map_cons, List.foldl_cons, (h e List.mem_cons_self).parseLine_eq,
      if_neg (hhttp e List.mem_cons_self), ih (fun a ha => h a (List.mem_cons_of_mem _ ha))
        (fun a ha => hhttp a (List.mem_cons_of_mem _ ha))]
    rfl

theorem foldl_parseLine_empty {line : Bytes × Bytes → Bytes} {es : List (Bytes × Bytes)}
    (h : ∀ e ∈ es, FieldOf (line e) e.1 e.2) (hhttp : ∀ e ∈ es.tail, ¬ httpSlash <+: e.1) :
    (es.map line).foldl parseLine OrderedMap.empty = OrderedMap.empty.assignAll es := by
  cases es with
  | nil => rfl
  | cons e es =>
    rw [List.map_cons, List.foldl_cons, (h e List.mem_cons_self).parseLine_eq, ite_self]
    exact foldl_parseLine_assignAll (fun a ha => h a (List.mem_cons_of_mem _ ha)) hhttp _

theorem ReadableEntry.fieldOf_entryText {e : Bytes × Bytes} (h : ReadableEntry e) :
    FieldOf (entryText e) e.1 e.2 := by
  refine ⟨e.2, h.colon_notMem_name, rfl, ?_⟩
  have hpadded : trimValue ([] ++ (e.2 ++ [])) = e.2 :=
    trimValue_padded (fun b hb => absurd hb List.not_mem_nil) h.value_head h.value_last
      (fun b hb => absurd hb List.not_mem_nil)
  rwa [List.append_nil, List.nil_append] at hpadded

theorem ReadableHeaders.length_status_le {m : Headers} (h : ReadableHeaders m) :
    (m.entries.filter isStatusEntry).length ≤ 1 := by
  have hmem : ∀ e ∈ m.entries.filter isStatusEntry, e ∈ m.entries ∧ httpSlash <+: e.1 := by
    intro e he
    obtain ⟨he, hp⟩ := List.mem_filter.mp he
    exact ⟨he, of_decide_eq_true hp⟩
  have hnodup := m.nodup_entries.filter isStatusEntry
  generalize m.entries.filter isStatusEntry = es at hmem hnodup
  rcases es with - | ⟨e, - | ⟨e', es⟩⟩
  · exact Nat.zero_le 1
  · exact le_refl 1
  · obtain ⟨he, hp⟩ := hmem e List.mem_cons_self
    obtain ⟨he', hp'⟩ := hmem e' (List.mem_cons_of_mem _ List.mem_cons_self)
    have heq := h.status e he e' he' hp hp'
    exact absurd (heq ▸ List.mem_cons_self) (List.nodup_cons.mp hnodup).1

theorem ReadableHeaders.parseHeaders_renderHeaders {m : Headers} (h : ReadableHeaders m) :
    parseHeaders (renderHeaders m) = m := by
  have hperm := List.filter_append_perm isStatusEntry m.entries
  have hlf : ∀ l ∈ (m.entries.filter isStatusEntry ++
      m.entries.filter (fun e => !isStatusEntry e)).map entryText, LF ∉ l := by
    intro l hl
    obtain ⟨e, he, rfl⟩ := List.mem_map.mp hl
    have hentry := h.entry e (hperm.mem_iff.mp he)
    simp [entryText, hentry.lf_notMem_name, hentry.lf_notMem_value, lf_ne_colon]
  have hfields : ∀ e ∈ m.entries.filter isStatusEntry ++
      m.entries.filter (fun e => !isStatusEntry e), FieldOf (entryText e) e.1 e.2 :=
    fun e he => (h.entry e (hperm.mem_iff.mp he)).fieldOf_entryText
  have hothers : ∀ e ∈ m.entries.filter (fun e => !isStatusEntry e), ¬ httpSlash <+: e.1 :=
    fun e he => by simpa [isStatusEntry] using (List.mem_filter.mp he).2
  -- behind the first entry there is none like a status line
  have htail : ∀ e ∈ (m.entries.filter isStatusEntry ++
      m.entries.filter (fun e => !isStatusEntry e)).tail, ¬ httpSlash <+: e.1 := by
    intro e he
    have hone := h.length_status_le
    generalize m.entries.filter isStatusEntry = es at hone he
    rcases es with - | ⟨a, - | ⟨b, es⟩⟩
    · exact hothers e (List.mem_of_mem_tail he)
    · exact hothers e he
    · exact absurd hone (by simp)
  calc parseHeaders (renderHeaders m)
      = ((m.entries.filter isStatusEntry ++
          m.entries.filter (fun e => !isStatusEntry e)).map entryText).foldl parseLine
            OrderedMap.empty := by
        rw [parseHeaders, renderHeaders, getlines_lines hlf]
    _ = OrderedMap.empty.assignAll (m.entries.filter isStatusEntry ++
          m.entries.filter (fun e => !isStatusEntry e)) := foldl_parseLine_empty hfields htail
    _ = m := m.assignAll_perm hperm

/-- The reader returns exactly the readable maps, and each of them for the text that has
one line for each entry. -/
theorem parseHeaders_range (m : Headers) :
    ((∃ text, parseHeaders text = m) ↔ ReadableHeaders m) ∧
      (parseHeaders (renderHeaders m) = m ↔ ReadableHeaders m) := by
  have hread : (∃ text, parseHeaders text = m) → ReadableHeaders m := by
    rintro ⟨text, rfl⟩
    exact readableHeaders_parseHeaders text
  exact ⟨⟨hread, fun h => ⟨renderHeaders m, h.parseHeaders_renderHeaders⟩⟩,
    ⟨fun h => hread ⟨renderHeaders m, h⟩, fun h => h.parseHeaders_renderHeaders⟩⟩

end Curlinho
