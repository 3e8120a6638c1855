import Curlinho.Session.HeaderInjection
import Curlinho.Util.HeaderRange

/-! # Headers handed on

A caller may give the headers of one response to the next request. Whatever text the first
server sent, no line feed gets onto the header list of the second session, and no line
break at all if the carriage returns of the text end its lines.
-/
namespace Curlinho
open Foundation
namespace Session

/-- No line of the text has a carriage return but at its end. -/
def ReturnsEndLines (text : Bytes) : Prop :=
  ∀ line ∈ getlines LF text, ∀ a b, line = a ++ CR :: b → b = []

theorem mem_cstr {c : UInt8} {s : Bytes} (h : c ∈ cstr s) : c ∈ s := List.takeWhile_subset _ h

theorem notMem_of_returnsEndLines {a b : Bytes} {c : UInt8}
    (h : ∀ x y, a ++ c :: b = x ++ CR :: y → y = []) :
    CR ∉ a ∧ ∀ x y, b = x ++ CR :: y → y = [] := by
  constructor
  · intro hm
    obtain ⟨x, y, rfl⟩ := List.append_of_mem hm
    have hnil := h x (y ++ c :: b) (by simp)
    simp at hnil
  · rintro x y rfl
    exact h (a ++ c :: x) y (by simp)

theorem notMem_trimValue {rest : Bytes} (h : ∀ x y, rest = x ++ CR :: y → y = []) :
    CR ∉ trimValue rest := by
  intro hm
  obtain ⟨x, y, hvalue⟩ := List.append_of_mem hm
  obtain ⟨p, q, hrest⟩ := trimValue_inside rest
  -- the carriage return would end the trimmed value
  have hend := h (p ++ x) (y ++ q) (by rw [← hrest, hvalue]; simp)
  obtain ⟨rfl, -⟩ := List.append_eq_nil_iff.mp hend
  have hlast := trimValue_last rest CR (by rw [hvalue, List.getLast?_concat]; rfl)
  exact hlast (by decide)

theorem notMem_parseHeaders {text : Bytes} (htext : ReturnsEndLines text) {e : Bytes × Bytes}
    (he : e ∈ (parseHeaders text).entries) : CR ∉ e.1 ∧ CR ∉ e.2 := by
  obtain ⟨⟨line, hline, -, rest, -, rfl, -⟩, line', hline', name, rest', -, rfl, hvalue⟩ :=
    mem_foldl_parseLine he
  obtain ⟨hname, -⟩ := notMem_of_returnsEndLines (htext _ hline)
  obtain ⟨-, hrest⟩ := notMem_of_returnsEndLines (htext _ hline')
  exact ⟨hname, hvalue ▸ notMem_trimValue hrest⟩

theorem itemLine_cases {item : Bytes} (h : LF ∉ item) :
    itemLine item = [] ∨ ∃ line, LF ∉ line ∧ itemLine item = line ++ [LF] := by
  rcases itemLine_shape item with hnone | hsent | ⟨name, rfl, hsent⟩
  · exact .inl hnone
  · exact .inr ⟨item ++ [CR], by simp [h, lf_ne_cr], by simp [hsent]⟩
  · have hname : LF ∉ name := fun hm => h (List.mem_append_left _ hm)
    exact .inr ⟨name ++ [ch ':', CR], by simp [hname, lf_ne_colon, lf_ne_cr], by simp [hsent]⟩

theorem getlines_sent {wire : Bytes → Bytes} (hwire : SendsLines wire) {items : List Bytes}
    (h : ∀ item ∈ items, LF ∉ item) :
    getlines LF (wireText wire items) =
      ((items.map wire).filter (fun line => line ≠ [])).map List.dropLast := by
  have hline : ∀ item ∈ items, wire item = [] ∨ ∃ line, LF ∉ line ∧ wire item = line ++ [LF] := by
    intro item hitem
    rcases hwire item with hnone | hsent
    · exact .inl hnone
    · exact hsent ▸ itemLine_cases (h item hitem)
  induction items with
  | nil => rfl
  | cons item items ih =>
    have hrest := ih (fun i hi => h i (List.mem_cons_of_mem _ hi))
      (fun i hi => hline i (List.mem_cons_of_mem _ hi))
    rw [wireText, List.flatMap_cons, ← wireText, List.map_cons]
    rcases hline item List.mem_cons_self with hnone | ⟨line, hlf, hsent⟩
    · rw [hnone, List.nil_append, hrest]
      rfl
    · rw [hsent, List.append_assoc, List.singleton_append, getlines_append hlf, hrest,
        List.filter_cons_of_pos (by simp), List.map_cons, List.dropLast_concat]

variable {platform : Platform} {wire : Bytes → Bytes}

/-- The items of the list that the handle names have no line feed, and what they put on the
wire is one line for each of them that is sent. -/
def OneLineEach (wire : Bytes → Bytes) (s : Session) : Prop :=
  ∀ h chunk, s.curl_.handle = some h → h.httpHeader = some chunk →
    ∃ items, s.slists.items chunk = some items ∧ (∀ item ∈ items, LF ∉ item) ∧
      getlines LF (wireText wire items) =
        ((items.map wire).filter (fun line => line ≠ [])).map List.dropLast

/-- In any run in which only headers are set that some response had, whatever else is done
and whatever appends fail, the header list has no line feed and each item that is sent is
one line. If moreover the carriage returns of the texts end their lines, nothing can be
injected. -/
theorem relayed (hwire : SendsLines wire) (url : Url) (addr : Addr) (body : Body)
    (calls : List SessionCall) (texts : List Bytes)
    (hgiven : ∀ H ∈ (calls.map SessionCall.operation).filterMap Operation.headers?,
      ∃ text ∈ texts, parseHeaders text = H) :
    ((newWith platform true url addr body).applyCalls platform calls).OneLineEach wire ∧
      ((∀ text ∈ texts, ReturnsEndLines text) →
        ((newWith platform true url addr body).applyCalls platform calls).InjectionFree wire) := by
  have hlisted := (listed_newWith platform url addr body).applyCalls platform calls
  rw [List.nil_append] at hlisted
  have hentry : ∀ H ∈ (calls.map SessionCall.operation).filterMap Operation.headers?,
      ∀ e ∈ H.entries, ∃ text ∈ texts, e ∈ (parseHeaders text).entries := by
    intro H hH e he
    obtain ⟨text, htext, rfl⟩ := hgiven H hH
    exact ⟨text, htext, he⟩
  constructor
  · intro h chunk hh hchunk
    obtain rfl : chunk = _ :=
      hlisted.kept.named chunk ((httpHeader_headerState hh).mpr hchunk)
    obtain ⟨items, hitems, htext⟩ := hlisted.items
    have hlf : ∀ item ∈ items, LF ∉ item := by
      intro item hitem
      obtain ⟨e, he, rfl⟩ := htext item hitem
      obtain ⟨H, hH, he⟩ := hlisted.mem e he
      obtain ⟨text, -, he⟩ := hentry H hH e he
      have hreadable := readableEntry_parseHeaders he
      rw [notMem_itemText_iff (by decide) (by decide) (by decide)]
      exact ⟨fun hm => hreadable.lf_notMem_name (mem_cstr hm),
        fun _ hm => hreadable.lf_notMem_value (mem_cstr hm)⟩
    exact ⟨items, hitems, hlf, getlines_sent hwire hlf⟩
  · intro hreturns
    refine injectionFree_of_listed hlisted (fun H hH e he => ?_)
    obtain ⟨text, htext, he⟩ := hentry H hH e he
    have hreadable := readableEntry_parseHeaders he
    obtain ⟨hname, hvalue⟩ := notMem_parseHeaders (hreturns text htext) he
    exact ⟨⟨fun hm => hname (mem_cstr hm), fun hm => hreadable.lf_notMem_name (mem_cstr hm)⟩,
      fun _ => ⟨fun hm => hvalue (mem_cstr hm), fun hm => hreadable.lf_notMem_value (mem_cstr hm)⟩⟩

def relayedText : Bytes := str ['A', ':', ' ', 'b'] ++ [CR, LF]

theorem relayedText_lines : getlines LF relayedText = [str ['A', ':', ' ', 'b'] ++ [CR]] := by
  decide

theorem relayed_one :
    let s := (newWith .linux true [] 0 []).applyCalls .linux [.setOption allAppended 1
      ⟨.lvalue, .headers (parseHeaders relayedText)⟩]
    s.OneLineEach wireLine ∧ s.InjectionFree wireLine := by
  have hread := @relayed .linux wireLine sendsLines_wireLine [] 0 [] [.setOption allAppended 1
    ⟨.lvalue, .headers (parseHeaders relayedText)⟩] [relayedText] (by
      intro H hH
      obtain rfl := List.mem_singleton.mp hH
      exact ⟨relayedText, List.mem_cons_self, rfl⟩)
  refine ⟨hread.1, hread.2 (fun text htext line hline a b heq => ?_)⟩
  obtain rfl := List.mem_singleton.mp htext
  obtain rfl := List.mem_singleton.mp (relayedText_lines ▸ hline)
  cases b using List.reverseRecOn with
  | nil => rfl
  | append_singleton b c =>
    rw [← List.cons_append, ← List.append_assoc] at heq
    have hname := (List.append_inj' heq rfl).1
    have hreturn : CR ∈ str ['A', ':', ' ', 'b'] := by rw [hname]; simp
    exact absurd hreturn (by decide)

end Session
end Curlinho
