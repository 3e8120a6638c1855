import Curlinho.Session.Transfer
import Curlinho.Foundation.Delimited

/-! # The URL of a request

The query parameters are attached to the session's URL by concatenation. The
components of the result are those that the caller meant exactly when the URL has no
query, no fragment and no NUL of its own.
-/
namespace Curlinho
open Foundation

def fragment (u : Bytes) : Option Bytes := (cutFirst (ch '#') u).2

def query (u : Bytes) : Option Bytes := (cutFirst (ch '?') (cutFirst (ch '#') u).1).2

def hierPart (u : Bytes) : Bytes := (cutFirst (ch '?') (cutFirst (ch '#') u).1).1

def queryPieces (u : Bytes) : List Bytes :=
  match query u with
  | none => []
  | some q => q.splitOn (ch '&')

/-- `w` is `u` with the encoded parameters added to its query. -/
structure UrlExtends (u w : Bytes) (ps : List Parameter) : Prop where
  hierPart : hierPart w = hierPart u
  fragment : fragment w = fragment u
  query : queryPieces w = queryPieces u ++ ps.map encodedParameter

theorem length_splitOn (c : UInt8) (l : Bytes) : (l.splitOn c).length = l.count c + 1 := by
  induction l with
  | nil => simp
  | cons b l ih =>
    rw [List.splitOn_cons_eq_if_modifyHead, List.count_cons]
    split <;> simp_all

theorem query_of_notMem {u : Bytes} (hf : ch '#' ∉ u) : query u = (cutFirst (ch '?') u).2 := by
  rw [query, cutFirst_of_notMem hf]

theorem notMem_content (ps : List Parameter) {c : UInt8} (hkept : keptIntact c = false)
    (hhex : isHexDigit c = false) (hpercent : c ≠ ch '%') (hsep : c ∉ [ch '&', ch '=']) :
    c ∉ (Parameters.ofList ps).content :=
  (encodedText_ofList ps).notMem hkept hhex hpercent hsep

theorem count_amp_content {ps : List Parameter} (h : (Parameters.ofList ps).content ≠ []) :
    (Parameters.ofList ps).content.count (ch '&') < ps.length := by
  have hsplit := congrArg List.length ((content_ofList ps).2 h)
  have hdrop : ((ps.map encodedParameter).dropWhile (· = [])).length ≤
      (ps.map encodedParameter).length := (List.dropWhile_sublist _).length_le
  rw [length_splitOn] at hsplit
  rw [List.length_map] at hdrop
  omega

namespace Session

theorem cstr_requestUrl {u : Url} (hu : 0 ∉ u) {ps : List Parameter}
    (h : (Parameters.ofList ps).content ≠ []) :
    cstr (requestUrl u (Parameters.ofList ps).content) =
      u ++ ch '?' :: (Parameters.ofList ps).content := by
  have hc : (0 : UInt8) ∉ (Parameters.ofList ps).content :=
    notMem_content ps (by decide) (by decide) (by decide) (by decide)
  have hq : (0 : UInt8) ≠ ch '?' := by decide
  rw [requestUrl, if_pos h]
  exact cstr_of_notMem (by simp [hu, hc, hq])

/-- The query text makes a difference unless a NUL in the URL hides it. -/
theorem cstr_requestUrl_eq_iff (u : Url) (content : Bytes) :
    cstr (requestUrl u content) = cstr (requestUrl u []) ↔ content = [] ∨ 0 ∈ u := by
  by_cases hc : content = []
  · simp only [hc, true_or]
  · rw [requestUrl, if_pos hc, requestUrl, if_neg (not_not.mpr rfl)]
    by_cases hu : 0 ∈ u
    · simp [cstr_append_of_mem hu, hu]
    · have hlength : (u ++ cstr (ch '?' :: content)).length ≠ u.length := by
        have hq : cstr (ch '?' :: content) = ch '?' :: cstr content := by
          simp [cstr, show ch '?' ≠ 0 by decide]
        rw [hq, List.length_append, List.length_cons]
        omega
      rw [cstr_append_of_notMem hu, cstr_of_notMem hu]
      simp only [hc, hu, or_false, iff_false]
      exact fun h => hlength (congrArg List.length h)

theorem not_urlExtends_of_nul {u : Url} (hu : 0 ∈ u) {ps : List Parameter}
    (h : (Parameters.ofList ps).content ≠ []) :
    ¬ UrlExtends u (cstr (requestUrl u (Parameters.ofList ps).content)) ps := by
  have hps := count_amp_content h
  obtain ⟨a, b, rfl, ha⟩ := List.eq_append_cons_of_mem hu
  have hw : cstr (requestUrl (a ++ 0 :: b) (Parameters.ofList ps).content) = a := by
    rw [requestUrl, if_pos h, List.append_assoc, cstr_append_of_notMem ha]
    simp [cstr]
  rw [hw]
  rintro ⟨-, hfrag, hquery⟩
  have hlen := congrArg List.length hquery
  rw [List.length_append, List.length_map] at hlen
  have hhash : (0 : UInt8) ≠ ch '#' := by decide
  have hmark : (0 : UInt8) ≠ ch '?' := by decide
  rcases cutFirst_cases (ch '#') a with ⟨hna, hcut⟩ | ⟨x, y, hx, rfl, hcut⟩
  · -- the fragments force `b` to have no `#`, so `a` is a proper prefix of the query part
    rw [fragment, fragment, hcut, cutFirst_append_of_notMem hna] at hfrag
    have hnb : ch '#' ∉ 0 :: b := by
      rcases cutFirst_cases (ch '#') (0 :: b) with ⟨hnb, -⟩ | ⟨_, _, _, _, hcut'⟩
      · exact hnb
      · rw [hcut'] at hfrag
        cases hfrag
    have hnab : ch '#' ∉ a ++ 0 :: b := by simpa using ⟨hna, by simpa using hnb⟩
    rw [queryPieces, queryPieces, query_of_notMem hna, query_of_notMem hnab] at hlen
    rcases cutFirst_cases (ch '?') a with ⟨hqa, hcutq⟩ | ⟨x, y, hx, rfl, hcutq⟩
    · rw [hcutq] at hlen
      simp only [List.length_nil] at hlen
      omega
    · rw [hcutq, List.append_assoc, List.cons_append, cutFirst_append hx] at hlen
      simp only [length_splitOn, List.count_append] at hlen
      omega
  · rw [fragment, fragment, hcut, List.append_assoc, List.cons_append, cutFirst_append hx] at hfrag
    have hl := congrArg (fun o => (o.getD []).length) hfrag
    simp at hl

theorem hash_notMem_query (ps : List Parameter) :
    ch '#' ∉ ch '?' :: (Parameters.ofList ps).content := by
  have hne : ch '#' ≠ ch '?' := by decide
  have hc : ch '#' ∉ (Parameters.ofList ps).content :=
    notMem_content ps (by decide) (by decide) (by decide) (by decide)
  simp [hne, hc]

/-- Everything behind the first `#` is fragment. -/
theorem not_urlExtends_of_hash {u : Url} (hf : ch '#' ∈ u) (ps : List Parameter) :
    ¬ UrlExtends u (u ++ ch '?' :: (Parameters.ofList ps).content) ps := by
  rcases cutFirst_cases (ch '#') u with ⟨hnone, -⟩ | ⟨x, y, hx, rfl, -⟩
  · exact absurd hf hnone
  · rintro ⟨-, hfrag, -⟩
    rw [fragment, fragment, List.append_assoc, List.cons_append, cutFirst_append hx,
      cutFirst_append hx] at hfrag
    have hl := congrArg (fun o => (o.getD []).length) hfrag
    simp at hl

theorem not_urlExtends_of_mark {u : Url} (hf : ch '#' ∉ u) (hq : ch '?' ∈ u) {ps : List Parameter}
    (h : (Parameters.ofList ps).content ≠ []) :
    ¬ UrlExtends u (u ++ ch '?' :: (Parameters.ofList ps).content) ps := by
  have hcount := count_amp_content h
  have hfw : ch '#' ∉ u ++ ch '?' :: (Parameters.ofList ps).content := by
    simpa using ⟨hf, by simpa using hash_notMem_query ps⟩
  rcases cutFirst_cases (ch '?') u with ⟨hnone, -⟩ | ⟨x, y, hx, rfl, hcut⟩
  · exact absurd hq hnone
  · rintro ⟨-, -, hquery⟩
    have hlen := congrArg List.length hquery
    rw [queryPieces, queryPieces, query_of_notMem hfw, query_of_notMem hf, hcut,
      List.append_assoc, List.cons_append, cutFirst_append hx] at hlen
    have hne : (ch '?' == ch '&') = false := by decide
    simp only [length_splitOn, List.count_append, List.count_cons, hne, Bool.false_eq_true,
      if_false, List.length_append, List.length_map] at hlen
    omega

theorem dropWhile_encodedParameter_iff (ps : List Parameter) :
    (ps.map encodedParameter).dropWhile (· = []) = ps.map encodedParameter ↔
      ∀ p ∈ ps.head?, ¬ (p.key = [] ∧ p.value = []) := by
  cases ps with
  | nil => simp
  | cons p ps =>
    rw [List.map_cons, List.dropWhile_eq_self_iff]
    simp [encodedParameter_eq_nil]

/-- A URL without a query and a fragment takes the parameters as its query; only pairs
of empty strings in front are lost. -/
theorem urlExtends_append_iff {u : Url} (hf : ch '#' ∉ u) (hq : ch '?' ∉ u) {ps : List Parameter}
    (h : (Parameters.ofList ps).content ≠ []) :
    UrlExtends u (u ++ ch '?' :: (Parameters.ofList ps).content) ps ↔
      ∀ p ∈ ps.head?, ¬ (p.key = [] ∧ p.value = []) := by
  obtain ⟨-, hsplit⟩ := content_ofList ps
  have hfw : ch '#' ∉ u ++ ch '?' :: (Parameters.ofList ps).content := by
    simpa using ⟨hf, by simpa using hash_notMem_query ps⟩
  have hcut := cutFirst_of_notMem hq
  have hpieces : queryPieces (u ++ ch '?' :: (Parameters.ofList ps).content) =
      (ps.map encodedParameter).dropWhile (· = []) := by
    rw [queryPieces, query_of_notMem hfw, cutFirst_append hq]
    exact hsplit h
  have hnone : queryPieces u = [] := by rw [queryPieces, query_of_notMem hf, hcut]
  constructor
  · rintro ⟨-, -, hquery⟩
    rw [hpieces, hnone, List.nil_append] at hquery
    exact (dropWhile_encodedParameter_iff ps).mp hquery
  · intro hcond
    refine ⟨?_, ?_, ?_⟩
    · rw [hierPart, hierPart, cutFirst_of_notMem hfw, cutFirst_of_notMem hf, cutFirst_append hq,
        hcut]
    · rw [fragment, fragment, cutFirst_of_notMem hfw, cutFirst_of_notMem hf]
    · rw [hpieces, hnone, List.nil_append, (dropWhile_encodedParameter_iff ps).mpr hcond]

theorem urlExtends_requestUrl_iff (u : Url) {ps : List Parameter}
    (h : (Parameters.ofList ps).content ≠ []) :
    UrlExtends u (cstr (requestUrl u (Parameters.ofList ps).content)) ps ↔
      0 ∉ u ∧ ch '?' ∉ u ∧ ch '#' ∉ u ∧
        ∀ p ∈ ps.head?, ¬ (p.key = [] ∧ p.value = []) := by
  by_cases hu : 0 ∈ u
  · exact iff_of_false (not_urlExtends_of_nul hu h) (fun hcond => hcond.1 hu)
  rw [cstr_requestUrl hu h]
  by_cases hf : ch '#' ∈ u
  · exact iff_of_false (not_urlExtends_of_hash hf ps) (fun hcond => hcond.2.2.1 hf)
  by_cases hq : ch '?' ∈ u
  · exact iff_of_false (not_urlExtends_of_mark hf hq h) (fun hcond => hcond.2.1 hq)
  rw [urlExtends_append_iff hf hq h]
  exact ⟨fun hcond => ⟨hu, hq, hf, hcond⟩, fun hcond => hcond.2.2.2⟩

theorem makeRequest_url {s : Session} {h : Handle} (hs : s.curl_.handle = some h) (mem : Memory)
    (t : Transfer) :
    (s.makeRequest mem t).request.bind Request.url =
      some (cstr (requestUrl s.url_ s.parameters_.content)) := by
  simp only [makeRequest, setopt, hs, Option.map_some]
  split <;> rfl

/-- The URL that `makeRequest` hands to libcurl is the session's URL with the encoded
parameters added to its query if and only if the URL has no NUL, `?` or `#` and the
first parameter is not a pair of empty strings. -/
theorem makeRequest_urlExtends_iff {s : Session} {h : Handle} (hs : s.curl_.handle = some h)
    (u : Url) (ps : List Parameter) (hps : (Parameters.ofList ps).content ≠ []) (mem : Memory)
    (t : Transfer) :
    (∃ w, (((s.setUrl u).setParameters (Parameters.ofList ps)).makeRequest mem t).request.bind
        Request.url = some w ∧ UrlExtends u w ps) ↔
      0 ∉ u ∧ ch '?' ∉ u ∧ ch '#' ∉ u ∧ ∀ p ∈ ps.head?, ¬ (p.key = [] ∧ p.value = []) := by
  have hs' : ((s.setUrl u).setParameters (Parameters.ofList ps)).curl_.handle = some h := hs
  rw [makeRequest_url hs', ← urlExtends_requestUrl_iff u hps]
  simp [setUrl, setParameters]

theorem makeRequest_urlExtends_iff_plain :
    (∃ w, ((((new ⟨false, false, [], true⟩ true).setUrl (str ['h', '/', 'p'])).setParameters
        (Parameters.ofList [⟨str ['b'], str ['c']⟩])).makeRequest (fun _ => []) {}).request.bind
          Request.url = some w ∧ UrlExtends (str ['h', '/', 'p']) w [⟨str ['b'], str ['c']⟩]) ↔
      0 ∉ str ['h', '/', 'p'] ∧ ch '?' ∉ str ['h', '/', 'p'] ∧ ch '#' ∉ str ['h', '/', 'p'] ∧
        ∀ p ∈ [(⟨str ['b'], str ['c']⟩ : Parameter)].head?, ¬ (p.key = [] ∧ p.value = []) :=
  makeRequest_urlExtends_iff (s := new ⟨false, false, [], true⟩ true) rfl (str ['h', '/', 'p'])
    [⟨str ['b'], str ['c']⟩] (by decide) (fun _ => []) {}

/-- A URL that has a query of its own gets a second question mark. -/
theorem not_urlExtends_of_query :
    ¬ ∃ w, ((((new ⟨false, false, [], true⟩ true).setUrl (str ['h', '?', 'a'])).setParameters
        (Parameters.ofList [⟨str ['b'], str ['c']⟩])).makeRequest (fun _ => []) {}).request.bind
          Request.url = some w ∧ UrlExtends (str ['h', '?', 'a']) w [⟨str ['b'], str ['c']⟩] := by
  rintro ⟨w, hw, hext⟩
  have hurl : ((((new ⟨false, false, [], true⟩ true).setUrl (str ['h', '?', 'a'])).setParameters
      (Parameters.ofList [⟨str ['b'], str ['c']⟩])).makeRequest (fun _ => []) {}).request.bind
        Request.url = some (str ['h', '?', 'a', '?', 'b', '=', 'c']) := by decide
  obtain rfl : str ['h', '?', 'a', '?', 'b', '=', 'c'] = w := Option.some.inj (hurl.symm.trans hw)
  have hpieces : queryPieces (str ['h', '?', 'a', '?', 'b', '=', 'c']) =
      [str ['a', '?', 'b', '=', 'c']] := by decide
  have hown : queryPieces (str ['h', '?', 'a']) = [str ['a']] := by decide
  have hquery := hext.query
  rw [hpieces, hown] at hquery
  exact absurd (congrArg List.length hquery) (by simp)

end Session
end Curlinho
