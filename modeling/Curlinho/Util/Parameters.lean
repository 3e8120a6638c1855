import Curlinho.Util.UrlEncode
import Curlinho.Foundation.Delimited

/-! # Query parameters

`Parameters` accumulates encoded text. A separator is written only when the text
so far is non-empty and an empty value drops its equals sign; reading the text
back recovers the parameters as long as none of them encodes to nothing.
-/
namespace Curlinho
open Foundation

structure Parameter where
  key : Bytes
  value : Bytes
deriving DecidableEq

structure Parameters where
  content : Bytes := []
deriving DecidableEq

namespace Parameters

def addParameter (parameters : Parameters) (parameter : Parameter) : Parameters :=
  let content :=
    if parameters.content ≠ [] then parameters.content ++ [ch '&'] else parameters.content
  let escapedKey := urlEncode parameter.key
  if parameter.value = [] then { content := content ++ escapedKey }
  else
    let escapedValue := urlEncode parameter.value
    { content := content ++ (escapedKey ++ [ch '='] ++ escapedValue) }

def ofList (parameters : List Parameter) : Parameters := parameters.foldl addParameter {}

end Parameters

def encodedParameter (p : Parameter) : Bytes :=
  urlEncode p.key ++ if p.value = [] then [] else ch '=' :: urlEncode p.value

theorem addParameter_content (parameters : Parameters) (p : Parameter) :
    (parameters.addParameter p).content =
      (if parameters.content ≠ [] then parameters.content ++ [ch '&'] else []) ++
        encodedParameter p := by
  unfold Parameters.addParameter encodedParameter
  by_cases hc : parameters.content = [] <;> by_cases hv : p.value = [] <;> simp [hc, hv]

theorem urlEncode_eq_nil {value : Bytes} : urlEncode value = [] ↔ value = [] := by
  constructor
  · intro h
    rw [← percentDecode_urlEncode value, h]
    rfl
  · rintro rfl
    rfl

theorem encodedParameter_eq_nil {p : Parameter} :
    encodedParameter p = [] ↔ p.key = [] ∧ p.value = [] := by
  by_cases hv : p.value = [] <;> simp [encodedParameter, hv, urlEncode_eq_nil]

theorem notMem_urlEncode {c : UInt8} (hkept : keptIntact c = false) (hhex : isHexDigit c = false)
    (hpercent : c ≠ ch '%') (value : Bytes) : c ∉ urlEncode value :=
  (encodedText_urlEncode [] value).notMem hkept hhex hpercent List.not_mem_nil

theorem amp_notMem_encodedParameter (p : Parameter) : ch '&' ∉ encodedParameter p := by
  have henc : ∀ value, ch '&' ∉ urlEncode value :=
    notMem_urlEncode (by decide) (by decide) (by decide)
  have hne : ch '&' ≠ ch '=' := by decide
  unfold encodedParameter
  split <;> simp [henc, hne]

/-- Cut at every separator, the text is the list of contributions after the
leading empty ones, which leave no trace. -/
theorem content_ofList (ps : List Parameter) :
    ((Parameters.ofList ps).content = [] ↔ (ps.map encodedParameter).dropWhile (· = []) = []) ∧
      ((Parameters.ofList ps).content ≠ [] →
        (Parameters.ofList ps).content.splitOn (ch '&') =
          (ps.map encodedParameter).dropWhile (· = [])) := by
  induction ps using List.reverseRecOn with
  | nil => simp [Parameters.ofList]
  | append_singleton ps p ih =>
    obtain ⟨hnil, hsplit⟩ := ih
    have hp : (encodedParameter p).splitOn (ch '&') = [encodedParameter p] :=
      List.splitOn_eq_singleton (amp_notMem_encodedParameter p)
    simp only [Parameters.ofList, List.foldl_append, List.foldl_cons, List.foldl_nil,
      addParameter_content, List.map_append, List.map_cons, List.map_nil,
      List.dropWhile_append] at hnil hsplit ⊢
    by_cases hc : (ps.foldl Parameters.addParameter {}).content = []
    · have hempty : ((ps.map encodedParameter).dropWhile (· = [])).isEmpty = true := by
        rw [hnil.mp hc]
        rfl
      simp only [hc, ne_eq, not_true_eq_false, if_false, List.nil_append, hempty, if_true]
      by_cases hz : encodedParameter p = []
      · simp [hz]
      · simp [hz, hp]
    · have hne : ((ps.map encodedParameter).dropWhile (· = [])).isEmpty = false :=
        List.isEmpty_eq_false_iff.mpr (fun h => hc (hnil.mpr h))
      simp only [ne_eq, hc, not_false_eq_true, if_true, hne, Bool.false_eq_true, if_false]
      refine ⟨by simp [hc], fun _ => ?_⟩
      rw [List.append_assoc, List.singleton_append, List.splitOn_append_cons_self, hsplit hc, hp]

def decodePiece (piece : Bytes) : Parameter where
  key := percentDecode (cutFirst (ch '=') piece).1
  value := percentDecode ((cutFirst (ch '=') piece).2.getD [])

def decodeQuery (text : Bytes) : List Parameter :=
  if text = [] then [] else (text.splitOn (ch '&')).map decodePiece

theorem decodePiece_encodedParameter (p : Parameter) : decodePiece (encodedParameter p) = p := by
  have hkey : ch '=' ∉ urlEncode p.key :=
    notMem_urlEncode (by decide) (by decide) (by decide) p.key
  unfold encodedParameter decodePiece
  by_cases hv : p.value = []
  · simp only [hv, if_true, List.append_nil, cutFirst_of_notMem hkey, Option.getD_none,
      percentDecode_urlEncode, percentDecode]
    exact congrArg (Parameter.mk p.key) hv.symm
  · simp [hv, cutFirst_append hkey]

theorem decodeQuery_ofList {ps : List Parameter} (h : ∀ p ∈ ps, ¬ (p.key = [] ∧ p.value = [])) :
    decodeQuery (Parameters.ofList ps).content = ps := by
  have hdrop : (ps.map encodedParameter).dropWhile (· = []) = ps.map encodedParameter := by
    cases ps with
    | nil => rfl
    | cons p ps =>
      have hp : encodedParameter p ≠ [] := fun hz =>
        h p List.mem_cons_self (encodedParameter_eq_nil.mp hz)
      simp [hp]
  obtain ⟨hnil, hsplit⟩ := content_ofList ps
  unfold decodeQuery
  split
  · next hc =>
    rw [hdrop] at hnil
    simpa using (hnil.mp hc).symm
  · next hc =>
    rw [hsplit hc, hdrop, List.map_map]
    simp [Function.comp_def, decodePiece_encodedParameter]

theorem encodedText_encodedParameter (p : Parameter) :
    EncodedText [ch '&', ch '='] (encodedParameter p) := by
  unfold encodedParameter
  refine (encodedText_urlEncode _ _).append ?_
  split
  · exact EncodedText.nil
  · exact EncodedText.plain (Or.inr (by simp)) (encodedText_urlEncode _ _)

theorem encodedText_addParameter {parameters : Parameters}
    (h : EncodedText [ch '&', ch '='] parameters.content) (p : Parameter) :
    EncodedText [ch '&', ch '='] (parameters.addParameter p).content := by
  rw [addParameter_content]
  refine EncodedText.append ?_ (encodedText_encodedParameter p)
  split
  · exact h.append (EncodedText.plain (Or.inr (by simp)) EncodedText.nil)
  · exact EncodedText.nil

theorem encodedText_ofList (ps : List Parameter) :
    EncodedText [ch '&', ch '='] (Parameters.ofList ps).content := by
  induction ps using List.reverseRecOn with
  | nil => exact EncodedText.nil
  | append_singleton ps p ih =>
    simp only [Parameters.ofList, List.foldl_append, List.foldl_cons, List.foldl_nil]
    exact encodedText_addParameter ih p

/-- Parameters built by the constructor and any further `addParameter` calls are
read back in order, and their text stays within the query alphabet. -/
theorem decodeQuery_content (ps qs : List Parameter)
    (h : ∀ p ∈ ps ++ qs, ¬ (p.key = [] ∧ p.value = [])) :
    decodeQuery (qs.foldl Parameters.addParameter (Parameters.ofList ps)).content = ps ++ qs ∧
      EncodedText [ch '&', ch '=']
        (qs.foldl Parameters.addParameter (Parameters.ofList ps)).content := by
  have hfold : qs.foldl Parameters.addParameter (Parameters.ofList ps) =
      Parameters.ofList (ps ++ qs) := by
    simp [Parameters.ofList, List.foldl_append]
  rw [hfold]
  exact ⟨decodeQuery_ofList h, encodedText_ofList _⟩

theorem decodeQuery_content_two :
    decodeQuery ([⟨[], str ['&']⟩].foldl Parameters.addParameter
        (Parameters.ofList [⟨str ['q', '='], [0, 0xFF]⟩])).content =
          [⟨str ['q', '='], [0, 0xFF]⟩, ⟨[], str ['&']⟩] ∧
      EncodedText [ch '&', ch '='] ([⟨[], str ['&']⟩].foldl Parameters.addParameter
        (Parameters.ofList [⟨str ['q', '='], [0, 0xFF]⟩])).content :=
  decodeQuery_content [⟨str ['q', '='], [0, 0xFF]⟩] [⟨[], str ['&']⟩] (by decide)

end Curlinho
