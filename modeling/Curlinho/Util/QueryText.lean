import Curlinho.Util.Parameters

/-! # What a query text says

Parameters with neither key nor value leave no trace in front of the others, and are kept
between and behind them. Apart from that the text determines the parameters, so that the
texts `Parameters` builds are those that are written again after they were read.
-/
namespace Curlinho
open Foundation

def Parameter.isBlank (p : Parameter) : Bool := decide (p.key = [] ∧ p.value = [])

namespace Parameters

theorem dropWhile_encodedParameter (ps : List Parameter) :
    (ps.map encodedParameter).dropWhile (· = []) =
      (ps.dropWhile Parameter.isBlank).map encodedParameter := by
  rw [List.dropWhile_map]
  have hblank : ((fun b : Bytes => decide (b = [])) ∘ encodedParameter) = Parameter.isBlank :=
    funext (fun p => decide_eq_decide.mpr encodedParameter_eq_nil)
  rw [hblank]

theorem content_eq_intercalate (ps : List Parameter) :
    (ofList ps).content =
      [ch '&'].intercalate ((ps.dropWhile Parameter.isBlank).map encodedParameter) := by
  obtain ⟨hnil, hsplit⟩ := content_ofList ps
  rw [dropWhile_encodedParameter] at hnil hsplit
  by_cases hc : (ofList ps).content = []
  · rw [hc, hnil.mp hc]
    rfl
  · rw [← hsplit hc, List.intercalate_splitOn]

theorem decodeQuery_content_ofList (ps : List Parameter) :
    decodeQuery (ofList ps).content = ps.dropWhile Parameter.isBlank := by
  obtain ⟨hnil, hsplit⟩ := content_ofList ps
  rw [dropWhile_encodedParameter] at hnil hsplit
  unfold decodeQuery
  split
  · next hc => exact (List.map_eq_nil_iff.mp (hnil.mp hc)).symm
  · next hc =>
    rw [hsplit hc, List.map_map]
    simp [Function.comp_def, decodePiece_encodedParameter]

@[simp] theorem content_dropWhile (ps : List Parameter) :
    (ofList (ps.dropWhile Parameter.isBlank)).content = (ofList ps).content := by
  rw [content_eq_intercalate, content_eq_intercalate, List.dropWhile_idempotent]

/-- Reading a text gives the parameters after the leading blanks, two lists of parameters
have one text exactly if they agree after these, and a text is that of some list exactly if
it is that of the list read from it. -/
theorem content_determines (ps : List Parameter) (text : Bytes) :
    decodeQuery (ofList ps).content = ps.dropWhile Parameter.isBlank ∧
      (∀ qs, (ofList qs).content = (ofList ps).content ↔
        qs.dropWhile Parameter.isBlank = ps.dropWhile Parameter.isBlank) ∧
      ((∃ qs, (ofList qs).content = text) ↔ (ofList (decodeQuery text)).content = text) := by
  refine ⟨decodeQuery_content_ofList ps, fun qs => ⟨fun h => ?_, fun h => ?_⟩,
    ⟨fun h => ?_, fun h => ⟨_, h⟩⟩⟩
  · rw [← decodeQuery_content_ofList, h, decodeQuery_content_ofList]
  · rw [content_eq_intercalate, h, ← content_eq_intercalate]
  · obtain ⟨qs, rfl⟩ := h
    rw [decodeQuery_content_ofList, content_dropWhile]

end Parameters
end Curlinho
