import Curlinho.Foundation.Delimited
import Curlinho.Util.Bytes

/-! # Splitting

`split` reads pieces up to a delimiter until the stream ends, as the header reader does
with lines. It loses whether the text ended with a delimiter, and nothing else.
-/
namespace Curlinho
open Foundation

namespace util

def split (to_split : Bytes) (delimiter : UInt8) : List Bytes := getlines delimiter to_split

end util

theorem intercalate_concat (d : UInt8) (init : List Bytes) (last : Bytes) :
    [d].intercalate (init ++ [last]) = init.flatMap (fun t => t ++ [d]) ++ last := by
  induction init with
  | nil => simp
  | cons t init ih =>
    rw [List.cons_append, List.intercalate_cons_of_ne_nil (by simp), ih]
    simp

/-- The pieces with delimiters between them are the text, but for a delimiter at its end. -/
theorem intercalate_split (s : Bytes) (d : UInt8) :
    s = [d].intercalate (util.split s d) ++ if s.getLast? = some d then [d] else [] := by
  obtain ⟨init, rest, -, hrest, hs, hsplit⟩ := exists_getlines_eq d s
  rw [util.split, hsplit]
  by_cases hnil : rest = []
  · subst hnil
    rw [if_pos rfl, List.append_nil]
    cases init using List.reverseRecOn with
    | nil =>
      rw [hs]
      rfl
    | append_singleton init last =>
      have htext : s = [d].intercalate (init ++ [last]) ++ [d] := by
        rw [hs, intercalate_concat]
        simp
      rw [if_pos (by rw [htext, List.getLast?_concat])]
      exact htext
  · have hlast : s.getLast? ≠ some d := by
      rw [hs, List.getLast?_append_of_ne_nil _ hnil]
      exact fun h => hrest (List.mem_of_mem_getLast? h)
    rw [if_neg hnil, if_neg hlast, List.append_nil, intercalate_concat]
    exact hs

theorem split_intercalate_iff (ts : List Bytes) (d : UInt8) :
    util.split ([d].intercalate ts) d = ts ↔ (∀ t ∈ ts, d ∉ t) ∧ ts.getLast? ≠ some [] := by
  constructor
  · intro h
    have hnot : ∀ t ∈ ts, d ∉ t := fun t ht => notMem_of_mem_getlines (h ▸ ht)
    refine ⟨hnot, fun hlast => ?_⟩
    -- an empty last piece is read as the end of the one before
    obtain ⟨init, rfl⟩ := List.getLast?_eq_some_iff.mp hlast
    have hlines := getlines_lines (fun t ht => hnot t (List.mem_append_left [[]] ht))
    rw [util.split, intercalate_concat, List.append_nil, hlines] at h
    exact absurd (congrArg List.length h) (by simp)
  · rintro ⟨hnot, hlast⟩
    cases ts using List.reverseRecOn with
    | nil => rfl
    | append_singleton init last =>
      rw [List.getLast?_concat, ne_eq, Option.some.injEq] at hlast
      have hlines := getlines_flatMap init
        (fun t ht => hnot t (List.mem_append_left _ ht)) last
      rw [getlines_of_notMem (hnot last (by simp)) hlast] at hlines
      rw [util.split, intercalate_concat, hlines]

/-- Splitting and joining undo each other up to a final delimiter or a final empty piece. -/
theorem split_join (d : UInt8) :
    (∀ s : Bytes, s = [d].intercalate (util.split s d) ++ if s.getLast? = some d then [d] else []) ∧
      ∀ ts : List Bytes, util.split ([d].intercalate ts) d = ts ↔
        (∀ t ∈ ts, d ∉ t) ∧ ts.getLast? ≠ some [] :=
  ⟨fun s => intercalate_split s d, fun ts => split_intercalate_iff ts d⟩

end Curlinho
