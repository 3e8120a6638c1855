import Curlinho.Foundation.MapEntries
import Curlinho.Session.Told

/-! # Header options taken together

Header options given one after the other come to their union, the newest first. Where
setters follow each other without a request between them, all the header options among
them may be given as one, and the session sends the same ever after.
-/
namespace Curlinho
open Foundation

/-- A call of a setter: the outcomes of its appends, where its argument lies, and the argument. -/
structure Setter where
  ok : ℕ → Bool
  addr : Addr
  arg : Arg

namespace Setter

def call (c : Setter) : SessionCall := .setOption c.ok c.addr c.arg

def isHeaders (c : Setter) : Bool := c.arg.object.headers?.isSome

def withHeaders (c : Setter) (headers : Headers) : Setter :=
  { c with arg := { c.arg with object := .headers headers } }

/-- The headers of a sequence of setters, an entry of a newer option before those of older ones. -/
def united (setters : List Setter) : Headers :=
  (setters.filterMap (fun c => c.arg.object.headers?)).foldl (fun m h => h.union m) OrderedMap.empty

/-- The setters with all header options given at once, in place of the last one, at the end. -/
def gathered (setters : List Setter) : List Setter :=
  setters.filter (fun c => !c.isHeaders) ++
    ((setters.filter isHeaders).getLast?.map (fun c => c.withHeaders (united setters))).toList

theorem isHeaders_iff (c : Setter) : c.isHeaders = true ↔ ∃ h, c.arg.object = .headers h := by
  obtain ⟨ok, addr, category, object⟩ := c
  cases object <;> simp [isHeaders, OptionObject.headers?]

theorem withHeaders_self {c : Setter} {h : Headers} (hc : c.arg.object = .headers h) :
    c.withHeaders h = c := by
  obtain ⟨ok, addr, category, object⟩ := c
  cases hc
  rfl

theorem isHeaders_eq_true {c : Setter} {h : Headers} (hc : c.arg.object = .headers h) :
    c.isHeaders = true := c.isHeaders_iff.mpr ⟨h, hc⟩

theorem united_of_none {setters : List Setter} (h : (setters.filter isHeaders).getLast? = none) :
    united setters = OrderedMap.empty := by
  have hnone : setters.filterMap (fun c => c.arg.object.headers?) = [] := by
    rw [List.getLast?_eq_none_iff, List.filter_eq_nil_iff] at h
    rw [List.filterMap_eq_nil_iff]
    exact fun c hc => Option.not_isSome_iff_eq_none.mp (h c hc)
  rw [united, hnone, List.foldl_nil]

theorem gathered_concat_headers (setters : List Setter) {c : Setter} {h : Headers}
    (hc : c.arg.object = .headers h) :
    gathered (setters ++ [c]) =
      setters.filter (fun c => !c.isHeaders) ++ [c.withHeaders (h.union (united setters))] := by
  simp [gathered, united, List.filter_append, isHeaders_eq_true hc, hc, OptionObject.headers?]

theorem gathered_concat_other (setters : List Setter) {c : Setter} (hc : c.isHeaders = false) :
    gathered (setters ++ [c]) =
      setters.filter (fun c => !c.isHeaders) ++ [c] ++
        ((setters.filter isHeaders).getLast?.map
          (fun c => c.withHeaders (united setters))).toList := by
  have hnone : c.arg.object.headers? = none := by simpa [isHeaders] using hc
  simp [gathered, united, List.filter_append, hc, hnone]

end Setter

namespace Session

theorem mergeHeaders_eq_union (headers old : Headers) :
    mergeHeaders headers old = headers.union old := by
  rw [mergeHeaders, OrderedMap.insertAll_entries]
  rfl

end Session

namespace Told
open Setter

def tell (τ : Told) (c : Setter) : Told := τ.apply c.ok c.addr c.arg

def tellAll (τ : Told) (setters : List Setter) : Told := setters.foldl tell τ

@[simp] theorem tellAll_append (τ : Told) (setters more : List Setter) :
    τ.tellAll (setters ++ more) = (τ.tellAll setters).tellAll more := List.foldl_append

/-- Two header options in a row come to the second, over its union with the first. -/
theorem tell_withHeaders (τ : Told) (c d : Setter) (h g : Headers) :
    (τ.tell (d.withHeaders g)).tell (c.withHeaders h) = τ.tell (c.withHeaders (h.union g)) := by
  have hmerge : Session.mergeHeaders h (Session.mergeHeaders g τ.settings.headers) =
      Session.mergeHeaders (h.union g) τ.settings.headers := by
    simp only [Session.mergeHeaders_eq_union, OrderedMap.union_assoc]
  simp only [tell, withHeaders, apply, Settings.apply, hmerge]

theorem tell_comm (τ : Told) {c : Setter} (hc : c.isHeaders = false) (d : Setter) (g : Headers) :
    (τ.tell (d.withHeaders g)).tell c = (τ.tell c).tell (d.withHeaders g) := by
  obtain ⟨ok, addr, category, object⟩ := c
  cases object with
  | headers h => cases hc
  | _ => rfl

theorem tellAll_gathered (τ : Told) (setters : List Setter) :
    τ.tellAll (gathered setters) = τ.tellAll setters := by
  induction setters using List.reverseRecOn with
  | nil => rfl
  | append_singleton setters c ih =>
    rw [tellAll_append, ← ih]
    by_cases hc : ∃ h, c.arg.object = .headers h
    · obtain ⟨h, hobject⟩ := hc
      rw [gathered_concat_headers setters hobject, gathered, tellAll_append, tellAll_append]
      cases hlast : (setters.filter isHeaders).getLast? with
      | none =>
        rw [united_of_none hlast, OrderedMap.union_empty, withHeaders_self hobject]
        rfl
      | some d =>
        rw [← withHeaders_self hobject]
        exact (tell_withHeaders _ c d h (united setters)).symm
    · have hother : c.isHeaders = false := by rwa [← c.isHeaders_iff, Bool.not_eq_true] at hc
      rw [gathered_concat_other setters hother, gathered]
      simp only [tellAll_append]
      cases (setters.filter isHeaders).getLast? with
      | none => rfl
      | some d => exact (tell_comm _ hother d (united setters)).symm

end Told

namespace Session
variable {platform : Platform} {s : Session} {τ : Told}

theorem requestsSent_append (s : Session) (calls more : List SessionCall) :
    s.requestsSent platform (calls ++ more) =
      s.requestsSent platform calls ++
        (s.applyCalls platform calls).requestsSent platform more := by
  induction calls generalizing s with
  | nil => rfl
  | cons call calls ih =>
    simp only [List.cons_append, requestsSent, ih, List.append_assoc]
    rfl

theorem requestsSent_setters (s : Session) (setters : List Setter) :
    s.requestsSent platform (setters.map Setter.call) = [] := by
  induction setters generalizing s with
  | nil => rfl
  | cons c setters ih => exact ih _

theorem Follows.applyCalls (hf : s.Follows platform τ) (calls : List SessionCall) :
    (s.applyCalls platform calls).Follows platform (calls.foldl Told.applyCall τ) := by
  induction calls generalizing s τ with
  | nil => exact hf
  | cons call calls ih => exact ih (hf.applyCall call)

theorem Follows.tellAll (hf : s.Follows platform τ) (setters : List Setter) :
    (s.applyCalls platform (setters.map Setter.call)).Follows platform (τ.tellAll setters) := by
  have h := hf.applyCalls (setters.map Setter.call)
  rwa [List.foldl_map] at h

/-- However many header options are given between two requests, in whatever mixture with
other setters and with whatever outcomes of their appends, giving their union in place of
the last one leads to the same requests ever after. -/
theorem requestsSent_gathered (url : Url) (addr : Addr) (body : Body)
    (before after : List SessionCall) (setters : List Setter) :
    (newWith platform true url addr body).requestsSent platform
        (before ++ (Setter.gathered setters).map Setter.call ++ after) =
      (newWith platform true url addr body).requestsSent platform
        (before ++ setters.map Setter.call ++ after) := by
  have hnew : Follows platform _ _ := follows_newWith url addr body
  have hbefore := hnew.applyCalls before
  have hgathered := hbefore.tellAll (Setter.gathered setters)
  have hone := hbefore.tellAll setters
  rw [Told.tellAll_gathered] at hgathered
  simp only [requestsSent_append, requestsSent_setters, List.append_nil, applyCalls,
    List.foldl_append]
  exact congrArg _ (hgathered.requestsSent_eq hone after)

end Session
end Curlinho
