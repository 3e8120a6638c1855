import Curlinho.Session.History

/-! # The frame of a call

The option objects of a call have buffers of their own, and a session may keep the
addresses of these buffers. What the setters leave in an object never changes the
bytes that such an address is read for.
-/
namespace Curlinho
open Foundation

/-- The buffers of an activation: the body is at 0, the `i`-th option at `i + 1`. -/
def frameMemory (body : Body) (objects : List OptionObject) : Memory
  | 0 => body
  | i + 1 => (objects[i]?.map OptionObject.text).getD []

/-- What `SetOption` leaves in its argument. -/
def Arg.remaining (arg : Arg) : OptionObject :=
  match arg.object with
  | .parameters p => if arg.category = .rvalue then .parameters {} else .parameters p
  | object => object

theorem Arg.remaining_cases (arg : Arg) : arg.remaining = arg.object ∨
    ∃ p, arg.object = .parameters p ∧ arg.remaining = .parameters {} := by
  obtain ⟨category, object⟩ := arg
  cases object with
  | parameters p =>
    by_cases h : category = .rvalue
    · exact .inr ⟨p, rfl, if_pos h⟩
    · exact .inl (if_neg h)
  | _ => exact .inl rfl

@[simp] theorem text_remaining (arg : Arg) : arg.remaining.text = arg.object.text := by
  rcases arg.remaining_cases with h | ⟨p, hobject, hremaining⟩
  · rw [h]
  · rw [hobject, hremaining]
    rfl

namespace Session
variable {platform : Platform} {s : Session} {σ : Settings}

@[simp] theorem setOption_snd (s : Session) (addr : Addr) (arg : Arg) :
    (s.setOption platform allAppended addr arg).2 = arg.remaining := by
  obtain ⟨category, object⟩ := arg
  cases object with
  | parameters p => cases category <;> rfl
  | body b => cases category <;> rfl
  | _ => rfl

@[simp] theorem setOptions_snd (s : Session) (calls : List (Arg × Addr)) :
    (s.setOptions platform calls).2 = calls.map (fun call => call.1.remaining) := by
  induction calls generalizing s with
  | nil => rfl
  | cons call calls ih =>
    have hhead : (s.setOption platform allAppended call.2 call.1).2 = call.1.remaining :=
      setOption_snd s call.2 call.1
    have htail := ih (s.setOption platform allAppended call.2 call.1).1
    exact congrArg₂ List.cons hhead htail

def setArguments (platform : Platform) (s : Session) (args : List Arg) :
    Session × List OptionObject :=
  s.setOptions platform (args.zipIdx 1)

theorem map_zipIdx {β : Type*} (f : Arg → β) (args : List Arg) (k : ℕ) :
    (args.zipIdx k).map (fun call => f call.1) = args.map f := by
  have h := List.map_map (g := f) (f := Prod.fst) (l := args.zipIdx k)
  rw [List.zipIdx_map_fst] at h
  exact h.symm

@[simp] theorem setArguments_snd (s : Session) (args : List Arg) :
    (s.setArguments platform args).2 = args.map Arg.remaining := by
  rw [setArguments, setOptions_snd, map_zipIdx]

/-- At the time of the transfer, the buffers hold what the setters were given. -/
theorem readsBack_frame (body : Body) (args : List Arg) {call : Arg × Addr}
    (hcall : call ∈ args.zipIdx 1) :
    ReadsBack (frameMemory body (args.map Arg.remaining)) call.2 call.1 := by
  obtain ⟨arg, addr⟩ := call
  obtain ⟨hle, hget⟩ := List.mk_mem_zipIdx_iff_le_and_getElem?_sub.mp hcall
  obtain ⟨i, rfl⟩ := Nat.exists_eq_add_of_le' hle
  have hmem : frameMemory body (args.map Arg.remaining) (i + 1) = arg.object.text := by
    have hget' : args[i]? = some arg := hget
    simp [frameMemory, hget']
  obtain ⟨category, object⟩ := arg
  cases object with
  | body b => exact fun _ => hmem
  | sslCert c => exact fun _ => hmem
  | _ => trivial

theorem Represents.setArguments {body : Body} {args : List Arg}
    (hr : Represents platform (frameMemory body (args.map Arg.remaining)) s σ) :
    Represents platform (frameMemory body (args.map Arg.remaining))
      (s.setArguments platform args).1 (σ.applyAll (args.map Arg.object)) := by
  have h := hr.setOptions (fun call hcall => readsBack_frame body args hcall)
  rwa [map_zipIdx Arg.object] at h

theorem represents_newWith {mem : Memory} {url : Url} {addr : Addr} {body : Body}
    (h : mem addr = body) :
    Represents platform mem (newWith platform true url addr body)
      { url := url, body := if body = [] then none else some body } := by
  have hnew : Represents platform mem (new platform true) {} := represents_new
  have hurl : Represents platform mem
      (if url ≠ [] then (new platform true).setUrl url else new platform true) { url := url } := by
    split
    · exact hnew.setUrl url
    · next hempty => rwa [not_not.mp hempty]
  unfold newWith
  by_cases hb : body = []
  · rw [if_neg (not_not.mpr hb), if_pos hb]
    exact hurl
  · rw [if_pos hb, if_neg hb]
    exact hurl.setBody h

end Session
end Curlinho
