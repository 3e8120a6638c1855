import Curlinho.Foundation.LastWrite
import Curlinho.Session.Responses

/-! # Whose bytes a body is

`SetBody(Body &&)` has libcurl copy the bytes, `SetBody(const Body &)` leaves it with
the address of the caller's string. The two agree exactly as long as the string keeps
the bytes that libcurl will read there, or another body takes their place.
-/
namespace Curlinho
open Foundation

/-- A string variable whose buffer address has been handed out: its value, and the
bytes at that address unless they have been given up. -/
structure BodyVariable where
  content : Body
  buffer : Option Bytes

/-- What the caller may do to the variable. An assignment or an append may move the
string to another buffer, and has to if the old one is too small. -/
inductive BodyChange
  | assign (content : Body) (moved : Bool)
  | append (more : Bytes) (moved : Bool)
  | clear
  | destroy

namespace BodyVariable

/-- `spare` is what the buffer holds beyond the terminating NUL. -/
def start (b : Body) (spare : Bytes) : BodyVariable := ⟨b, some (b ++ 0 :: spare)⟩

def write (v : BodyVariable) (content : Body) (moved : Bool) : BodyVariable where
  content := content
  buffer := v.buffer.bind (fun old =>
    if !moved && decide (content.length < old.length) then
      some (content ++ 0 :: old.drop (content.length + 1))
    else none)

def change (v : BodyVariable) : BodyChange → BodyVariable
  | .assign content moved => v.write content moved
  | .append more moved => v.write (v.content ++ more) moved
  | .clear => v.write [] false
  | .destroy => ⟨[], none⟩

end BodyVariable

/-- What happens between `SetBody` and the request. -/
inductive BodyEvent
  | change (c : BodyChange)
  | call (c : SessionCall)

def BodyEvent.change? : BodyEvent → Option BodyChange
  | change c => some c
  | call _ => none

def BodyEvent.call? : BodyEvent → Option SessionCall
  | change _ => none
  | call c => some c

def bodyCalls (events : List BodyEvent) : List SessionCall := events.filterMap BodyEvent.call?

/-- The bytes left at the address that `SetBody` was given, if any. -/
def bufferAfter (b : Body) (spare : Bytes) (events : List BodyEvent) : Option Bytes :=
  ((events.filterMap BodyEvent.change?).foldl BodyVariable.change (.start b spare)).buffer

def SessionCall.body? : SessionCall → Option Body
  | setOption _ _ arg => arg.object.body?
  | _ => none

structure BodyOptions where
  size : Option ℕ
  fields : Option PostFields

def Handle.bodyOptions (h : Handle) : BodyOptions := ⟨h.postFieldSize, h.postFields⟩

def BodyOptions.ofArg (addr : Addr) (category : ValueCategory) (b : Body) : BodyOptions where
  size := some b.length
  fields := some (if category = .rvalue then .copied b else .borrowed addr)

def BodyOptions.sent (options : BodyOptions) (mem : Memory) : Option (Option ℕ × Option Bytes) :=
  some (options.size, options.fields.map (PostFields.read mem options.size))

/-- The body options that a call leaves, whatever they were, if it sets a body. -/
def SessionCall.bodyOptions? : SessionCall → Option BodyOptions
  | setOption _ addr arg => arg.object.body?.map (BodyOptions.ofArg addr arg.category)
  | _ => none

@[simp] theorem SessionCall.isSome_bodyOptions? (call : SessionCall) :
    call.bodyOptions?.isSome = call.body?.isSome := by
  cases call <;> simp [bodyOptions?, body?]

def bodySent (o : Outcome) : Option (Option ℕ × Option Bytes) :=
  o.request.map (fun r => (r.postFieldSize, r.postFields))

namespace Session
variable (platform : Platform)

theorem component_bodyOptions :
    Component platform Handle.bodyOptions SessionCall.bodyOptions? where
  setter := by
    intro ok addr arg chunk h
    obtain ⟨category, object⟩ := arg
    cases object with
    | protocolVersion v => cases v <;> rfl
    | _ => rfl
  request := fun _ _ _ => rfl
  silent := by
    intro call hcall
    cases call with
    | setOption ok addr arg => exact absurd rfl hcall
    | get mem t => rfl
    | post mem t => rfl

variable {s : Session}

theorem bodySent_perform {h : Handle} (hs : s.curl_.handle = some h) (method : Bytes)
    (mem : Memory) (t : Transfer) :
    bodySent (s.perform method mem t) = h.bodyOptions.sent mem := by
  obtain ⟨hreq, -⟩ := perform_spec hs method mem t
  rw [bodySent, hreq, nextRequest, hs]
  rfl

/-- After either overload and any calls, a request sends the body set last among the
calls, or the one that the overload left. -/
theorem bodySent_setBody (hs : s.Live) (addr : Addr) (b : Body) (calls : List SessionCall)
    (method : Bytes) (mem : Memory) (t : Transfer) :
    bodySent (((s.setBody addr b).applyCalls platform calls).perform method mem t) =
        ((lastSome SessionCall.bodyOptions? calls).getD (.ofArg addr .lvalue b)).sent mem ∧
      bodySent (((s.setBodyMove b).applyCalls platform calls).perform method mem t) =
        ((lastSome SessionCall.bodyOptions? calls).getD (.ofArg addr .rvalue b)).sent mem := by
  obtain ⟨h, hh, -⟩ := hs
  have hsent : ∀ category,
      bodySent ((((s.setOption platform allAppended addr ⟨category, .body b⟩).1).applyCalls
        platform calls).perform method mem t) =
        ((lastSome SessionCall.bodyOptions? calls).getD (.ofArg addr category b)).sent mem := by
    intro category
    have hset := (component_bodyOptions platform).applyCall s
      (.setOption allAppended addr ⟨category, .body b⟩)
    rw [hh, Option.map_some, Option.map_some] at hset
    obtain ⟨h₁, hh₁, hb₁⟩ := Option.map_eq_some_iff.mp hset
    have hrun := (component_bodyOptions platform).applyCalls
      (s.setOption platform allAppended addr ⟨category, .body b⟩).1 calls
    rw [show (s.setOption platform allAppended addr ⟨category, .body b⟩).1.curl_.handle = some h₁
      from hh₁, Option.map_some, Option.map_some, hb₁] at hrun
    obtain ⟨h₂, hh₂, hb₂⟩ := Option.map_eq_some_iff.mp hrun
    rw [bodySent_perform hh₂ method mem t, hb₂]
    rfl
  exact ⟨hsent .lvalue, hsent .rvalue⟩

theorem lastSome_bodyOptions_eq_none {calls : List SessionCall} :
    lastSome SessionCall.bodyOptions? calls = none ↔ ∀ call ∈ calls, call.body? = none := by
  have hcall : ∀ call : SessionCall, call.bodyOptions? = none ↔ call.body? = none := by
    intro call
    rw [← Option.isNone_iff_eq_none, ← Option.isNone_iff_eq_none, ← Option.not_isSome,
      ← Option.not_isSome, call.isSome_bodyOptions?]
  simp [lastSome, hcall]

@[simp] theorem sent_ofArg_rvalue (addr : Addr) (b : Body) (mem : Memory) :
    (BodyOptions.ofArg addr .rvalue b).sent mem = some (some b.length, some b) := rfl

@[simp] theorem sent_ofArg_lvalue (addr : Addr) (b : Body) (mem : Memory) :
    (BodyOptions.ofArg addr .lvalue b).sent mem =
      some (some b.length, some ((mem addr).take b.length)) := rfl

theorem bodySent_of_body (hs : s.Live) (addr : Addr) (b : Body) {calls : List SessionCall}
    (hbody : ∃ call ∈ calls, call.body? ≠ none) (method : Bytes) (mem : Memory) (t : Transfer) :
    bodySent (((s.setBody addr b).applyCalls platform calls).perform method mem t) =
      bodySent (((s.setBodyMove b).applyCalls platform calls).perform method mem t) := by
  obtain ⟨hreference, hmove⟩ := bodySent_setBody platform hs addr b calls method mem t
  cases hlast : lastSome SessionCall.bodyOptions? calls with
  | none =>
    obtain ⟨call, hcall, hsome⟩ := hbody
    exact absurd (lastSome_bodyOptions_eq_none.mp hlast call hcall) hsome
  | some options =>
    rw [hlast] at hreference hmove
    exact hreference.trans hmove.symm

/-- Without one, the bytes at the address are sent by reference, those of `b` by move. -/
theorem bodySent_of_noBody (hs : s.Live) (addr : Addr) (b : Body) {calls : List SessionCall}
    (hbody : ∀ call ∈ calls, call.body? = none) (method : Bytes) (mem : Memory) (t : Transfer) :
    bodySent (((s.setBody addr b).applyCalls platform calls).perform method mem t) =
        some (some b.length, some ((mem addr).take b.length)) ∧
      bodySent (((s.setBodyMove b).applyCalls platform calls).perform method mem t) =
        some (some b.length, some b) := by
  have h := bodySent_setBody platform hs addr b calls method mem t
  rwa [lastSome_bodyOptions_eq_none.mpr hbody, Option.getD_none, Option.getD_none,
    sent_ofArg_lvalue, sent_ofArg_rvalue] at h

theorem take_eq_iff (addr : Addr) (b : Body) (buffer : Option Bytes) :
    (∀ mem : Memory, (∀ bytes, buffer = some bytes → mem addr = bytes) →
        (mem addr).take b.length = b) ↔
      b = [] ∨ ∃ bytes, buffer = some bytes ∧ bytes.take b.length = b := by
  cases buffer with
  | none =>
    constructor
    · intro h
      have hnil := h (fun _ => []) (fun _ hbytes => by cases hbytes)
      exact Or.inl (by simpa using hnil.symm)
    · rintro (rfl | ⟨bytes, hbytes, -⟩) mem -
      · rfl
      · cases hbytes
  | some bytes =>
    constructor
    · intro h
      exact Or.inr ⟨bytes, rfl, h (fun _ => bytes) (fun _ heq => Option.some.inj heq)⟩
    · rintro (rfl | ⟨bytes', heq, htake⟩) mem hmem
      · rfl
      · rw [hmem bytes' heq]
        exact htake

def requests : List (Session → Memory → Transfer → Outcome) := [get, post]

theorem of_mem_requests {request : Session → Memory → Transfer → Outcome}
    (h : request ∈ requests) : ∃ method, request = fun s => s.perform method := by
  simp only [requests, List.mem_cons, List.not_mem_nil, or_false] at h
  rcases h with rfl | rfl
  · exact ⟨_, rfl⟩
  · exact ⟨_, rfl⟩

/-- The overloads of `SetBody` are interchangeable, and send the body as it was, in
exactly these cases: another body is set before the request, the body is empty, or
its bytes are still at the address that was handed over. -/
theorem bodySent_agree_iff (url : Url) (addr₀ : Addr) (body₀ : Body) (earlier : List SessionCall)
    (addr : Addr) (b : Body) (spare : Bytes) (events : List BodyEvent) :
    let s := (newWith platform true url addr₀ body₀).applyCalls platform earlier
    let byReference := (s.setBody addr b).applyCalls platform (bodyCalls events)
    let byMove := (s.setBodyMove b).applyCalls platform (bodyCalls events)
    (∀ request ∈ requests, ∀ (mem : Memory) (t : Transfer),
        (∀ bytes, bufferAfter b spare events = some bytes → mem addr = bytes) →
        bodySent (request byReference mem t) = bodySent (request byMove mem t) ∧
        ((∀ call ∈ bodyCalls events, call.body? = none) →
          bodySent (request byReference mem t) = some (some b.length, some b))) ↔
      (∃ call ∈ bodyCalls events, call.body? ≠ none) ∨ b = [] ∨
        ∃ bytes, bufferAfter b spare events = some bytes ∧ bytes.take b.length = b := by
  intro s byReference byMove
  have hlive : s.Live := (live_newWith platform url addr₀ body₀).applyCalls earlier
  by_cases hbody : ∀ call ∈ bodyCalls events, call.body? = none
  · have hno : ¬ ∃ call ∈ bodyCalls events, call.body? ≠ none := by
      rintro ⟨call, hcall, hsome⟩
      exact hsome (hbody call hcall)
    rw [or_iff_right hno, ← take_eq_iff addr b (bufferAfter b spare events)]
    constructor
    · intro h mem hmem
      obtain ⟨-, hread⟩ := h get List.mem_cons_self mem {} hmem
      obtain ⟨hreference, -⟩ :=
        bodySent_of_noBody platform hlive addr b hbody (str ['G', 'E', 'T']) mem {}
      have heq := hreference.symm.trans (hread hbody)
      simpa using heq
    · intro h request hrequest mem t hmem
      obtain ⟨method, rfl⟩ := of_mem_requests hrequest
      obtain ⟨hreference, hmove⟩ := bodySent_of_noBody platform hlive addr b hbody method mem t
      rw [h mem hmem] at hreference
      exact ⟨hreference.trans hmove.symm, fun _ => hreference⟩
  · have hsome : ∃ call ∈ bodyCalls events, call.body? ≠ none := by
      simpa only [not_forall, exists_prop] using hbody
    refine iff_of_true ?_ (Or.inl hsome)
    intro request hrequest mem t _
    obtain ⟨method, rfl⟩ := of_mem_requests hrequest
    exact ⟨bodySent_of_body platform hlive addr b hsome method mem t, fun h => absurd h hbody⟩

/-- The body is cleared in place before the request: the reader finds a NUL. -/
theorem bodySent_cleared :
    ¬ ∀ mem : Memory, (∀ bytes, bufferAfter [97] [] [.change .clear] = some bytes → mem 0 = bytes) →
      bodySent ((((new .linux true).setBody 0 [97]).applyCalls .linux
        (bodyCalls [.change .clear])).post mem {}) =
      bodySent ((((new .linux true).setBodyMove [97]).applyCalls .linux
        (bodyCalls [.change .clear])).post mem {}) := by
  intro h
  have hmem := h (fun _ => [0, 0]) (by decide)
  exact absurd hmem (by decide)

end Session
end Curlinho
