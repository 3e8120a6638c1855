import Curlinho.Foundation.LastWrite
import Curlinho.Session.Settings

/-! # Calls on a session and the responses they return

Runs in which every append to a header list may succeed or fail, on a session whose
handle may be NULL. What a setter does to the handle is said once; the responses of
a run are then read off the transfers.
-/
namespace Curlinho
open Foundation

/-- A call on a session. `ok` gives the outcomes of the appends it makes. -/
inductive SessionCall
  | setOption (ok : ℕ → Bool) (addr : Addr) (arg : Arg)
  | get (mem : Memory) (t : Transfer)
  | post (mem : Memory) (t : Transfer)

def SessionCall.transfer? : SessionCall → Option Transfer
  | setOption _ _ _ => none
  | get _ t => some t
  | post _ t => some t

def transfers (calls : List SessionCall) : List Transfer := calls.filterMap SessionCall.transfer?

def Operation.call : Operation → SessionCall
  | option addr arg => .setOption allAppended addr arg
  | get mem t => .get mem t
  | post mem t => .post mem t

namespace Session
variable (platform : Platform)

def applyCall (s : Session) : SessionCall → Session
  | .setOption ok addr arg => (s.setOption platform ok addr arg).1
  | .get mem t => (s.get mem t).session
  | .post mem t => (s.post mem t).session

def applyCalls (s : Session) (calls : List SessionCall) : Session :=
  calls.foldl (applyCall platform) s

def result? (s : Session) : SessionCall → Option (Except Fault Response)
  | .setOption _ _ _ => none
  | .get mem t => some (s.get mem t).result
  | .post mem t => some (s.post mem t).result

def responses (s : Session) : List SessionCall → List (Except Fault Response)
  | [] => []
  | call :: calls => (s.result? call).toList ++ (s.applyCall platform call).responses calls

@[simp] theorem applyCalls_map_call (s : Session) (ops : List Operation) :
    s.applyCalls platform (ops.map Operation.call) = s.run platform ops := by
  rw [applyCalls, List.foldl_map, run]
  congr 1
  funext s op
  cases op <;> rfl

/-- `chunk` is the list that `SetHeaders` builds. -/
def handleUpdate (addr : Addr) (arg : Arg) (chunk : Option SlistPtr) (h : Handle) : Handle :=
  match arg.object with
  | .headers _ => { h with httpHeader := some chunk }
  | .timeout t => { h with timeoutMs := some t.milliseconds }
  | .authentication a =>
    { h with httpAuth := some CURLAUTH_BASIC, userPwd := some a.getAuthString }
  | .body b =>
    { h with
      postFieldSize := some b.length
      postFields := some (if arg.category = .rvalue then .copied b else .borrowed addr) }
  | .protocolVersion .v2 =>
    { h with
      httpVersion :=
        some (if platform.http2 then CURL_HTTP_VERSION_2_0 else CURL_HTTP_VERSION_1_1) }
  | .sslCert c =>
    { h with
      sslOptions := if platform.windows then some CURLSSLOPT_NATIVE_CA else h.sslOptions
      sslCertType := if c.certString_ ≠ [] then some (str ['P', 'E', 'M']) else h.sslCertType
      sslCtxFunction := if c.certString_ ≠ [] then true else h.sslCtxFunction
      sslCtxData := if c.certString_ ≠ [] then some addr else h.sslCtxData
      pinnedPublicKey := if c.pkp_ ≠ [] then some (cstr c.pkp_) else h.pinnedPublicKey }
  | _ => h

theorem setOption_handle (s : Session) (ok : ℕ → Bool) (addr : Addr) (arg : Arg) :
    ∃ chunk, (s.setOption platform ok addr arg).1.curl_.handle =
      s.curl_.handle.map (handleUpdate platform addr arg chunk) := by
  obtain ⟨category, object⟩ := arg
  have hid : s.curl_.handle.map (fun h => h) = s.curl_.handle := Option.map_id'
  cases object with
  | url url => exact ⟨none, hid.symm⟩
  | parameters p =>
    refine ⟨none, Eq.trans ?_ hid.symm⟩
    simp only [setOption]
    split <;> rfl
  | headers headers =>
    refine ⟨(buildChunk ok 0 (mergeHeaders headers s.headers_).entries (s.slists, none)).2, ?_⟩
    cases hs : s.curl_.handle <;>
      simp [setOption, setHeaders, mergeHeaders, hs, handleUpdate]
  | timeout t =>
    refine ⟨none, ?_⟩
    cases hs : s.curl_.handle <;> simp [setOption, setTimeout, hs, handleUpdate]
  | authentication a =>
    refine ⟨none, ?_⟩
    cases hs : s.curl_.handle <;> simp [setOption, setAuth, hs, handleUpdate]
  | body b =>
    refine ⟨none, ?_⟩
    cases hs : s.curl_.handle <;> by_cases hc : category = .rvalue <;>
      simp [setOption, setBody, setBodyMove, hs, handleUpdate, hc]
  | protocolVersion v =>
    refine ⟨none, ?_⟩
    cases hs : s.curl_.handle <;> cases v <;> cases h2 : platform.http2 <;>
      simp [setOption, setProtocolVersion, hs, handleUpdate, h2]
  | retryPolicy r => exact ⟨none, hid.symm⟩
  | sslCert c =>
    refine ⟨none, ?_⟩
    simp only [setOption, setSslCert_eq]
    rfl

@[simp] theorem perform_handle (s : Session) (method : Bytes) (mem : Memory) (t : Transfer) :
    (s.perform method mem t).session.curl_.handle =
      s.curl_.handle.map (s.handleRequest method) := by
  cases hs : s.curl_.handle with
  | none => simp [perform_of_none hs, hs]
  | some h => simp [perform_of_some hs]

/-- A component of the handle that a setter writes as `f` says and requests leave alone. -/
structure Component {α : Type*} (get : Handle → α) (f : SessionCall → Option α) : Prop where
  setter : ∀ ok addr arg chunk h,
    get (handleUpdate platform addr arg chunk h) = (f (.setOption ok addr arg)).getD (get h)
  request : ∀ s method h, get (handleRequest s method h) = get h
  silent : ∀ call, call.transfer? ≠ none → f call = none

section
variable {platform} {α : Type*} {get : Handle → α} {f : SessionCall → Option α}

theorem Component.applyCall (hc : Component platform get f) (s : Session) (call : SessionCall) :
    (s.applyCall platform call).curl_.handle.map get =
      (s.curl_.handle.map get).map (fun a => (f call).getD a) := by
  have hperform : ∀ method mem t, f call = none →
      (s.perform method mem t).session.curl_.handle.map get =
        (s.curl_.handle.map get).map (fun a => (f call).getD a) := by
    intro method mem t hf
    rw [perform_handle, hf, Option.map_map, Option.map_map]
    congr 1
    funext h
    exact hc.request s method h
  cases call with
  | setOption ok addr arg =>
    obtain ⟨chunk, hnext⟩ := setOption_handle platform s ok addr arg
    rw [Session.applyCall, hnext, Option.map_map, Option.map_map]
    congr 1
    funext h
    exact hc.setter ok addr arg chunk h
  | get mem t => exact hperform _ mem t (hc.silent _ (Option.some_ne_none t))
  | post mem t => exact hperform _ mem t (hc.silent _ (Option.some_ne_none t))

theorem Component.applyCalls (hc : Component platform get f) (s : Session)
    (calls : List SessionCall) :
    (s.applyCalls platform calls).curl_.handle.map get =
      (s.curl_.handle.map get).map (fun a => (lastSome f calls).getD a) :=
  foldl_component_map (fun s => s.curl_.handle.map get) hc.applyCall calls s

end

theorem component_defaults : Component platform Handle.defaults (fun _ => none) where
  setter := by
    intro ok addr arg chunk h
    unfold handleUpdate
    split <;> rfl
  request := fun _ _ _ => rfl
  silent := fun _ _ => rfl

@[simp] theorem isSome_applyCall (s : Session) (call : SessionCall) :
    (s.applyCall platform call).curl_.handle.isSome = s.curl_.handle.isSome := by
  have h := congrArg Option.isSome ((component_defaults platform).applyCall s call)
  rwa [Option.isSome_map, Option.isSome_map, Option.isSome_map] at h

/-- The handle is valid and names the session's error buffer. -/
def Live (s : Session) : Prop := ∃ h, s.curl_.handle = some h ∧ h.defaults.errorBuffer = true

theorem live_newWith (url : Url) (addr : Addr) (body : Body) :
    (newWith platform true url addr body).Live := by
  unfold newWith
  split <;> split <;> exact ⟨_, rfl, rfl⟩

variable {platform} {s : Session}

theorem Live.applyCall (hs : s.Live) (call : SessionCall) : (s.applyCall platform call).Live := by
  obtain ⟨h, hh, hbuffer⟩ := hs
  have hmap := (component_defaults platform).applyCall s call
  rw [hh, Option.map_some, Option.map_some] at hmap
  obtain ⟨h', hh', hdefaults⟩ := Option.map_eq_some_iff.mp hmap
  exact ⟨h', hh', by rw [hdefaults]; exact hbuffer⟩

theorem Live.applyCalls (hs : s.Live) (calls : List SessionCall) :
    (s.applyCalls platform calls).Live := by
  induction calls generalizing s with
  | nil => exact hs
  | cons call calls ih => exact ih (hs.applyCall call)

/-- The responses of a run follow its transfers one by one, if some property that
every call keeps makes each of them a function of its transfer. -/
theorem responses_eq {P : Session → Prop} {answer : Transfer → Except Fault Response}
    (hcall : ∀ s call, P s → P (s.applyCall platform call))
    (hperform : ∀ s, P s → ∀ method mem t, (s.perform method mem t).result = answer t)
    (hs : P s) (calls : List SessionCall) :
    s.responses platform calls = (transfers calls).map answer := by
  induction calls generalizing s with
  | nil => rfl
  | cons call calls ih =>
    rw [responses, ih (hcall s call hs)]
    cases call with
    | setOption ok addr arg => rfl
    | get mem t =>
      rw [result?, get, hperform s hs]
      rfl
    | post mem t =>
      rw [result?, post, hperform s hs]
      rfl

end Session
end Curlinho
