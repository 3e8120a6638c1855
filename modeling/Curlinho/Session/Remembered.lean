import Curlinho.Session.Responses

/-! # The protocol version and the credentials over a run

A session reports the protocol version that its requests ask for. Once version 2 was
asked for, nothing takes it back. The credentials of the last authentication are sent with
every request, as one text that the first colon divides.
-/
namespace Curlinho
open Foundation
namespace Session
variable (platform : Platform)

def getProtocolVersion (s : Session) : Bytes := s.protocolVersion_

/-- The version that the linked libcurl is good for, whatever the session. -/
def getHttpLastProtocolVersion (_ : Session) : Bytes :=
  if platform.http2 then str ['H', 'T', 'T', 'P', '/', '2', '.', '0']
  else str ['H', 'T', 'T', 'P', '/', '1', '.', '1']

/-- `GetHttpLastVersion` asks a session of its own. -/
def getHttpLastVersion (init : Bool) : Bytes :=
  (new platform init).getHttpLastProtocolVersion platform

def versionName : Option ℕ → Bytes
  | none => []
  | some v =>
    if v = CURL_HTTP_VERSION_2_0 then str ['H', 'T', 'T', 'P', '/', '2', '.', '0']
    else str ['H', 'T', 'T', 'P', '/', '1', '.', '1']

def lastVersion : ℕ := if platform.http2 then CURL_HTTP_VERSION_2_0 else CURL_HTTP_VERSION_1_1

end Session

def SessionCall.asksForV2 : SessionCall → Bool
  | .setOption _ _ arg => arg.object = .protocolVersion .v2
  | _ => false

def SessionCall.authentication? : SessionCall → Option Authentication
  | .setOption _ _ arg =>
    match arg.object with
    | .authentication a => some a
    | _ => none
  | _ => none

namespace Session
variable (platform : Platform) {s : Session}

theorem versionName_lastVersion (s : Session) :
    versionName (some (lastVersion platform)) = s.getHttpLastProtocolVersion platform := by
  cases h : platform.http2 <;> simp [versionName, lastVersion, getHttpLastProtocolVersion, h,
    CURL_HTTP_VERSION_2_0, CURL_HTTP_VERSION_1_1]

theorem request_component {α : Type*} (get : Handle → α) (sent : Request → α)
    (hsent : ∀ (h : Handle) slists mem url noBody customRequest,
      sent { h.request slists mem with
        url := url, noBody := noBody, customRequest := customRequest } = get h)
    (method : Bytes) (mem : Memory) (t : Transfer) :
    (s.perform method mem t).request.map sent = s.curl_.handle.map get := by
  cases hs : s.curl_.handle with
  | none => rw [perform_of_none hs, Option.map_none, Option.map_none]
  | some h =>
    obtain ⟨hrequest, -, -, -⟩ := perform_spec hs method mem t
    rw [hrequest, nextRequest, hs, Option.map_some, Option.map_some, Option.map_some]
    exact congrArg some (hsent h _ _ _ _ _)

theorem component_httpVersion : Component platform Handle.httpVersion
    (fun call => if call.asksForV2 then some (some (lastVersion platform)) else none) where
  setter := by
    intro ok addr arg chunk h
    obtain ⟨category, object⟩ := arg
    cases object with
    | protocolVersion v => cases v <;> simp [handleUpdate, SessionCall.asksForV2, lastVersion]
    | _ => rfl
  request := fun _ _ _ => rfl
  silent := by
    intro call hcall
    cases call with
    | setOption ok addr arg => exact absurd rfl hcall
    | _ => rfl

theorem component_userPwd : Component platform Handle.userPwd
    (fun call => call.authentication?.map (fun a => some a.getAuthString)) where
  setter := by
    intro ok addr arg chunk h
    obtain ⟨category, object⟩ := arg
    cases object with
    | protocolVersion v => cases v <;> rfl
    | _ => rfl
  request := fun _ _ _ => rfl
  silent := by
    intro call hcall
    cases call with
    | setOption ok addr arg => exact absurd rfl hcall
    | _ => rfl

theorem protocolVersion_setOption (s : Session) (ok : ℕ → Bool) (addr : Addr) (arg : Arg) :
    (s.setOption platform ok addr arg).1.protocolVersion_ =
      if s.curl_.handle.isSome && (SessionCall.setOption ok addr arg).asksForV2 then
        s.getHttpLastProtocolVersion platform
      else s.protocolVersion_ := by
  obtain ⟨category, object⟩ := arg
  cases object with
  | sslCert c =>
    simp [setOption, setSslCert_eq, SessionCall.asksForV2]
  | protocolVersion v =>
    cases hs : s.curl_.handle <;> cases v <;> cases h2 : platform.http2 <;>
      simp [setOption, setProtocolVersion, hs, h2, SessionCall.asksForV2,
        getHttpLastProtocolVersion]
  | _ =>
    simp only [setOption, setParametersMove, setHeaders, setTimeout, setAuth, setBody, setBodyMove,
      SessionCall.asksForV2]
    repeat' split
    all_goals simp_all [setUrl, setParameters, setRetryPolicy]

theorem protocolVersion_applyCall (s : Session) (call : SessionCall) :
    (s.applyCall platform call).protocolVersion_ =
      if s.curl_.handle.isSome && call.asksForV2 then s.getHttpLastProtocolVersion platform
      else s.protocolVersion_ := by
  have hperform : ∀ method mem t,
      (s.perform method mem t).session.protocolVersion_ = s.protocolVersion_ := by
    intro method mem t
    cases hs : s.curl_.handle with
    | none => rw [perform_of_none hs]
    | some h => exact (perform_spec hs method mem t).2.2.1.protocolVersion
  cases call with
  | setOption ok addr arg => exact protocolVersion_setOption platform s ok addr arg
  | get mem t =>
    simp only [SessionCall.asksForV2, Bool.and_false, Bool.false_eq_true, if_false]
    exact hperform _ mem t
  | post mem t =>
    simp only [SessionCall.asksForV2, Bool.and_false, Bool.false_eq_true, if_false]
    exact hperform _ mem t

theorem protocolVersion_applyCalls (s : Session) (calls : List SessionCall) :
    (s.applyCalls platform calls).protocolVersion_ =
      if s.curl_.handle.isSome && calls.any SessionCall.asksForV2 then
        s.getHttpLastProtocolVersion platform
      else s.protocolVersion_ := by
  induction calls generalizing s with
  | nil => simp [applyCalls]
  | cons call calls ih =>
    have hrest := ih (s.applyCall platform call)
    rw [isSome_applyCall, protocolVersion_applyCall] at hrest
    rw [show s.applyCalls platform (call :: calls) =
      (s.applyCall platform call).applyCalls platform calls from rfl, hrest, List.any_cons]
    cases s.curl_.handle.isSome <;> cases call.asksForV2 <;>
      cases calls.any SessionCall.asksForV2 <;> rfl

/-- The session after any calls on a new one; `init` tells whether there is a handle. -/
def reached (init : Bool) (url : Url) (addr : Addr) (body : Body) (calls : List SessionCall) :
    Session := (newWith platform init url addr body).applyCalls platform calls

theorem handle_newWith (init : Bool) (url : Url) (addr : Addr) (body : Body) :
    (newWith platform init url addr body).curl_.handle.map Handle.httpVersion =
        (if init then some none else none) ∧
      (newWith platform init url addr body).protocolVersion_ = [] := by
  unfold newWith
  cases init <;> split <;> split <;> exact ⟨rfl, rfl⟩

/-- After any calls the reported version is the one that the next request asks for: none
until version 2 was asked for, and then the best that libcurl has, for good. -/
theorem getProtocolVersion_reached (init : Bool) (url : Url) (addr : Addr) (body : Body)
    (calls : List SessionCall) (method : Bytes) (mem : Memory) (t : Transfer) :
    (reached platform init url addr body calls).getProtocolVersion =
        versionName (((reached platform init url addr body calls).perform method mem t).request.bind
          Request.httpVersion) ∧
      (reached platform init url addr body calls).getProtocolVersion =
        if init && calls.any SessionCall.asksForV2 then getHttpLastVersion platform init else [] := by
  obtain ⟨hhandle, hname⟩ := handle_newWith platform init url addr body
  have hsome : (newWith platform init url addr body).curl_.handle.isSome = init := by
    have h := congrArg Option.isSome hhandle
    rw [Option.isSome_map] at h
    cases init <;> exact h
  have hreport := protocolVersion_applyCalls platform (newWith platform init url addr body) calls
  rw [hsome, hname] at hreport
  have hsent := request_component (s := reached platform init url addr body calls)
    Handle.httpVersion Request.httpVersion (fun _ _ _ _ _ _ => rfl) method mem t
  have hlast := (component_httpVersion platform).applyCalls (newWith platform init url addr body)
    calls
  rw [lastSome_const, hhandle] at hlast
  have hbind : ((reached platform init url addr body calls).perform method mem t).request.bind
      Request.httpVersion =
        if init && calls.any SessionCall.asksForV2 then some (lastVersion platform) else none := by
    rw [show Request.httpVersion = id ∘ Request.httpVersion from rfl, ← Option.bind_map, hsent,
      reached, hlast]
    cases init <;> cases calls.any SessionCall.asksForV2 <;> rfl
  refine ⟨?_, hreport⟩
  rw [getProtocolVersion, reached, hreport, ← reached, hbind]
  split
  · exact (versionName_lastVersion platform _).symm
  · rfl

theorem cutFirst_getAuthString_iff (username password : Bytes) :
    cutFirst (ch ':') (Authentication.make username password).getAuthString =
        (username, some password) ↔ ch ':' ∉ username ∧ 0 ∉ username ∧ 0 ∉ password := by
  have hnul : (0 : UInt8) ≠ ch ':' := by decide
  constructor
  · intro h
    rcases cutFirst_cases (ch ':') (Authentication.make username password).getAuthString with
      ⟨-, hcut⟩ | ⟨a, b, ha, htext, hcut⟩
    · rw [hcut] at h
      exact absurd (congrArg Prod.snd h) (by simp)
    · rw [hcut, Prod.mk.injEq, Option.some.injEq] at h
      obtain ⟨rfl, rfl⟩ := h
      -- the text was copied whole, so it has no NUL
      have hwhole : 0 ∉ a ++ ch ':' :: b := by
        intro h0
        have hmem := List.mem_takeWhile_imp (htext ▸ h0 :
          0 ∈ (Authentication.make a b).getAuthString)
        exact of_decide_eq_true hmem rfl
      simp only [List.mem_append, List.mem_cons, not_or] at hwhole
      exact ⟨ha, hwhole.1, hwhole.2.2⟩
  · rintro ⟨hcolon, huser, hpass⟩
    have hwhole : cstr (username ++ ch ':' :: password) = username ++ ch ':' :: password :=
      cstr_of_notMem (by simp [huser, hpass, hnul])
    exact (congrArg (cutFirst (ch ':')) hwhole).trans (cutFirst_append hcolon password)

/-- Cut at the first colon, what every request carries gives the user name and the password
of the last authentication back exactly if the name has no colon and neither has a NUL. -/
theorem credentials_received_iff (url : Url) (addr : Addr) (body : Body) (calls : List SessionCall)
    (method : Bytes) (mem : Memory) (t : Transfer) {username password : Bytes}
    (h : lastSome SessionCall.authentication? calls = some (.make username password)) :
    ((reached platform true url addr body calls).perform method mem t).request.map
        (fun q => q.userPwd.map (cutFirst (ch ':'))) = some (some (username, some password)) ↔
      ch ':' ∉ username ∧ 0 ∉ username ∧ 0 ∉ password := by
  have hsent := request_component (s := reached platform true url addr body calls)
    Handle.userPwd Request.userPwd (fun _ _ _ _ _ _ => rfl) method mem t
  have hlast := (component_userPwd platform).applyCalls (newWith platform true url addr body) calls
  rw [lastSome_optionMap, h] at hlast
  obtain ⟨h₀, hh₀, -⟩ := live_newWith platform url addr body
  rw [hh₀, Option.map_some, Option.map_some, Option.map_some, Option.getD_some] at hlast
  have huserPwd : ((reached platform true url addr body calls).perform method mem t).request.map
      Request.userPwd = some (some (Authentication.make username password).getAuthString) :=
    hsent.trans hlast
  rw [← cutFirst_getAuthString_iff username password]
  obtain ⟨q, hq, hpwd⟩ := Option.map_eq_some_iff.mp huserPwd
  rw [hq, Option.map_some, hpwd, Option.map_some, Option.some.injEq, Option.some.injEq]

theorem credentials_received_iff_colon :
    ((reached .linux true [] 0 [] [.setOption allAppended 1
        ⟨.rvalue, .authentication (.make (str ['u']) (str ['p', ':', 'q']))⟩]).perform
          (str ['G', 'E', 'T']) (fun _ => []) {}).request.map
        (fun q => q.userPwd.map (cutFirst (ch ':'))) =
          some (some (str ['u'], some (str ['p', ':', 'q']))) ↔
      ch ':' ∉ str ['u'] ∧ 0 ∉ str ['u'] ∧ 0 ∉ str ['p', ':', 'q'] :=
  credentials_received_iff .linux [] 0 [] [.setOption allAppended 1
    ⟨.rvalue, .authentication (.make (str ['u']) (str ['p', ':', 'q']))⟩]
    (str ['G', 'E', 'T']) (fun _ => []) {} rfl

end Session
end Curlinho
