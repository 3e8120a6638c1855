import Curlinho.Session.HeaderList

/-! # What a session has been told

The abstract purpose of a session: it remembers the options it was given and turns
them into requests. A concrete session, with its handle, lists and borrowed buffers,
represents the settings that the sequence of its `SetOption` calls describes.
-/
namespace Curlinho
open Foundation

/-- The options in force, apart from any handle. -/
structure Settings where
  url : Url := []
  parameters : Parameters := {}
  headers : Headers := OrderedMap.empty
  headersSet : Bool := false
  timeout : Option Timeout := none
  auth : Option Authentication := none
  body : Option Body := none
  http2 : Bool := false
  retryPolicy : RetryPolicy := {}
  tls : Bool := false
  certificate : Option Bytes := none
  pinnedKey : Option Bytes := none

namespace Settings

def apply (σ : Settings) : OptionObject → Settings
  | .url u => { σ with url := u }
  | .parameters p => { σ with parameters := p }
  | .headers h => { σ with headers := Session.mergeHeaders h σ.headers, headersSet := true }
  | .timeout t => { σ with timeout := some t }
  | .authentication a => { σ with auth := some a }
  | .body b => { σ with body := some b }
  | .protocolVersion v => { σ with http2 := v = HTTP.v2 || σ.http2 }
  | .retryPolicy r => { σ with retryPolicy := r }
  | .sslCert c =>
    { σ with
      tls := true
      certificate := if c.certString_ ≠ [] then some c.certString_ else σ.certificate
      pinnedKey := if c.pkp_ ≠ [] then some c.pkp_ else σ.pinnedKey }

def applyAll (σ : Settings) (objects : List OptionObject) : Settings := objects.foldl apply σ

variable (platform : Platform)

def httpVersion (σ : Settings) : Option ℕ :=
  if σ.http2 then
    some (if platform.http2 then CURL_HTTP_VERSION_2_0 else CURL_HTTP_VERSION_1_1)
  else none

def settled (σ : Settings) : Request where
  defaults := Session.sensibleDefaults platform
  url := none
  headers := if σ.headersSet then some (some (σ.headers.entries.map Session.itemText)) else none
  timeoutMs := σ.timeout.map Timeout.milliseconds
  httpAuth := σ.auth.map (fun _ => CURLAUTH_BASIC)
  userPwd := σ.auth.map Authentication.getAuthString
  postFieldSize := σ.body.map List.length
  postFields := σ.body
  httpVersion := σ.httpVersion platform
  sslOptions := if σ.tls && platform.windows then some CURLSSLOPT_NATIVE_CA else none
  sslCertType := σ.certificate.map (fun _ => str ['P', 'E', 'M'])
  sslCtxFunction := σ.certificate.isSome
  sslCtxData := σ.certificate.map cstr
  pinnedPublicKey := σ.pinnedKey.map cstr
  noBody := none
  customRequest := none

def request (σ : Settings) (method : Bytes) : Request :=
  { σ.settled platform with
    url := some (cstr (Session.requestUrl σ.url σ.parameters.content))
    noBody := some 0
    customRequest := some method }

end Settings

namespace Session

/-- What the handle says apart from the options that every transfer sets again. -/
def settledHandle (h : Handle) (slists : SlistHeap) (mem : Memory) : Request :=
  { h.request slists mem with url := none, noBody := none, customRequest := none }

variable (platform : Platform) (mem : Memory)

/-- The session represents the settings, when addresses are read in `mem`. -/
structure Represents (s : Session) (σ : Settings) : Prop where
  handle : ∃ h, s.curl_.handle = some h ∧ settledHandle h s.slists mem = σ.settled platform
  url : s.url_ = σ.url
  parameters : s.parameters_ = σ.parameters
  headers : s.headers_ = σ.headers
  retryPolicy : s.retryPolicy_ = σ.retryPolicy
  rendered : s.headerState.Rendered

/-- The bytes that a call hands over by address are those that `mem` has there. -/
def ReadsBack (addr : Addr) (arg : Arg) : Prop :=
  match arg.object with
  | .body b => arg.category ≠ .rvalue → mem addr = b
  | .sslCert c => c.certString_ ≠ [] → mem addr = c.certString_
  | _ => True

variable {platform mem} {s : Session} {σ : Settings}

theorem Represents.isSome (hr : Represents platform mem s σ) : s.curl_.handle.isSome = true := by
  obtain ⟨h, hs, -⟩ := hr.handle
  rw [hs]
  rfl

theorem Represents.setopt (hr : Represents platform mem s σ) (f : Handle → Handle)
    (g : Request → Request) {σ' : Settings}
    (hf : ∀ h slists, settledHandle (f h) slists mem = g (settledHandle h slists mem))
    (hσ : σ'.settled platform = g (σ.settled platform)) (hurl : σ'.url = σ.url)
    (hparameters : σ'.parameters = σ.parameters) (hheaders : σ'.headers = σ.headers)
    (hpolicy : σ'.retryPolicy = σ.retryPolicy) : Represents platform mem (s.setopt f) σ' := by
  obtain ⟨h, hs, hsettled⟩ := hr.handle
  refine ⟨⟨f h, ?_, ?_⟩, ?_, ?_, ?_, ?_, hr.rendered.items, hr.rendered.fresh⟩
  · simp [hs]
  · rw [hσ, ← hsettled]
    exact hf h s.slists
  · exact hr.url.trans hurl.symm
  · exact hr.parameters.trans hparameters.symm
  · exact hr.headers.trans hheaders.symm
  · exact hr.retryPolicy.trans hpolicy.symm

theorem Represents.setUrl (hr : Represents platform mem s σ) (url : Url) :
    Represents platform mem (s.setUrl url) (σ.apply (.url url)) :=
  ⟨hr.handle, rfl, hr.parameters, hr.headers, hr.retryPolicy, hr.rendered⟩

theorem Represents.setParameters (hr : Represents platform mem s σ) (p : Parameters) :
    Represents platform mem (s.setParameters p) (σ.apply (.parameters p)) :=
  ⟨hr.handle, hr.url, rfl, hr.headers, hr.retryPolicy, hr.rendered⟩

theorem Represents.setRetryPolicy (hr : Represents platform mem s σ) (r : RetryPolicy) :
    Represents platform mem (s.setRetryPolicy r) (σ.apply (.retryPolicy r)) :=
  ⟨hr.handle, hr.url, hr.parameters, hr.headers, rfl, hr.rendered⟩

theorem Represents.setTimeout (hr : Represents platform mem s σ) (t : Timeout) :
    Represents platform mem (s.setTimeout t) (σ.apply (.timeout t)) := by
  rw [Session.setTimeout, if_pos hr.isSome]
  exact hr.setopt _ (fun r => { r with timeoutMs := some t.milliseconds })
    (fun _ _ => rfl) rfl rfl rfl rfl rfl

theorem Represents.setAuth (hr : Represents platform mem s σ) (a : Authentication) :
    Represents platform mem (s.setAuth a) (σ.apply (.authentication a)) := by
  rw [Session.setAuth, if_pos hr.isSome]
  exact hr.setopt _
    (fun r => { r with httpAuth := some CURLAUTH_BASIC, userPwd := some a.getAuthString })
    (fun _ _ => rfl) rfl rfl rfl rfl rfl

@[simp] theorem sizedBytes_length (b : Bytes) : sizedBytes (some b.length) b = b :=
  List.take_length

@[simp] theorem setopt_setopt (s : Session) (f g : Handle → Handle) :
    (s.setopt f).setopt g = s.setopt (fun h => g (f h)) := by
  simp only [Session.setopt, Option.map_map]
  rfl

theorem Represents.setBodyMove (hr : Represents platform mem s σ) (b : Body) :
    Represents platform mem (s.setBodyMove b) (σ.apply (.body b)) := by
  rw [Session.setBodyMove, if_pos hr.isSome, setopt_setopt]
  refine hr.setopt _ (fun r => { r with postFieldSize := some b.length, postFields := some b })
    (fun h slists => ?_) rfl rfl rfl rfl rfl
  simp [settledHandle, Handle.request, PostFields.read]

theorem Represents.setBody (hr : Represents platform mem s σ) {addr : Addr} {b : Body}
    (hmem : mem addr = b) : Represents platform mem (s.setBody addr b) (σ.apply (.body b)) := by
  rw [Session.setBody, if_pos hr.isSome, setopt_setopt]
  refine hr.setopt _ (fun r => { r with postFieldSize := some b.length, postFields := some b })
    (fun h slists => ?_) rfl rfl rfl rfl rfl
  simp [settledHandle, Handle.request, PostFields.read, hmem]

theorem Represents.setProtocolVersion (hr : Represents platform mem s σ) (v : HTTP) :
    Represents platform mem (s.setProtocolVersion platform v) (σ.apply (.protocolVersion v)) := by
  rw [Session.setProtocolVersion, if_pos hr.isSome]
  cases v with
  | v1x => exact hr
  | v2 =>
    have hset : ∀ n, n = (if platform.http2 then CURL_HTTP_VERSION_2_0 else CURL_HTTP_VERSION_1_1) →
        Represents platform mem (s.setopt (fun h => { h with httpVersion := some n }))
          (σ.apply (.protocolVersion .v2)) := by
      rintro n rfl
      exact hr.setopt _ (fun r => { r with httpVersion := some (if platform.http2 then
        CURL_HTTP_VERSION_2_0 else CURL_HTTP_VERSION_1_1) }) (fun _ _ => rfl) rfl rfl rfl rfl rfl
    rw [if_pos rfl]
    split
    · next h2 =>
      have h := hset CURL_HTTP_VERSION_2_0 (by rw [if_pos h2])
      exact ⟨h.handle, h.url, h.parameters, h.headers, h.retryPolicy, h.rendered⟩
    · next h2 =>
      have h := hset CURL_HTTP_VERSION_1_1 (by rw [if_neg h2])
      exact ⟨h.handle, h.url, h.parameters, h.headers, h.retryPolicy, h.rendered⟩

theorem setSslCert_eq (s : Session) (addr : Addr) (c : SslCert) :
    s.setSslCert platform addr c = s.setopt (fun h =>
      { h with
        sslOptions := if platform.windows then some CURLSSLOPT_NATIVE_CA else h.sslOptions
        sslCertType := if c.certString_ ≠ [] then some (str ['P', 'E', 'M']) else h.sslCertType
        sslCtxFunction := if c.certString_ ≠ [] then true else h.sslCtxFunction
        sslCtxData := if c.certString_ ≠ [] then some addr else h.sslCtxData
        pinnedPublicKey := if c.pkp_ ≠ [] then some (cstr c.pkp_) else h.pinnedPublicKey }) := by
  have hid : s.setopt (fun h => h) = s := by
    simp [Session.setopt]
  by_cases hw : platform.windows = true <;> by_cases hc : c.certString_ = [] <;>
    by_cases hp : c.pkp_ = [] <;>
    simp [Session.setSslCert, hw, hc, hp, hid]

theorem Represents.setSslCert (hr : Represents platform mem s σ) {addr : Addr} {c : SslCert}
    (hmem : c.certString_ ≠ [] → mem addr = c.certString_) :
    Represents platform mem (s.setSslCert platform addr c) (σ.apply (.sslCert c)) := by
  rw [setSslCert_eq]
  refine hr.setopt _ (fun r =>
      { r with
        sslOptions := if platform.windows then some CURLSSLOPT_NATIVE_CA else r.sslOptions
        sslCertType := if c.certString_ ≠ [] then some (str ['P', 'E', 'M']) else r.sslCertType
        sslCtxFunction := if c.certString_ ≠ [] then true else r.sslCtxFunction
        sslCtxData := if c.certString_ ≠ [] then some (cstr c.certString_) else r.sslCtxData
        pinnedPublicKey := if c.pkp_ ≠ [] then some (cstr c.pkp_) else r.pinnedPublicKey })
    (fun h slists => ?_) ?_ rfl rfl rfl rfl
  · by_cases hc : c.certString_ = []
    · simp [settledHandle, Handle.request, hc]
    · simp [settledHandle, Handle.request, hc, hmem hc]
  · by_cases hc : c.certString_ = [] <;> by_cases hp : c.pkp_ = [] <;>
      cases hw : platform.windows <;>
      simp [Settings.settled, Settings.apply, Settings.httpVersion, hc, hp, hw]

theorem Represents.setHeaders (hr : Represents platform mem s σ) (headers : Headers) :
    Represents platform mem (s.setHeaders allAppended headers) (σ.apply (.headers headers)) := by
  obtain ⟨h, hs, hsettled⟩ := hr.handle
  have hst := headerState_setHeaders hr.isSome allAppended headers
  have hrendered := rendered_setHeaders hr.isSome hr.rendered headers
  have hheaders : (s.setHeaders allAppended headers).headers_ = mergeHeaders headers σ.headers := by
    rw [show (s.setHeaders allAppended headers).headers_ = mergeHeaders headers s.headers_ from
      congrArg HeaderState.headers_ hst, hr.headers]
  have hitems : (s.setHeaders allAppended headers).slists.items
      (s.setHeaders allAppended headers).curl_.chunk =
        some ((mergeHeaders headers σ.headers).entries.map itemText) := hheaders ▸ hrendered.items
  refine ⟨⟨{ h with httpHeader := some (s.setHeaders allAppended headers).curl_.chunk }, ?_, ?_⟩,
    ?_, ?_, hheaders, ?_, hrendered⟩
  · rw [setHeaders_of_some hs]
  · have hstep := congrArg (fun r : Request => { r with
      headers := some (some ((mergeHeaders headers σ.headers).entries.map itemText)) }) hsettled
    simp only [settledHandle, Handle.request, Option.map_some, hitems] at hstep ⊢
    exact hstep
  · rw [setHeaders_of_some hs]
    exact hr.url
  · rw [setHeaders_of_some hs]
    exact hr.parameters
  · rw [setHeaders_of_some hs]
    exact hr.retryPolicy

theorem Represents.setOption (hr : Represents platform mem s σ) {addr : Addr} {arg : Arg}
    (hmem : ReadsBack mem addr arg) :
    Represents platform mem (s.setOption platform allAppended addr arg).1
      (σ.apply arg.object) := by
  obtain ⟨category, object⟩ := arg
  cases object with
  | url u => exact hr.setUrl u
  | parameters p =>
    simp only [Session.setOption]
    split <;> exact hr.setParameters p
  | headers h => exact hr.setHeaders h
  | timeout t => exact hr.setTimeout t
  | authentication a => exact hr.setAuth a
  | body b =>
    simp only [Session.setOption]
    split
    · exact hr.setBodyMove b
    · next hc => exact hr.setBody (hmem hc)
  | protocolVersion v => exact hr.setProtocolVersion v
  | retryPolicy r => exact hr.setRetryPolicy r
  | sslCert c => exact hr.setSslCert hmem

theorem represents_new : Represents platform mem (new platform true) {} :=
  ⟨⟨_, rfl, rfl⟩, rfl, rfl, rfl, rfl, ⟨rfl, fun p hp => by cases hp⟩⟩

theorem Represents.nextRequest (hr : Represents platform mem s σ) (method : Bytes) :
    s.nextRequest method mem = some (σ.request platform method) := by
  obtain ⟨h, hs, hsettled⟩ := hr.handle
  have hstep := congrArg (fun r : Request => { r with
    url := some (cstr (requestUrl σ.url σ.parameters.content))
    noBody := some 0
    customRequest := some method }) hsettled
  simp only [Session.nextRequest, hs, Option.map_some, hr.url, hr.parameters]
  exact congrArg some hstep

theorem Represents.perform (hr : Represents platform mem s σ) (method : Bytes) (mem' : Memory)
    (t : Transfer) : Represents platform mem (s.perform method mem' t).session σ := by
  obtain ⟨h, hs, hsettled⟩ := hr.handle
  obtain ⟨-, -, hm, hh⟩ := perform_spec hs method mem' t
  refine ⟨⟨_, hh, ?_⟩, hm.url.trans hr.url, hm.parameters.trans hr.parameters,
    hm.headers.trans hr.headers, hm.retryPolicy.trans hr.retryPolicy, ?_⟩
  · rw [hm.slists, ← hsettled]
    rfl
  · rw [headerState_perform]
    exact hr.rendered

end Session
end Curlinho
