import Curlinho.Session.Settings
import Curlinho.Foundation.LastWrite

/-! # What the history of a session leaves behind

A sequence of `SetOption` calls is compared, setting by setting, with the last call
that concerns the setting, made alone on a fresh session. The guards in `SetSslCert`
and `SetProtocolVersion` are where an earlier call can show through.
-/
namespace Curlinho
open Foundation

inductive Kind
  | url
  | parameters
  | headers
  | timeout
  | authentication
  | body
  | protocolVersion
  | retryPolicy
  | sslCert
deriving DecidableEq

def OptionObject.kind : OptionObject → Kind
  | url _ => .url
  | parameters _ => .parameters
  | headers _ => .headers
  | timeout _ => .timeout
  | authentication _ => .authentication
  | body _ => .body
  | protocolVersion _ => .protocolVersion
  | retryPolicy _ => .retryPolicy
  | sslCert _ => .sslCert

/-- The settings other than the headers. An `SslCert` concerns three of them. -/
inductive Slot
  | url
  | parameters
  | timeout
  | credentials
  | body
  | version
  | retryPolicy
  | trustStore
  | certificate
  | pinnedKey

namespace Slot

def kind : Slot → Kind
  | url => .url
  | parameters => .parameters
  | timeout => .timeout
  | credentials => .authentication
  | body => .body
  | version => .protocolVersion
  | retryPolicy => .retryPolicy
  | trustStore => .sslCert
  | certificate => .sslCert
  | pinnedKey => .sslCert

abbrev Content : Slot → Type
  | url => Url
  | parameters => Parameters
  | timeout => Option Int
  | credentials => Option ℕ × Option Bytes
  | body => Option ℕ × Option Bytes
  | version => Option ℕ
  | retryPolicy => RetryPolicy
  | trustStore => Option ℕ
  | certificate => Option Bytes × Bool × Option Bytes
  | pinnedKey => Option Bytes

def content (url_ : Url) (parameters_ : Parameters) (retryPolicy_ : RetryPolicy) (r : Request) :
    (slot : Slot) → slot.Content
  | url => url_
  | parameters => parameters_
  | timeout => r.timeoutMs
  | credentials => (r.httpAuth, r.userPwd)
  | body => (r.postFieldSize, r.postFields)
  | version => r.httpVersion
  | retryPolicy => retryPolicy_
  | trustStore => r.sslOptions
  | certificate => (r.sslCertType, r.sslCtxFunction, r.sslCtxData)
  | pinnedKey => r.pinnedPublicKey

/-- The objects that concern a setting: those of its kind, the certificate and the
pinned key only when they are not empty. -/
def takes : Slot → OptionObject → Bool
  | certificate, .sslCert c => c.certString_ ≠ []
  | pinnedKey, .sslCert c => c.pkp_ ≠ []
  | slot, o => o.kind = slot.kind

end Slot

namespace Session
variable (platform : Platform) (mem : Memory)

/-- The recursion of `set_option` over its arguments, each with its address. The second
component is what is left in the arguments. -/
def setOptions (s : Session) : List (Arg × Addr) → Session × List OptionObject
  | [] => (s, [])
  | (arg, addr) :: args =>
    let (s, object) := s.setOption platform allAppended addr arg
    let (s, objects) := s.setOptions args
    (s, object :: objects)

def setting (s : Session) (slot : Slot) : Option slot.Content :=
  s.curl_.handle.map (fun h =>
    slot.content s.url_ s.parameters_ s.retryPolicy_ (h.request s.slists mem))

end Session

namespace Settings
variable (platform : Platform)

def setting (σ : Settings) (slot : Slot) : slot.Content :=
  slot.content σ.url σ.parameters σ.retryPolicy (σ.settled platform)

def written : (slot : Slot) → OptionObject → Option slot.Content
  | .url, .url u => some u
  | .parameters, .parameters p => some p
  | .timeout, .timeout t => some (some t.milliseconds)
  | .credentials, .authentication a => some (some CURLAUTH_BASIC, some a.getAuthString)
  | .body, .body b => some (some b.length, some b)
  | .version, .protocolVersion .v2 =>
    some (some (if platform.http2 then CURL_HTTP_VERSION_2_0 else CURL_HTTP_VERSION_1_1))
  | .retryPolicy, .retryPolicy r => some r
  | .trustStore, .sslCert _ => some (if platform.windows then some CURLSSLOPT_NATIVE_CA else none)
  | .certificate, .sslCert c =>
    if c.certString_ ≠ [] then some (some (str ['P', 'E', 'M']), true, some (cstr c.certString_))
    else none
  | .pinnedKey, .sslCert c => if c.pkp_ ≠ [] then some (some (cstr c.pkp_)) else none
  | _, _ => none

variable {platform}

theorem applyAll_url (σ : Settings) (os : List OptionObject) :
    (σ.applyAll os).url = (lastSome OptionObject.url? os).getD σ.url :=
  foldl_component Settings.url (fun σ o => by cases o <;> rfl) os σ

theorem applyAll_parameters (σ : Settings) (os : List OptionObject) :
    (σ.applyAll os).parameters = (lastSome OptionObject.parameters? os).getD σ.parameters :=
  foldl_component Settings.parameters (fun σ o => by cases o <;> rfl) os σ

theorem applyAll_retryPolicy (σ : Settings) (os : List OptionObject) :
    (σ.applyAll os).retryPolicy = (lastSome OptionObject.retryPolicy? os).getD σ.retryPolicy :=
  foldl_component Settings.retryPolicy (fun σ o => by cases o <;> rfl) os σ

theorem applyAll_body (σ : Settings) (os : List OptionObject) :
    (σ.applyAll os).body = (lastSome OptionObject.body? os).or σ.body :=
  foldl_component_or Settings.body (fun σ o => by cases o <;> rfl) os σ

end Settings

namespace Session
variable {platform : Platform} {mem : Memory}

theorem Represents.setOptions {s : Session} {σ : Settings} (hr : Represents platform mem s σ)
    {calls : List (Arg × Addr)} (hmem : ∀ call ∈ calls, ReadsBack mem call.2 call.1) :
    Represents platform mem (s.setOptions platform calls).1
      (σ.applyAll (calls.map (fun call => call.1.object))) := by
  induction calls generalizing s σ with
  | nil => exact hr
  | cons call calls ih =>
    have hstep := hr.setOption (hmem call List.mem_cons_self)
    exact ih hstep (fun c hc => hmem c (List.mem_cons_of_mem _ hc))

theorem Represents.setting {s : Session} {σ : Settings} (hr : Represents platform mem s σ)
    (slot : Slot) : s.setting mem slot = some (σ.setting platform slot) := by
  obtain ⟨h, hs, hsettled⟩ := hr.handle
  simp only [Session.setting, hs, Option.map_some, hr.url, hr.parameters, hr.retryPolicy,
    Settings.setting, ← hsettled]
  cases slot <;> rfl

variable (platform mem)

variable {platform mem}

end Session
end Curlinho
