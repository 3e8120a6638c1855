import Curlinho.Session.Isolation

/-! # Sessions as machines that are told options

The abstract session keeps what it was told: the settings, the items that made it onto
the header list, and where the bytes lie that it was lent. A concrete session sends, over
any run, what the abstract one asks for, exactly as long as the loans in force are
honoured when a request is made.
-/
namespace Curlinho
open Foundation

def appendedItems (ok : ℕ → Bool) : ℕ → List (Bytes × Bytes) → List Bytes
  | _, [] => []
  | i, header :: rest =>
    (if ok i then [Session.itemText header] else []) ++ appendedItems ok (i + 1) rest

/-- The body is lent at an address or copied; a certificate is always lent. -/
structure Told where
  settings : Settings := {}
  items : List Bytes := []
  bodyAt : Option Addr := none
  certificateAt : Addr := 0

namespace Told

def apply (τ : Told) (ok : ℕ → Bool) (addr : Addr) (arg : Arg) : Told where
  settings := τ.settings.apply arg.object
  items :=
    match arg.object with
    | .headers h => appendedItems ok 0 (Session.mergeHeaders h τ.settings.headers).entries
    | _ => τ.items
  bodyAt :=
    match arg.object with
    | .body _ => if arg.category = .rvalue then none else some addr
    | _ => τ.bodyAt
  certificateAt :=
    match arg.object with
    | .sslCert c => if c.certString_ ≠ [] then addr else τ.certificateAt
    | _ => τ.certificateAt

def start (url : Url) (addr : Addr) (body : Body) : Told where
  settings := { url := url, body := if body = [] then none else some body }
  bodyAt := some addr

/-- What the memory has to say for the loans in force: as many bytes of the body as it has,
and the certificate up to its first NUL. -/
def Honoured (τ : Told) (mem : Memory) : Prop :=
  (∀ a ∈ τ.bodyAt, ∀ b ∈ τ.settings.body, (mem a).take b.length = b) ∧
    ∀ c ∈ τ.settings.certificate, cstr (mem τ.certificateAt) = cstr c

variable (platform : Platform)

def request (τ : Told) (method : Bytes) : Request :=
  { τ.settings.request platform method with
    headers := if τ.settings.headersSet then some (some τ.items) else none }

def applyCall (τ : Told) : SessionCall → Told
  | .setOption ok addr arg => τ.apply ok addr arg
  | .get _ _ => τ
  | .post _ _ => τ

def request? (τ : Told) : SessionCall → Option Request
  | .setOption _ _ _ => none
  | .get _ _ => some (τ.request platform (str ['G', 'E', 'T']))
  | .post _ _ => some (τ.request platform (str ['P', 'O', 'S', 'T']))

def requests (τ : Told) : List SessionCall → List (Option Request)
  | [] => []
  | call :: calls => ((τ.request? platform call).toList.map some) ++ (τ.applyCall call).requests calls

def HonouredBy (τ : Told) : SessionCall → Prop
  | .setOption _ _ _ => True
  | .get mem _ => τ.Honoured mem
  | .post mem _ => τ.Honoured mem

def AllHonoured (τ : Told) : List SessionCall → Prop
  | [] => True
  | call :: calls => τ.HonouredBy call ∧ (τ.applyCall call).AllHonoured calls

/-- The options of the handle, but for those that every transfer sets again and for the
header list. -/
def handle (τ : Told) : Handle where
  defaults := Session.sensibleDefaults platform
  timeoutMs := τ.settings.timeout.map Timeout.milliseconds
  httpAuth := τ.settings.auth.map (fun _ => CURLAUTH_BASIC)
  userPwd := τ.settings.auth.map Authentication.getAuthString
  postFieldSize := τ.settings.body.map List.length
  postFields := τ.settings.body.map (fun b =>
    match τ.bodyAt with
    | some a => .borrowed a
    | none => .copied b)
  httpVersion := τ.settings.httpVersion platform
  sslOptions := if τ.settings.tls && platform.windows then some CURLSSLOPT_NATIVE_CA else none
  sslCertType := τ.settings.certificate.map (fun _ => str ['P', 'E', 'M'])
  sslCtxFunction := τ.settings.certificate.isSome
  sslCtxData := τ.settings.certificate.map (fun _ => τ.certificateAt)
  pinnedPublicKey := τ.settings.pinnedKey.map cstr

def requestIn (τ : Told) (method : Bytes) (mem : Memory) : Request :=
  { τ.request platform method with
    postFields := (τ.handle platform).postFields.map
      (PostFields.read mem (τ.handle platform).postFieldSize)
    sslCtxData := (τ.handle platform).sslCtxData.map (fun a => cstr (mem a)) }

end Told

/-- The options of a handle that only setters write, but for the header list. -/
def Handle.settled (h : Handle) : Handle :=
  { h with
    url := none
    httpHeader := none
    noBody := none
    customRequest := none
    writeFunction := false
    writeData := none
    headerData := none }

namespace Session
variable (platform : Platform)

/-- The requests of a run, in order; `none` for a call on a NULL handle. -/
def requestsSent (s : Session) : List SessionCall → List (Option Request)
  | [] => []
  | call :: calls =>
    (match call with
      | .setOption _ _ _ => []
      | .get mem t => [(s.get mem t).request]
      | .post mem t => [(s.post mem t).request]) ++ (s.applyCall platform call).requestsSent calls

/-- The concrete session is in a state that the abstract one stands for. -/
structure Follows (s : Session) (τ : Told) : Prop where
  handle : ∃ h, s.curl_.handle = some h ∧ h.settled = τ.handle platform ∧
    h.httpHeader = if τ.settings.headersSet then some s.curl_.chunk else none
  url : s.url_ = τ.settings.url
  parameters : s.parameters_ = τ.settings.parameters
  headers : s.headers_ = τ.settings.headers
  items : s.slists.items s.curl_.chunk = some τ.items
  fresh : ∀ p, s.curl_.chunk = some p → p < s.slists.next

variable {platform} {s : Session} {τ : Told}

theorem buildChunk_items (ok : ℕ → Bool) (entries : List (Bytes × Bytes)) (i : ℕ)
    (heap : SlistHeap) (chunk : Option SlistPtr) {items : List Bytes}
    (hitems : heap.items chunk = some items) (hfresh : ∀ p, chunk = some p → p < heap.next) :
    (buildChunk ok i entries (heap, chunk)).1.items (buildChunk ok i entries (heap, chunk)).2 =
      some (items ++ appendedItems ok i entries) := by
  induction entries generalizing i heap chunk items with
  | nil =>
    rw [appendedItems, List.append_nil]
    exact hitems
  | cons header entries ih =>
    cases hok : ok i with
    | false =>
      rw [buildChunk_cons_failed hok, ih (i + 1) heap chunk hitems hfresh]
      simp [appendedItems, hok]
    | true =>
      obtain ⟨p, hp, hnew, hlt, -, -, -⟩ := append_spec hitems hfresh (headerString header)
      have hrest := ih (i + 1) _ (some p) hnew (fun q hq => Option.some.inj hq ▸ hlt)
      rw [← hp] at hrest
      rw [buildChunk_cons_appended hok, hrest, List.append_assoc]
      simp [appendedItems, hok, itemText]

theorem appended_setHeaders (hs : s.curl_.handle.isSome = true)
    (hfresh : ∀ p, s.curl_.chunk = some p → p < s.slists.next) (ok : ℕ → Bool)
    (headers : Headers) :
    (s.setHeaders ok headers).slists.items (s.setHeaders ok headers).curl_.chunk =
        some (appendedItems ok 0 (mergeHeaders headers s.headers_).entries) ∧
      ∀ p, (s.setHeaders ok headers).curl_.chunk = some p →
        p < (s.setHeaders ok headers).slists.next := by
  obtain ⟨items, hitems, -, -, hnext⟩ := items_setHeaders hs hfresh ok headers
  refine ⟨?_, hnext⟩
  have hst := headerState_setHeaders hs ok headers
  have hbuilt := buildChunk_items ok (mergeHeaders headers s.headers_).entries 0 s.slists none rfl
    (fun p hp => by cases hp)
  have hne : ∀ p, s.curl_.chunk = some p →
      (buildChunk ok 0 (mergeHeaders headers s.headers_).entries (s.slists, none)).2 ≠ some p := by
    obtain ⟨-, -, -, -, hnew⟩ := buildChunk_spec ok (mergeHeaders headers s.headers_).entries 0
      s.slists none rfl (fun p hp => by cases hp) (le_refl s.slists.next)
    intro p hp hq
    exact absurd (hfresh p hp) (not_lt.mpr (hnew p hq).1)
  rw [show (s.setHeaders ok headers).slists = _ from congrArg HeaderState.slists hst,
    show (s.setHeaders ok headers).curl_.chunk = _ from congrArg HeaderState.chunk hst]
  exact (items_freeAll hne).trans hbuilt

theorem settled_handleUpdate (addr : Addr) (arg : Arg) (chunk : Option SlistPtr) (h : Handle) :
    (handleUpdate platform addr arg chunk h).settled =
      (handleUpdate platform addr arg chunk h.settled).settled := by
  obtain ⟨category, object⟩ := arg
  cases object with
  | protocolVersion v => cases v <;> rfl
  | _ => rfl

/-- What a setter does to the handle is what the abstract session is told. -/
theorem settled_handle (τ : Told) (ok : ℕ → Bool) (addr : Addr) (arg : Arg)
    (chunk : Option SlistPtr) :
    (handleUpdate platform addr arg chunk (τ.handle platform)).settled =
      (τ.apply ok addr arg).handle platform := by
  obtain ⟨category, object⟩ := arg
  cases object with
  | body b => by_cases hc : category = .rvalue <;> simp [handleUpdate, Told.handle, Told.apply,
      Settings.apply, Settings.httpVersion, Handle.settled, hc]
  | protocolVersion v =>
    cases v with
    | v1x => simp [handleUpdate, Told.handle, Told.apply, Settings.apply, Settings.httpVersion,
        Handle.settled]
    | v2 => simp [handleUpdate, Told.handle, Told.apply, Settings.apply, Settings.httpVersion,
        Handle.settled]
  | sslCert c =>
    by_cases hc : c.certString_ = [] <;> by_cases hp : c.pkp_ = [] <;>
      cases hw : platform.windows <;>
      simp [handleUpdate, Told.handle, Told.apply, Settings.apply, Settings.httpVersion,
        Handle.settled, hc, hp, hw]
  | _ => rfl

variable (platform) in
theorem members_setOption (ok : ℕ → Bool) (addr : Addr) (arg : Arg) :
    (s.setOption platform ok addr arg).1.url_ = (arg.object.url?).getD s.url_ ∧
      (s.setOption platform ok addr arg).1.parameters_ =
        (arg.object.parameters?).getD s.parameters_ := by
  obtain ⟨category, object⟩ := arg
  cases object with
  | sslCert c =>
    simp only [setOption, setSslCert_eq]
    exact ⟨rfl, rfl⟩
  | _ =>
    simp only [setOption, setParametersMove, setHeaders, setTimeout, setAuth, setBody, setBodyMove,
      setProtocolVersion]
    repeat' split
    all_goals exact ⟨rfl, rfl⟩

theorem Follows.setHeaders (hf : s.Follows platform τ) (ok : ℕ → Bool) (addr : Addr)
    (category : ValueCategory) (headers : Headers) :
    (s.setHeaders ok headers).Follows platform (τ.apply ok addr ⟨category, .headers headers⟩) := by
  obtain ⟨h, hs, hsettled, -⟩ := hf.handle
  have hsome : s.curl_.handle.isSome = true := by rw [hs]; rfl
  have hst := headerState_setHeaders hsome ok headers
  obtain ⟨hitems, hfresh⟩ := appended_setHeaders hsome hf.fresh ok headers
  refine ⟨⟨{ h with httpHeader := some (s.setHeaders ok headers).curl_.chunk }, ?_, ?_, rfl⟩,
    ?_, ?_, ?_, ?_, hfresh⟩
  · rw [setHeaders_of_some hs]
  · exact hsettled
  · exact (members_setOption platform ok addr ⟨category, .headers headers⟩).1.trans hf.url
  · exact (members_setOption platform ok addr ⟨category, .headers headers⟩).2.trans
      hf.parameters
  · rw [show (s.setHeaders ok headers).headers_ = _ from congrArg HeaderState.headers_ hst,
      hf.headers]
    rfl
  · rw [hitems, hf.headers]
    rfl

theorem Follows.setOption (hf : s.Follows platform τ) (ok : ℕ → Bool) (addr : Addr) (arg : Arg) :
    (s.setOption platform ok addr arg).1.Follows platform (τ.apply ok addr arg) := by
  by_cases hheaders : ∃ headers, arg.object = .headers headers
  · obtain ⟨category, object⟩ := arg
    obtain ⟨headers, rfl⟩ := hheaders
    exact hf.setHeaders ok addr category headers
  · have hst := headerState_setOption platform s ok addr arg (not_exists.mp hheaders)
    obtain ⟨chunk, hchunk⟩ := setOption_handle platform s ok addr arg
    obtain ⟨h, hs, hsettled, hheader⟩ := hf.handle
    have hslists : (s.setOption platform ok addr arg).1.slists = s.slists :=
      congrArg HeaderState.slists hst
    have hheld : (s.setOption platform ok addr arg).1.curl_.chunk = s.curl_.chunk :=
      congrArg HeaderState.chunk hst
    have hmap : (s.setOption platform ok addr arg).1.headers_ = s.headers_ :=
      congrArg HeaderState.headers_ hst
    rw [hs, Option.map_some] at hchunk
    obtain ⟨hurl, hparameters⟩ := @members_setOption platform s ok addr arg
    refine ⟨⟨_, hchunk, ?_, ?_⟩, ?_, ?_, ?_, ?_, ?_⟩
    · rw [settled_handleUpdate, hsettled, settled_handle τ ok]
    · obtain ⟨category, object⟩ := arg
      rw [hheld]
      cases object with
      | headers headers => exact absurd ⟨headers, rfl⟩ hheaders
      | protocolVersion v => cases v <;> exact hheader
      | _ => exact hheader
    · rw [hurl, hf.url]
      obtain ⟨category, object⟩ := arg
      cases object <;> rfl
    · rw [hparameters, hf.parameters]
      obtain ⟨category, object⟩ := arg
      cases object <;> rfl
    · rw [hmap, hf.headers]
      obtain ⟨category, object⟩ := arg
      cases object with
      | headers headers => exact absurd ⟨headers, rfl⟩ hheaders
      | _ => rfl
    · rw [hslists, hheld, hf.items]
      obtain ⟨category, object⟩ := arg
      cases object with
      | headers headers => exact absurd ⟨headers, rfl⟩ hheaders
      | _ => rfl
    · rw [hslists, hheld]
      exact hf.fresh

theorem follows_newWith (url : Url) (addr : Addr) (body : Body) :
    (newWith platform true url addr body).Follows platform (Told.start url addr body) := by
  have hnew : (if url ≠ [] then (new platform true).setUrl url else new platform true) =
      (new platform true).setUrl url := by
    split
    · rfl
    · next h => rw [not_not.mp h]; rfl
  unfold newWith
  simp only [hnew]
  by_cases hb : body = []
  · rw [if_neg (not_not.mpr hb)]
    refine ⟨⟨_, rfl, ?_, rfl⟩, rfl, rfl, rfl, rfl, fun p hp => by cases hp⟩
    simp [Handle.settled, Told.handle, Told.start, hb, Settings.httpVersion]
  · rw [if_pos hb]
    refine ⟨⟨_, rfl, ?_, rfl⟩, rfl, rfl, rfl, rfl, fun p hp => by cases hp⟩
    simp [Handle.settled, Told.handle, Told.start, hb, Settings.httpVersion]

theorem Follows.perform (hf : s.Follows platform τ) (method : Bytes) (mem : Memory)
    (t : Transfer) : (s.perform method mem t).session.Follows platform τ := by
  obtain ⟨h, hs, hsettled, hheader⟩ := hf.handle
  obtain ⟨-, -, hm, hh⟩ := perform_spec hs method mem t
  refine ⟨⟨_, hh, hsettled, ?_⟩, hm.url.trans hf.url, hm.parameters.trans hf.parameters,
    hm.headers.trans hf.headers, ?_, ?_⟩
  · rw [hm.chunk]
    exact hheader
  · rw [hm.slists, hm.chunk]
    exact hf.items
  · rw [hm.slists, hm.chunk]
    exact hf.fresh

/-- A session that follows sends what was asked for, the loans being read in the memory. -/
theorem Follows.request_eq (hf : s.Follows platform τ) (method : Bytes) (mem : Memory)
    (t : Transfer) :
    (s.perform method mem t).request = some (τ.requestIn platform method mem) := by
  obtain ⟨h, hs, hsettled, hheader⟩ := hf.handle
  obtain ⟨hrequest, -, -, -⟩ := perform_spec hs method mem t
  have hheaders : h.httpHeader.map s.slists.items =
      if τ.settings.headersSet then some (some τ.items) else none := by
    rw [hheader]
    split
    · rw [Option.map_some, hf.items]
    · rfl
  -- the fields of the handle are those of its settled part
  have hfields : h.request s.slists mem =
      { (τ.handle platform).request s.slists mem with
        url := h.url
        headers := h.httpHeader.map s.slists.items
        noBody := h.noBody
        customRequest := h.customRequest } := by
    rw [← hsettled]
    rfl
  rw [hrequest, nextRequest, hs, Option.map_some, hfields, hheaders, hf.url, hf.parameters]
  rfl

theorem Follows.request_iff (hf : s.Follows platform τ) (method : Bytes) (mem : Memory)
    (t : Transfer) : (s.perform method mem t).request = some (τ.request platform method) ↔
      τ.Honoured mem := by
  rw [hf.request_eq, Option.some.injEq]
  constructor
  · intro heq
    have hbody := congrArg Request.postFields heq
    have hdata := congrArg Request.sslCtxData heq
    simp only [Told.requestIn, Told.handle, Told.request, Settings.request, Settings.settled,
      Option.map_map] at hbody hdata
    constructor
    · intro a ha b hb
      rw [Option.mem_def] at ha hb
      rw [hb, ha] at hbody
      exact Option.some.inj hbody
    · intro c hc
      rw [Option.mem_def] at hc
      rw [hc] at hdata
      exact Option.some.inj hdata
  · rintro ⟨hbody, hdata⟩
    have hread : (τ.handle platform).postFields.map
        (PostFields.read mem (τ.handle platform).postFieldSize) = τ.settings.body := by
      simp only [Told.handle]
      cases hb : τ.settings.body with
      | none => rfl
      | some b =>
        cases ha : τ.bodyAt with
        | none => rfl
        | some a => exact congrArg some (hbody a ha b hb)
    have hcert : (τ.handle platform).sslCtxData.map (fun a => cstr (mem a)) =
        τ.settings.certificate.map cstr := by
      simp only [Told.handle]
      cases hc : τ.settings.certificate with
      | none => rfl
      | some c => exact congrArg some (hdata c hc)
    simp only [Told.requestIn, hread, hcert]
    rfl

theorem Follows.applyCall (hf : s.Follows platform τ) (call : SessionCall) :
    (s.applyCall platform call).Follows platform (τ.applyCall call) := by
  cases call with
  | setOption ok addr arg => exact hf.setOption ok addr arg
  | get mem t => exact hf.perform _ mem t
  | post mem t => exact hf.perform _ mem t

/-- Sessions that follow the same abstract one send the same, whatever becomes of the loans. -/
theorem Follows.requestsSent_eq {s' : Session} (hf : s.Follows platform τ)
    (hf' : s'.Follows platform τ) (calls : List SessionCall) :
    s.requestsSent platform calls = s'.requestsSent platform calls := by
  induction calls generalizing s s' τ with
  | nil => rfl
  | cons call calls ih =>
    have hrest := ih (hf.applyCall call) (hf'.applyCall call)
    cases call with
    | setOption ok addr arg => exact hrest
    | get mem t =>
      have hfirst := (hf.request_eq (str ['G', 'E', 'T']) mem t).trans
        (hf'.request_eq (str ['G', 'E', 'T']) mem t).symm
      exact List.cons_eq_cons.mpr ⟨hfirst, hrest⟩
    | post mem t =>
      have hfirst := (hf.request_eq (str ['P', 'O', 'S', 'T']) mem t).trans
        (hf'.request_eq (str ['P', 'O', 'S', 'T']) mem t).symm
      exact List.cons_eq_cons.mpr ⟨hfirst, hrest⟩

/-- Over any run, with any outcomes of the appends to header lists, a session sends the
requests that it was told to exactly if each of them finds the loans in force honoured. -/
theorem requestsSent_eq_iff (url : Url) (addr : Addr) (body : Body) (calls : List SessionCall) :
    (newWith platform true url addr body).requestsSent platform calls =
        (Told.start url addr body).requests platform calls ↔
      (Told.start url addr body).AllHonoured calls := by
  have hall : ∀ (s : Session) (τ : Told), s.Follows platform τ →
      (s.requestsSent platform calls = τ.requests platform calls ↔ τ.AllHonoured calls) := by
    induction calls with
    | nil => exact fun s τ _ => iff_of_true rfl trivial
    | cons call calls ih =>
      intro s τ hf
      have hrest := ih _ _ (hf.applyCall call)
      cases call with
      | setOption ok addr arg =>
        rw [Told.AllHonoured, Told.HonouredBy, true_and, ← hrest]
        rfl
      | get mem t =>
        rw [Told.AllHonoured, Told.HonouredBy, ← hf.request_iff (str ['G', 'E', 'T']) mem t,
          ← hrest]
        exact List.cons_eq_cons
      | post mem t =>
        rw [Told.AllHonoured, Told.HonouredBy, ← hf.request_iff (str ['P', 'O', 'S', 'T']) mem t,
          ← hrest]
        exact List.cons_eq_cons
  exact hall _ _ (follows_newWith url addr body)

end Session
end Curlinho
