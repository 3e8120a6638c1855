import Curlinho.Session.Handle
import Curlinho.Util.ParseHeaders

/-! # Sessions

The setters write into session members, into the curl handle or into both. A NULL
handle is carried through every operation, and reading a variable that libcurl did
not write is a fault.
-/
namespace Curlinho
open Foundation

structure CurlHolder where
  handle : Option Handle
  chunk : Option SlistPtr
  error : Bytes

/-- The members of a session, with the header lists it has allocated and the number
of `makeRequest` activations so far, which names their local strings. -/
structure Session where
  curl_ : CurlHolder
  url_ : Url := []
  parameters_ : Parameters := {}
  headers_ : Headers := OrderedMap.empty
  retryPolicy_ : RetryPolicy := {}
  protocolVersion_ : Bytes := []
  slists : SlistHeap := {}
  frames : ℕ := 0

/-- `init` tells whether `curl_easy_init` succeeds. -/
def newHolder (init : Bool) : CurlHolder where
  handle := if init then some {} else none
  chunk := none
  error := []

namespace Session

/-- `curl_easy_setopt` on the session's handle; on NULL it only returns an error code. -/
def setopt (s : Session) (f : Handle → Handle) : Session :=
  { s with curl_ := { s.curl_ with handle := s.curl_.handle.map f } }

@[simp] theorem setopt_handle (s : Session) (f : Handle → Handle) :
    (s.setopt f).curl_.handle = s.curl_.handle.map f := rfl

@[simp] theorem setopt_chunk (s : Session) (f : Handle → Handle) :
    (s.setopt f).curl_.chunk = s.curl_.chunk := rfl

@[simp] theorem setopt_headers_ (s : Session) (f : Handle → Handle) :
    (s.setopt f).headers_ = s.headers_ := rfl

@[simp] theorem setopt_protocolVersion_ (s : Session) (f : Handle → Handle) :
    (s.setopt f).protocolVersion_ = s.protocolVersion_ := rfl

@[simp] theorem setopt_slists (s : Session) (f : Handle → Handle) :
    (s.setopt f).slists = s.slists := rfl

variable (platform : Platform)

def sensibleDefaults : Defaults where
  userAgent := some (cstr (str ['c', 'u', 'r', 'l', '/'] ++ platform.version))
  followLocation := some 1
  noProgress := some 1
  maxRedirs := some 50
  errorBuffer := true
  cookieFile := some []
  noSignal := if platform.noSignal then some 1 else none
  tcpKeepAlive := some 1

def new (init : Bool) : Session :=
  let s : Session := { curl_ := newHolder init }
  s.setopt (fun h => { h with defaults := sensibleDefaults platform })

def setSslCert (s : Session) (addr : Addr) (sslcert : SslCert) : Session :=
  let s := if platform.windows then
      s.setopt (fun h => { h with sslOptions := some CURLSSLOPT_NATIVE_CA })
    else s
  let s := if sslcert.certString_ ≠ [] then
      s.setopt (fun h =>
        { h with
          sslCertType := some (str ['P', 'E', 'M'])
          sslCtxFunction := true
          sslCtxData := some addr })
    else s
  if sslcert.pkp_ ≠ [] then
    s.setopt (fun h => { h with pinnedPublicKey := some (cstr sslcert.pkp_) })
  else s

def setUrl (s : Session) (url : Url) : Session := { s with url_ := url }

def setParameters (s : Session) (parameters : Parameters) : Session :=
  { s with parameters_ := parameters }

/-- `SetParameters(Parameters &&)`, with what it leaves in its argument. -/
def setParametersMove (s : Session) (parameters : Parameters) : Session × Parameters :=
  ({ s with parameters_ := parameters }, {})

def headerString (header : Bytes × Bytes) : Bytes :=
  if header.2 = [] then header.1 ++ [ch ';'] else header.1 ++ (str [':', ' '] ++ header.2)

/-- The loop that renders the headers into a new list; `ok i` is the outcome of the
`i`-th append. -/
def buildChunk (ok : ℕ → Bool) : ℕ → List (Bytes × Bytes) → SlistHeap × Option SlistPtr →
    SlistHeap × Option SlistPtr
  | _, [], built => built
  | i, header :: rest, (heap, chunk) =>
    let (heap, temp) := heap.append (ok i) chunk (headerString header)
    buildChunk ok (i + 1) rest (heap, if temp.isSome then temp else chunk)

theorem buildChunk_cons_failed {ok : ℕ → Bool} {i : ℕ} (hok : ok i = false)
    (header : Bytes × Bytes) (rest : List (Bytes × Bytes)) (heap : SlistHeap)
    (chunk : Option SlistPtr) :
    buildChunk ok i (header :: rest) (heap, chunk) = buildChunk ok (i + 1) rest (heap, chunk) := by
  simp [buildChunk, hok]

theorem buildChunk_cons_appended {ok : ℕ → Bool} {i : ℕ} (hok : ok i = true)
    (header : Bytes × Bytes) (rest : List (Bytes × Bytes)) (heap : SlistHeap)
    (chunk : Option SlistPtr) :
    buildChunk ok i (header :: rest) (heap, chunk) =
      buildChunk ok (i + 1) rest (heap.append true chunk (headerString header)) := by
  simp [buildChunk, hok]

def setHeaders (s : Session) (ok : ℕ → Bool) (headers : Headers) : Session :=
  if s.curl_.handle.isSome then
    let newHeaders : Headers := OrderedMap.empty.insertAll headers.entries
    let newHeaders := newHeaders.insertAll s.headers_.entries
    let (heap, chunk) := buildChunk ok 0 newHeaders.entries (s.slists, none)
    let s := { s with headers_ := newHeaders }
    let s := s.setopt (fun h => { h with httpHeader := some chunk })
    { s with
      slists := heap.freeAll s.curl_.chunk
      curl_ := { s.curl_ with chunk := chunk } }
  else s

def setTimeout (s : Session) (timeout : Timeout) : Session :=
  if s.curl_.handle.isSome then
    s.setopt (fun h => { h with timeoutMs := some timeout.milliseconds })
  else s

def setAuth (s : Session) (auth : Authentication) : Session :=
  if s.curl_.handle.isSome then
    s.setopt (fun h =>
      { h with httpAuth := some CURLAUTH_BASIC, userPwd := some auth.getAuthString })
  else s

/-- `SetBody(Body &&)` lets libcurl copy the bytes and leaves its argument alone. -/
def setBodyMove (s : Session) (body : Body) : Session :=
  if s.curl_.handle.isSome then
    let s := s.setopt (fun h => { h with postFieldSize := some body.length })
    s.setopt (fun h => { h with postFields := some (.copied (sizedBytes h.postFieldSize body)) })
  else s

/-- `SetBody(const Body &)` hands over the address of the caller's bytes. -/
def setBody (s : Session) (addr : Addr) (body : Body) : Session :=
  if s.curl_.handle.isSome then
    let s := s.setopt (fun h => { h with postFieldSize := some body.length })
    s.setopt (fun h => { h with postFields := some (.borrowed addr) })
  else s

def setProtocolVersion (s : Session) (protocol_version : HTTP) : Session :=
  if s.curl_.handle.isSome then
    if protocol_version = HTTP.v2 then
      if platform.http2 then
        let s := s.setopt (fun h => { h with httpVersion := some CURL_HTTP_VERSION_2_0 })
        { s with protocolVersion_ := str ['H', 'T', 'T', 'P', '/', '2', '.', '0'] }
      else
        let s := s.setopt (fun h => { h with httpVersion := some CURL_HTTP_VERSION_1_1 })
        { s with protocolVersion_ := str ['H', 'T', 'T', 'P', '/', '1', '.', '1'] }
    else s
  else s

def setRetryPolicy (s : Session) (retryPolicy : RetryPolicy) : Session :=
  { s with retryPolicy_ := retryPolicy }

def getRetryPolicy (s : Session) : RetryPolicy := s.retryPolicy_

/-- `Session::Session(url, body)`, the body being at `addr`. -/
def newWith (init : Bool) (url : Url) (addr : Addr) (body : Body) : Session :=
  let s := new platform init
  let s := if url ≠ [] then s.setUrl url else s
  if body ≠ [] then s.setBody addr body else s

/-- The overload of `SetOption` selected by an argument at `addr`, and what it leaves
in the argument: only a `Parameters` rvalue is consumed. -/
def setOption (s : Session) (ok : ℕ → Bool) (addr : Addr) (arg : Arg) : Session × OptionObject :=
  match arg.object with
  | .url url => (s.setUrl url, arg.object)
  | .parameters parameters =>
    if arg.category = .rvalue then
      let (s, parameters) := s.setParametersMove parameters
      (s, .parameters parameters)
    else (s.setParameters parameters, arg.object)
  | .headers headers => (s.setHeaders ok headers, arg.object)
  | .timeout timeout => (s.setTimeout timeout, arg.object)
  | .authentication auth => (s.setAuth auth, arg.object)
  | .body body =>
    if arg.category = .rvalue then (s.setBodyMove body, arg.object)
    else (s.setBody addr body, arg.object)
  | .protocolVersion protocolVersion => (s.setProtocolVersion platform protocolVersion, arg.object)
  | .retryPolicy retryPolicy => (s.setRetryPolicy retryPolicy, arg.object)
  | .sslCert sslcert => (s.setSslCert platform addr sslcert, arg.object)

end Session
end Curlinho
