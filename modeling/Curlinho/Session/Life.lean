import Curlinho.Foundation.Ledger
import Curlinho.Session.Responses

/-! # The life of a session

Construction, any calls and destruction, with everything that is acquired on the way:
the handle, the header lists, and what `ctxFunction` takes in each TLS handshake. Each
resource is an entry in a ledger, and every state in between is looked at.
-/
namespace Curlinho
open Foundation

inductive Resource
  | handle
  | slist (p : SlistPtr)
  | bio (handshake : ℕ)
  | x509 (handshake : ℕ)
deriving DecidableEq

/-- What happens in one handshake: whether the PEM text holds a certificate, and
whether the store takes it. -/
structure Handshake where
  reads : Bool
  added : Bool

def CURLE_SSL_CERTPROBLEM : Int := 58

/-- `ctxFunction` in handshake `n`. The store takes a reference of its own. -/
def ctxFunction (l : Ledger Resource) (n : ℕ) (h : Handshake) : Ledger Resource × Int :=
  let l := l.acquire (.bio n)
  if h.reads then
    let l := l.acquire (.x509 n)
    if h.added then ((l.release (.x509 n)).release (.bio n), CURLE_OK)
    else (l, CURLE_SSL_CERTPROBLEM)
  else (l, CURLE_SSL_CERTPROBLEM)

/-- What the early returns of handshake `n` leave behind. -/
def leak (n : ℕ) (h : Handshake) : List Resource :=
  if h.reads then (if h.added then [] else [.bio n, .x509 n]) else [.bio n]

def leaks (handshakes : List Handshake) : List Resource :=
  handshakes.zipIdx.flatMap (fun e => leak e.2 e.1)

namespace Session

/-- `SetHeaders` statement by statement: the list is built, handed to libcurl, the old
one released and the new one kept. -/
def setHeadersStates (s : Session) (ok : ℕ → Bool) (headers : Headers) : List Session :=
  if s.curl_.handle.isSome then
    let newHeaders : Headers := OrderedMap.empty.insertAll headers.entries
    let newHeaders := newHeaders.insertAll s.headers_.entries
    let (heap, chunk) := buildChunk ok 0 newHeaders.entries (s.slists, none)
    let built := { s with headers_ := newHeaders, slists := heap }
    let named := built.setopt (fun h => { h with httpHeader := some chunk })
    let freed := { named with slists := named.slists.freeAll named.curl_.chunk }
    let kept := { freed with curl_ := { freed.curl_ with chunk := chunk } }
    [built, named, freed, kept]
  else [s]

/-- `freeHolder`: the handle is cleaned up before the list is released. -/
def freeHolderStates (s : Session) : List Session :=
  let cleaned := { s with curl_ := { s.curl_ with handle := none } }
  let freed := { cleaned with
    slists := cleaned.slists.freeAll cleaned.curl_.chunk
    curl_ := { cleaned.curl_ with chunk := none } }
  [cleaned, freed]

variable (platform : Platform)

def callStates (s : Session) (call : SessionCall) : List Session :=
  match call with
  | .setOption ok _ ⟨_, .headers headers⟩ => s.setHeadersStates ok headers
  | _ => [s.applyCall platform call]

/-- The header option of the handle names a list that has been released. -/
def NamesReleased (s : Session) : Prop :=
  ∃ h p, s.curl_.handle = some h ∧ h.httpHeader = some (some p) ∧ p ∈ s.slists.released

theorem getLast?_setHeadersStates (s : Session) (ok : ℕ → Bool) (headers : Headers) :
    (s.setHeadersStates ok headers).getLast? = some (s.setHeaders ok headers) := by
  unfold setHeadersStates setHeaders
  split <;> rfl

theorem getLast?_callStates (s : Session) (call : SessionCall) :
    (s.callStates platform call).getLast? = some (s.applyCall platform call) := by
  unfold callStates
  split
  · exact getLast?_setHeadersStates s _ _
  · rfl

end Session

/-- A call, with the handshakes that a connection made in it would go through. -/
structure LifeCall where
  call : SessionCall
  handshakes : List Handshake := []

def SessionCall.setsCertificate : SessionCall → Bool
  | setOption _ _ ⟨_, .sslCert c⟩ => decide (c.certString_ ≠ [])
  | _ => false

/-- The handshakes of `c` call the callback: `c` is a request on a valid handle, and a
certificate was set before it. -/
def CallsBack (init : Bool) (before : List LifeCall) (c : LifeCall) : Prop :=
  init = true ∧ c.call.transfer?.isSome = true ∧ ∃ d ∈ before, d.call.setsCertificate = true

/-- A session with the ledger of its handle and of the callback, the handshakes in
which the callback was called, and the states it went through. -/
structure Life where
  session : Session
  ledger : Ledger Resource
  handshakes : List Handshake
  visited : List Session

namespace Life
variable (platform : Platform)

def start (init : Bool) (url : Url) (addr : Addr) (body : Body) : Life where
  session := Session.newWith platform init url addr body
  ledger := if init then ({} : Ledger Resource).acquire .handle else {}
  handshakes := []
  visited := [Session.newWith platform init url addr body]

def handshake (life : Life) (h : Handshake) : Life :=
  { life with
    ledger := (ctxFunction life.ledger life.handshakes.length h).1
    handshakes := life.handshakes ++ [h] }

/-- The callback is called in the handshakes of a request on a handle that has it. -/
def call (life : Life) (c : LifeCall) : Life :=
  let life :=
    if c.call.transfer?.isSome && life.session.curl_.handle.any Handle.sslCtxFunction then
      c.handshakes.foldl handshake life
    else life
  { life with
    session := life.session.applyCall platform c.call
    visited := life.visited ++ life.session.callStates platform c.call }

def destroy (life : Life) : Life :=
  { life with
    session := { life.session with
      slists := life.session.slists.freeAll life.session.curl_.chunk
      curl_ := { life.session.curl_ with handle := none, chunk := none } }
    ledger := if life.session.curl_.handle.isSome then life.ledger.release .handle else life.ledger
    visited := life.visited ++ life.session.freeHolderStates }

theorem getLast?_freeHolderStates (life : Life) :
    life.session.freeHolderStates.getLast? = some life.destroy.session := rfl

def whole (init : Bool) (url : Url) (addr : Addr) (body : Body) (calls : List LifeCall) : Life :=
  (calls.foldl (call platform) (start platform init url addr body)).destroy

/-- All that the session acquired and released, the header lists included. -/
def total (life : Life) : Ledger Resource :=
  life.ledger.join (Ledger.map .slist
    ⟨List.range life.session.slists.next, life.session.slists.released⟩)

end Life

end Curlinho
