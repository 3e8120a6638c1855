import Curlinho.Session.Session

/-! # Performing a request

`makeRequest` composes the URL, points the handle at two local strings, performs the
transfer and assembles the response. What libcurl does during a transfer is given by
its deliveries through `writeFunction`, the text in the error buffer and the values
it reports afterwards.
-/
namespace Curlinho
open Foundation

/-- `util::writeFunction`: the new content of the string and the count returned. -/
def writeFunction (ptr : Bytes) (size nmemb : ℕ) (data : Bytes) : Bytes × ℕ :=
  (data ++ ptr.take (size * nmemb), size * nmemb)

/-- One call of the write callback, for header data or for body data. -/
structure Delivery where
  header : Bool
  ptr : Bytes
  size : ℕ
  nmemb : ℕ

def Delivery.chunk (d : Delivery) : Bytes := d.ptr.take (d.size * d.nmemb)

def textOf (header : Bool) (deliveries : List Delivery) : Bytes :=
  (deliveries.filter (fun d => d.header == header)).flatMap Delivery.chunk

/-- The conversion of a `long` to `int`. -/
def toInt (n : Int) : Int := n.bmod 0x100000000

structure Transfer where
  deliveries : List Delivery := []
  errorText : Option Bytes := none
  code : Int := CURLE_OK
  responseCode : Int := 0
  totalTime : ℚ := 0
  effectiveUrl : Bytes := []

structure Locals where
  responseString : Bytes := []
  headerString : Bytes := []

inductive Fault
  | uninitialised
  | dangling
deriving DecidableEq

/-- The callback appends to the string that its data pointer names, which has to be
one of the running activation. -/
def Locals.write (l : Locals) (frame : ℕ) (d : Delivery) : Option LocalRef → Except Fault Locals
  | some ⟨f, .responseString⟩ =>
    if f = frame then
      .ok { l with responseString := (writeFunction d.ptr d.size d.nmemb l.responseString).1 }
    else .error .dangling
  | some ⟨f, .headerString⟩ =>
    if f = frame then
      .ok { l with headerString := (writeFunction d.ptr d.size d.nmemb l.headerString).1 }
    else .error .dangling
  | none => .error .dangling

/-- Without a header callback, header data goes through the write callback with the
header data pointer. Without a write callback nothing reaches the session. -/
def Handle.deliver (h : Handle) (frame : ℕ) (l : Locals) (d : Delivery) : Except Fault Locals :=
  if h.writeFunction then l.write frame d (if d.header then h.headerData else h.writeData)
  else .ok l

/-- A local variable: what was written to it, if anything. -/
abbrev Local (α : Type) := Option α

def Local.read {α : Type} : Local α → Except Fault α
  | some v => .ok v
  | none => .error .uninitialised

/-- `curl_easy_getinfo` writes its output argument on a valid handle only. -/
def getinfo {α : Type} (handle : Option Handle) (value : α) (out : Local α) : Local α :=
  if handle.isSome then some value else out

def CURLE_BAD_FUNCTION_ARGUMENT : Int := 43

def performCode (handle : Option Handle) (t : Transfer) : Int :=
  if handle.isSome then t.code else CURLE_BAD_FUNCTION_ARGUMENT

/-- The end of `makeRequest`: what libcurl reports is fetched and the response is put
together. -/
def finish (handle : Option Handle) (t : Transfer) (locals : Locals) (error : Bytes) :
    Except Fault Response := do
  let curl_error := performCode handle t
  let response_code : Local Int := getinfo handle t.responseCode none
  let elapsed : Local ℚ := getinfo handle t.totalTime none
  let raw_url : Local Bytes := getinfo handle (cstr t.effectiveUrl) none
  pure
    { statusCode := toInt (← response_code.read)
      text := locals.responseString
      headers := parseHeaders locals.headerString
      url := ← raw_url.read
      elapsed := ← elapsed.read
      error := ⟨curl_error, cstr error⟩ }

/-- What one call of `makeRequest` leaves: the session, the request if one was sent,
and the response unless a fault occurred. -/
structure Outcome where
  session : Session
  request : Option Request
  result : Except Fault Response

namespace Session

def requestUrl (url_ : Url) (content : Bytes) : Bytes :=
  if content ≠ [] then url_ ++ ch '?' :: content else url_

def makeRequest (s : Session) (mem : Memory) (t : Transfer) : Outcome :=
  let s := s.setopt (fun h =>
    { h with url := some (cstr (requestUrl s.url_ s.parameters_.content)) })
  let s := { s with curl_ := { s.curl_ with error := [] } }
  let frame := s.frames
  let s := { s with frames := frame + 1 }
  let s := s.setopt (fun h =>
    { h with
      writeFunction := true
      writeData := some ⟨frame, .responseString⟩
      headerData := some ⟨frame, .headerString⟩ })
  match s.curl_.handle with
  | none => { session := s, request := none, result := finish none t {} s.curl_.error }
  | some h =>
    let request := some (h.request s.slists mem)
    match t.deliveries.foldlM (h.deliver frame) {} with
    | .error fault => { session := s, request := request, result := .error fault }
    | .ok locals =>
      let error := if h.defaults.errorBuffer then t.errorText.getD s.curl_.error else s.curl_.error
      let s := { s with curl_ := { s.curl_ with error := error } }
      { session := s, request := request, result := finish (some h) t locals error }

def perform (s : Session) (method : Bytes) (mem : Memory) (t : Transfer) : Outcome :=
  let s := if s.curl_.handle.isSome then
      (s.setopt (fun h => { h with noBody := some 0 })).setopt
        (fun h => { h with customRequest := some method })
    else s
  s.makeRequest mem t

def get (s : Session) (mem : Memory) (t : Transfer) : Outcome :=
  s.perform (str ['G', 'E', 'T']) mem t

def post (s : Session) (mem : Memory) (t : Transfer) : Outcome :=
  s.perform (str ['P', 'O', 'S', 'T']) mem t

def nextRequest (s : Session) (method : Bytes) (mem : Memory) : Option Request :=
  s.curl_.handle.map (fun h =>
    { h.request s.slists mem with
      url := some (cstr (requestUrl s.url_ s.parameters_.content))
      noBody := some 0
      customRequest := some method })

/-- Both data pointers name strings of the running activation: each delivery is
appended to the string of its kind, whatever comes between, and none goes astray. -/
theorem foldlM_deliver (h : Handle) (frame : ℕ) (hf : h.writeFunction = true)
    (hw : h.writeData = some ⟨frame, .responseString⟩)
    (hh : h.headerData = some ⟨frame, .headerString⟩) (ds : List Delivery) (l : Locals) :
    ds.foldlM (h.deliver frame) l = .ok
      { responseString := l.responseString ++ textOf false ds
        headerString := l.headerString ++ textOf true ds } := by
  induction ds generalizing l with
  | nil => simp [textOf, pure, Except.pure]
  | cons d ds ih =>
    rw [List.foldlM_cons]
    cases hd : d.header with
    | false =>
      have hstep : h.deliver frame l d =
          .ok { l with responseString := l.responseString ++ d.chunk } := by
        simp [Handle.deliver, hf, hw, hd, Locals.write, writeFunction, Delivery.chunk]
      rw [hstep]
      exact (ih _).trans (by simp [textOf, hd])
    | true =>
      have hstep : h.deliver frame l d =
          .ok { l with headerString := l.headerString ++ d.chunk } := by
        simp [Handle.deliver, hf, hh, hd, Locals.write, writeFunction, Delivery.chunk]
      rw [hstep]
      exact (ih _).trans (by simp [textOf, hd])

structure SameMembers (s s' : Session) : Prop where
  url : s'.url_ = s.url_
  parameters : s'.parameters_ = s.parameters_
  headers : s'.headers_ = s.headers_
  retryPolicy : s'.retryPolicy_ = s.retryPolicy_
  protocolVersion : s'.protocolVersion_ = s.protocolVersion_
  slists : s'.slists = s.slists
  chunk : s'.curl_.chunk = s.curl_.chunk

/-- The handle a transfer runs with. -/
def handleRequest (s : Session) (method : Bytes) (h : Handle) : Handle :=
  { h with
    url := some (cstr (requestUrl s.url_ s.parameters_.content))
    noBody := some 0
    customRequest := some method
    writeFunction := true
    writeData := some ⟨s.frames, .responseString⟩
    headerData := some ⟨s.frames, .headerString⟩ }

theorem perform_of_none {s : Session} (hs : s.curl_.handle = none) (method : Bytes)
    (mem : Memory) (t : Transfer) :
    s.perform method mem t =
      { session := { s with curl_ := { s.curl_ with error := [] }, frames := s.frames + 1 }
        request := none
        result := .error .uninitialised } := by
  simp only [perform, makeRequest, setopt, hs, Option.isSome_none, Bool.false_eq_true, if_false,
    Option.map_none]
  rfl

theorem perform_of_some {s : Session} {h : Handle} (hs : s.curl_.handle = some h)
    (method : Bytes) (mem : Memory) (t : Transfer) :
    s.perform method mem t =
      let error := if h.defaults.errorBuffer then t.errorText.getD [] else []
      { session := { s with
          curl_ := { s.curl_ with handle := some (s.handleRequest method h), error := error }
          frames := s.frames + 1 }
        request := some ((s.handleRequest method h).request s.slists mem)
        result := finish (some (s.handleRequest method h)) t
          { responseString := textOf false t.deliveries, headerString := textOf true t.deliveries }
          error } := by
  have hl := foldlM_deliver (s.handleRequest method h) s.frames rfl rfl rfl t.deliveries {}
  simp only [handleRequest] at hl
  simp only [perform, makeRequest, setopt, hs, Option.isSome_some, if_true, Option.map_some, hl]
  rfl

/-- On a valid handle a transfer is performed, sends the next request and answers with
the reported status and code. It changes only what every transfer sets again. -/
theorem perform_spec {s : Session} {h : Handle} (hs : s.curl_.handle = some h) (method : Bytes)
    (mem : Memory) (t : Transfer) :
    (s.perform method mem t).request = s.nextRequest method mem ∧
    (∃ r, (s.perform method mem t).result = .ok r ∧
      r.statusCode = toInt t.responseCode ∧ r.error.code = t.code) ∧
    SameMembers s (s.perform method mem t).session ∧
    (s.perform method mem t).session.curl_.handle = some (s.handleRequest method h) := by
  rw [perform_of_some hs]
  refine ⟨?_, ⟨_, rfl, rfl, rfl⟩, ⟨rfl, rfl, rfl, rfl, rfl, rfl, rfl⟩, rfl⟩
  rw [nextRequest, hs, Option.map_some]
  rfl

end Session
end Curlinho
