import Curlinho.Session.Transfer

/-! # Runs of a session

A run is any sequence of `SetOption`, `Get` and `Post` calls on one session. Appends
to header lists succeed throughout.
-/
namespace Curlinho

def allAppended : ℕ → Bool := fun _ => true

inductive Operation
  | option (addr : Addr) (arg : Arg)
  | get (mem : Memory) (t : Transfer)
  | post (mem : Memory) (t : Transfer)

namespace Session
variable (platform : Platform)

def applyOperation (s : Session) : Operation → Session
  | .option addr arg => (s.setOption platform allAppended addr arg).1
  | .get mem t => (s.get mem t).session
  | .post mem t => (s.post mem t).session

def run (s : Session) (ops : List Operation) : Session := ops.foldl (applyOperation platform) s

/-- What only `SetHeaders` changes: the map, the list and the option naming it. -/
structure HeaderState where
  headers_ : Headers
  chunk : Option SlistPtr
  slists : SlistHeap
  httpHeader : Option (Option (Option SlistPtr))

def headerState (s : Session) : HeaderState where
  headers_ := s.headers_
  chunk := s.curl_.chunk
  slists := s.slists
  httpHeader := s.curl_.handle.map Handle.httpHeader

theorem httpHeader_headerState {s : Session} {h : Handle} (hs : s.curl_.handle = some h)
    {chunk : Option SlistPtr} :
    s.headerState.httpHeader = some (some chunk) ↔ h.httpHeader = some chunk := by
  simp [headerState, hs]

@[simp] theorem headerState_setopt (s : Session) {f : Handle → Handle}
    (hf : ∀ h, (f h).httpHeader = h.httpHeader) : (s.setopt f).headerState = s.headerState := by
  simp [headerState, Function.comp_def, hf]

@[simp] theorem headerState_setSslCert (s : Session) (addr : Addr) (sslcert : SslCert) :
    (s.setSslCert platform addr sslcert).headerState = s.headerState := by
  unfold setSslCert
  split <;> split <;> split <;> simp

@[simp] theorem headerState_setTimeout (s : Session) (timeout : Timeout) :
    (s.setTimeout timeout).headerState = s.headerState := by
  unfold setTimeout
  split <;> simp

@[simp] theorem headerState_setAuth (s : Session) (auth : Authentication) :
    (s.setAuth auth).headerState = s.headerState := by
  unfold setAuth
  split <;> simp

@[simp] theorem headerState_setBodyMove (s : Session) (body : Body) :
    (s.setBodyMove body).headerState = s.headerState := by
  unfold setBodyMove
  split <;> simp

@[simp] theorem headerState_setBody (s : Session) (addr : Addr) (body : Body) :
    (s.setBody addr body).headerState = s.headerState := by
  unfold setBody
  split <;> simp

@[simp] theorem headerState_setProtocolVersion (s : Session) (v : HTTP) :
    (s.setProtocolVersion platform v).headerState = s.headerState := by
  unfold setProtocolVersion
  split
  · split
    · split <;> exact headerState_setopt s (fun _ => rfl)
    · rfl
  · rfl

theorem headerState_setOption (s : Session) (ok : ℕ → Bool) (addr : Addr) (arg : Arg)
    (h : ∀ headers, arg.object ≠ .headers headers) :
    (s.setOption platform ok addr arg).1.headerState = s.headerState := by
  unfold setOption
  split
  · rfl
  · split <;> rfl
  · next headers harg => exact absurd harg (h headers)
  · exact headerState_setTimeout s _
  · exact headerState_setAuth s _
  · split
    · exact headerState_setBodyMove s _
    · exact headerState_setBody s addr _
  · exact headerState_setProtocolVersion platform s _
  · rfl
  · exact headerState_setSslCert platform s addr _

@[simp] theorem headerState_perform (s : Session) (method : Bytes) (mem : Memory) (t : Transfer) :
    (s.perform method mem t).session.headerState = s.headerState := by
  cases hs : s.curl_.handle with
  | none => simp [perform_of_none hs, hs, headerState]
  | some h => simp [perform_of_some hs, hs, headerState, handleRequest]

theorem headerState_newWith (init : Bool) (url : Url) (addr : Addr) (body : Body) :
    (newWith platform init url addr body).headerState =
      { headers_ := Foundation.OrderedMap.empty, chunk := none, slists := {},
        httpHeader := if init then some none else none } := by
  have hnew : (new platform init).headerState =
      { headers_ := Foundation.OrderedMap.empty, chunk := none, slists := {},
        httpHeader := if init then some none else none } := by
    cases init <;> rfl
  rw [← hnew]
  unfold newWith
  split <;> split <;> first | rfl | exact headerState_setBody _ addr body

end Session
end Curlinho
