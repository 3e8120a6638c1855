import Curlinho.Calls.Frame
import Curlinho.Foundation.FirstStop
import Mathlib.Algebra.Order.Ring.Int

/-! # The retry loop

A thread started after the first response builds a session of its own and sends the
request again while the last response warrants it. Sleeps and requests are recorded
as events.
-/
namespace Curlinho
open Foundation

/-- The delay before a retry. `narrow` is the conversion of the product to `int`. -/
def backoff (narrow : Int → Int) (policy : RetryPolicy) (retry : ℕ) (drawn : Int) : Int :=
  let timer := narrow (2 ^ retry * drawn)
  if timer > policy.maxBackOff then policy.maxBackOff else timer

inductive Verdict
  | again
  | stop
  | idle
deriving DecidableEq

def verdict (policy : RetryPolicy) (r : Response) : Verdict :=
  if r.statusCode ≠ 200 ∨ r.error.code ≠ CURLE_OK then
    if r.error.code = CURLE_OPERATION_TIMEDOUT then .again
    else if r.statusCode ∉ policy.recoverableCodes_ then .stop
    else .again
  else .idle

inductive Event
  | sleep (timer : Int)
  | request (request : Request)
deriving DecidableEq

structure Thread where
  events : List Event
  session : Session
  result : Except Fault Response

variable (policy : RetryPolicy) (timer : ℕ → Int) (method : Bytes) (mem : Memory)

/-- The loop with `n` rounds to go, the next being `retry`; `ts` are the transfers that
its requests will meet. A success keeps the loop going without a request. -/
def retryLoop : ℕ → ℕ → Session → Response → (ℕ → Transfer) → Thread
  | 0, _, s, r, _ => ⟨[], s, .ok r⟩
  | n + 1, retry, s, r, ts =>
    match verdict policy r with
    | .stop => ⟨[], s, .ok r⟩
    | .idle => retryLoop n (retry + 1) s r ts
    | .again =>
      let outcome := s.perform method mem (ts 0)
      let sent := .sleep (timer retry) :: outcome.request.toList.map Event.request
      match outcome.result with
      | .error fault => ⟨sent, outcome.session, .error fault⟩
      | .ok r =>
        let thread := retryLoop n (retry + 1) outcome.session r (fun i => ts (i + 1))
        { thread with events := sent ++ thread.events }

structure Answer where
  statusCode : Int
  code : Int

def Response.answer (r : Response) : Answer := ⟨r.statusCode, r.error.code⟩

/-- The answer that a transfer leads to, the status being stored as an `int`. -/
def Transfer.answer (t : Transfer) : Answer := ⟨toInt t.responseCode, t.code⟩

/-- The answer to the request before the `i`-th retry. -/
def answers (r : Response) (ts : ℕ → Transfer) : ℕ → Answer
  | 0 => r.answer
  | i + 1 => (ts i).answer

def Retryable (a : Answer) : Prop :=
  (a.statusCode ≠ 200 ∨ a.code ≠ CURLE_OK) ∧
    (a.code = CURLE_OPERATION_TIMEDOUT ∨ a.statusCode ∈ policy.recoverableCodes_)

instance (a : Answer) : Decidable (Retryable policy a) := inferInstanceAs (Decidable (_ ∧ _))

variable {policy timer method mem}

theorem verdict_eq_again_iff (r : Response) :
    verdict policy r = .again ↔ Retryable policy r.answer := by
  unfold verdict Retryable Response.answer
  split
  · next h =>
    split
    · next htimeout => exact ⟨fun _ => ⟨h, .inl htimeout⟩, fun _ => rfl⟩
    · next htimeout =>
      split
      · next hcodes => exact iff_of_false (by decide) (fun hr => hr.2.elim htimeout hcodes)
      · next hcodes => exact ⟨fun _ => ⟨h, .inr (not_not.mp hcodes)⟩, fun _ => rfl⟩
  · next h => exact iff_of_false (by decide) (fun hr => h hr.1)

theorem answers_shift {r r' : Response} {ts : ℕ → Transfer}
    (hstatus : r'.statusCode = toInt (ts 0).responseCode) (hcode : r'.error.code = (ts 0).code)
    (i : ℕ) : answers r' (fun i => ts (i + 1)) i = answers r ts (i + 1) := by
  cases i with
  | zero => simp only [answers, Response.answer, Transfer.answer, hstatus, hcode]
  | succ i => rfl

theorem retryLoop_idle {r : Response} (hr : verdict policy r = .idle) (n retry : ℕ) (s : Session)
    (ts : ℕ → Transfer) :
    (retryLoop policy timer method mem n retry s r ts).events = [] := by
  induction n generalizing retry with
  | zero => rfl
  | succ n ih =>
    unfold retryLoop
    rw [hr]
    exact ih (retry + 1)

theorem Session.nextRequest_perform {s : Session} {h : Handle} (hs : s.curl_.handle = some h)
    (t : Transfer) : (s.perform method mem t).session.nextRequest method mem =
      s.nextRequest method mem := by
  obtain ⟨-, -, hm, hh⟩ := perform_spec hs method mem t
  simp only [nextRequest, hh, hs, Option.map_some, hm.url, hm.parameters, hm.slists]
  rfl

/-- The loop alternates sleeps and requests, always the same request, until the rounds are
used up or an answer is not retryable. -/
theorem retryLoop_events {s : Session} {h : Handle} (hs : s.curl_.handle = some h) {q : Request}
    (hq : s.nextRequest method mem = some q) (n retry : ℕ) (r : Response) (ts : ℕ → Transfer) :
    (retryLoop policy timer method mem n retry s r ts).events =
      (List.range (firstStop n (fun i => Retryable policy (answers r ts i)))).flatMap
        (fun i => [.sleep (timer (retry + i)), .request q]) := by
  induction n generalizing retry s h r ts with
  | zero => rfl
  | succ n ih =>
    cases hv : verdict policy r with
    | again =>
      have h0 : Retryable policy (answers r ts 0) := (verdict_eq_again_iff r).mp hv
      obtain ⟨hrequest, ⟨r', hr', hstatus, hcode⟩, -, hh⟩ :=
        Session.perform_spec hs method mem (ts 0)
      have hq' : (s.perform method mem (ts 0)).session.nextRequest method mem = some q :=
        (Session.nextRequest_perform hs (ts 0)).trans hq
      have hanswers := answers_shift (r := r) hstatus hcode
      rw [retryLoop, hv, firstStop, if_pos (decide_eq_true h0), range_succ_flatMap]
      simp only [hr', hrequest, hq, ih hh hq' (retry + 1), hanswers, Option.toList_some,
        List.map_cons, List.map_nil, Nat.add_zero, Nat.add_assoc, Nat.add_comm 1]
    | stop =>
      have h0 : ¬ Retryable policy (answers r ts 0) := by
        rw [answers, ← verdict_eq_again_iff, hv]
        decide
      rw [retryLoop, hv, firstStop, if_neg (by simpa using h0)]
      rfl
    | idle =>
      have h0 : ¬ Retryable policy (answers r ts 0) := by
        rw [answers, ← verdict_eq_again_iff, hv]
        decide
      rw [retryLoop_idle hv, firstStop, if_neg (by simpa using h0)]
      rfl

section
variable (platform : Platform) (narrow : Int → Int) (draw : ℕ → Int)

/-- The body of a retry thread. The options are its own parameters, forwarded as rvalues;
`draw` gives the random delays. -/
def handleRetries (method : Bytes) (res : Response) (url : Url) (body : Body)
    (options : List OptionObject) (ts : ℕ → Transfer) : Thread :=
  let s := Session.newWith platform true url 0 body
  let (s, options) := s.setArguments platform (options.map (Arg.mk .rvalue))
  let retries := s.getRetryPolicy
  retryLoop retries (fun retry => backoff narrow retries retry (draw retry)) method
    (frameMemory body options) retries.numRetries.toNat 0 s res ts

def handlePostRetries (res : Response) (url : Url) (body : Body) (options : List OptionObject)
    (ts : ℕ → Transfer) : Thread :=
  handleRetries platform narrow draw (str ['P', 'O', 'S', 'T']) res url body options ts

def handleGetRetries (res : Response) (url : Url) (options : List OptionObject)
    (ts : ℕ → Transfer) : Thread :=
  handleRetries platform narrow draw (str ['G', 'E', 'T']) res url [] options ts

end

def retryPolicyOf (options : List OptionObject) : RetryPolicy :=
  (lastSome OptionObject.retryPolicy? options).getD {}

def retrySettings (url : Url) (body : Body) (options : List OptionObject) : Settings :=
  Settings.applyAll { url := url, body := if body = [] then none else some body } options

variable {platform : Platform} {narrow : Int → Int} {draw : ℕ → Int}

@[simp] theorem map_rvalue_object (options : List OptionObject) :
    (options.map (Arg.mk .rvalue)).map Arg.object = options := by
  rw [List.map_map]
  exact List.map_id options

theorem represents_retrySession (url : Url) (body : Body) (options : List OptionObject) :
    Session.Represents platform
      (frameMemory body ((options.map (Arg.mk .rvalue)).map Arg.remaining))
      ((Session.newWith platform true url 0 body).setArguments platform
        (options.map (Arg.mk .rvalue))).1 (retrySettings url body options) := by
  have hr : Session.Represents platform
      (frameMemory body ((options.map (Arg.mk .rvalue)).map Arg.remaining))
      (Session.newWith platform true url 0 body) _ := Session.represents_newWith rfl
  have h := hr.setArguments
  rwa [map_rvalue_object] at h

theorem handleRetries_events (method : Bytes) (res : Response) (url : Url) (body : Body)
    (options : List OptionObject) (ts : ℕ → Transfer) :
    (handleRetries platform narrow draw method res url body options ts).events =
      (List.range (firstStop (retryPolicyOf options).numRetries.toNat
        (fun i => Retryable (retryPolicyOf options) (answers res ts i)))).flatMap
        (fun i => [.sleep (backoff narrow (retryPolicyOf options) i (draw i)),
          .request ((retrySettings url body options).request platform method)]) := by
  have hr := @represents_retrySession platform url body options
  obtain ⟨h, hs, -⟩ := hr.handle
  have hpolicy : ((Session.newWith platform true url 0 body).setArguments platform
      (options.map (Arg.mk .rvalue))).1.getRetryPolicy = retryPolicyOf options :=
    hr.retryPolicy.trans (Settings.applyAll_retryPolicy _ options)
  simp only [handleRetries, hpolicy, Session.setArguments_snd]
  rw [retryLoop_events hs (hr.nextRequest method)]
  simp only [Nat.zero_add]

/-- Each of the two retry threads sends exactly `k` requests, each after one sleep, where
`k` is the smaller of the number of retries and the first index whose answer is not
retryable. -/
theorem retries_isLeast (res : Response) (url : Url) (body : Body) (options : List OptionObject)
    (ts : ℕ → Transfer) :
    ∃ k, IsLeast {i | i = (retryPolicyOf options).numRetries.toNat ∨
        ¬ Retryable (retryPolicyOf options) (answers res ts i)} k ∧
      (∃ q, (handlePostRetries platform narrow draw res url body options ts).events =
        (List.range k).flatMap (fun i =>
          [.sleep (backoff narrow (retryPolicyOf options) i (draw i)), .request q])) ∧
      ∃ q, (handleGetRetries platform narrow draw res url options ts).events =
        (List.range k).flatMap (fun i =>
          [.sleep (backoff narrow (retryPolicyOf options) i (draw i)), .request q]) := by
  have hleast := isLeast_firstStop (retryPolicyOf options).numRetries.toNat
    (fun i => Retryable (retryPolicyOf options) (answers res ts i))
  simp only [decide_eq_false_iff_not] at hleast
  exact ⟨_, hleast, ⟨_, handleRetries_events _ res url body options ts⟩,
    ⟨_, handleRetries_events _ res url [] options ts⟩⟩

end Curlinho
