import Curlinho.Calls.RepeatedCalls
import Curlinho.Session.Isolation

/-! # The entry points

`GetAsync`, `PostAsync` and `PostDetach` copy their arguments and leave the call to a
thread. All five entry points come to a first request and a retry thread; they differ
in the arguments that the two sessions see and in who receives the response.
-/
namespace Curlinho
open Foundation

/-- The argument that the thread passes on: its own copy, moved. -/
def Arg.byValue (arg : Arg) : Arg := ⟨.rvalue, arg.object⟩

section
variable (platform : Platform) (narrow : Int → Int) (draw : ℕ → Int)

/-- The caller's objects are copied or moved from, and then out of reach. -/
def getAsync (url : Url) (args : List Arg) (t : Transfer) (ts : ℕ → Transfer) : Call :=
  { get platform narrow draw url (args.map Arg.byValue) t ts with
    objects := args.map (fun arg => arg.handedOver arg.object) }

def postAsync (url : Url) (body : Body) (args : List Arg) (t : Transfer) (ts : ℕ → Transfer) :
    Call :=
  { post platform narrow draw url body (args.map Arg.byValue) t ts with
    objects := args.map (fun arg => arg.handedOver arg.object) }

def postDetach (url : Url) (body : Body) (args : List Arg) (t : Transfer) (ts : ℕ → Transfer) :
    Call :=
  { post platform narrow draw url body (args.map Arg.byValue) t ts with
    objects := args.map (fun arg => arg.handedOver arg.object) }

end

inductive Entry
  | get
  | getAsync
  | post (body : Body)
  | postAsync (body : Body)
  | postDetach (body : Body)

namespace Entry

def method : Entry → Bytes
  | get => str ['G', 'E', 'T']
  | getAsync => str ['G', 'E', 'T']
  | _ => str ['P', 'O', 'S', 'T']

def body? : Entry → Option Body
  | get => none
  | getAsync => none
  | post body => some body
  | postAsync body => some body
  | postDetach body => some body

def body (entry : Entry) : Body := entry.body?.getD []

/-- The arguments as `GetIntern` or `PostIntern` takes them. -/
def arguments : Entry → List Arg → List Arg
  | get, args => args.map Arg.move
  | post _, args => args
  | _, args => args.map Arg.byValue

def delivers : Entry → Bool
  | postDetach _ => false
  | _ => true

end Entry

/-- A call to be made, and what it will meet. -/
structure Job where
  entry : Entry
  url : Url
  args : List Arg
  circumstances : Circumstances

namespace Job

def arguments (job : Job) : List Arg := job.entry.arguments job.args

def call (platform : Platform) (narrow : Int → Int) (job : Job) : Call :=
  let c := job.circumstances
  match job.entry with
  | .get => Curlinho.get platform narrow c.draw job.url job.args c.first c.retries
  | .getAsync => Curlinho.getAsync platform narrow c.draw job.url job.args c.first c.retries
  | .post body => Curlinho.post platform narrow c.draw job.url body job.args c.first c.retries
  | .postAsync body =>
    Curlinho.postAsync platform narrow c.draw job.url body job.args c.first c.retries
  | .postDetach body =>
    Curlinho.postDetach platform narrow c.draw job.url body job.args c.first c.retries

def firstSettings (job : Job) : Settings :=
  let σ := Curlinho.firstSettings job.url (job.args.map Arg.object)
  match job.entry.body? with
  | none => σ
  | some body => { σ with body := some body }

def retrySettings (job : Job) : Settings :=
  Curlinho.retrySettings job.url job.entry.body (job.arguments.map Arg.remaining)

def policy (job : Job) : RetryPolicy := retryPolicyOf (job.args.map Arg.object)

def answer (job : Job) (i : ℕ) : Answer :=
  answers job.circumstances.first.received job.circumstances.retries i

def rounds (job : Job) : ℕ :=
  firstStop job.policy.numRetries.toNat (fun i => Retryable job.policy (job.answer i))

end Job

def Call.trace (call : Call) : List Event :=
  call.first.request.toList.map Event.request ++ call.retries

variable {platform : Platform} {narrow : Int → Int}

@[simp] theorem Arg.object_byValue (args : List Arg) :
    (args.map Arg.byValue).map Arg.object = args.map Arg.object :=
  List.map_map

theorem Job.arguments_object (job : Job) :
    job.arguments.map Arg.object = job.args.map Arg.object := by
  obtain ⟨entry, url, args, c⟩ := job
  cases entry with
  | get => exact map_move_object args
  | post body => rfl
  | _ => exact Arg.object_byValue args

theorem Session.Represents.live {mem : Memory} {s : Session} {σ : Settings}
    (hr : Session.Represents platform mem s σ) : s.Live := by
  obtain ⟨h, hs, hsettled⟩ := hr.handle
  have hdefaults : h.defaults = Session.sensibleDefaults platform :=
    congrArg Request.defaults hsettled
  exact ⟨h, hs, by rw [hdefaults]; rfl⟩

theorem retryPolicyOf_remaining (args : List Arg) :
    retryPolicyOf (args.map Arg.remaining) = retryPolicyOf (args.map Arg.object) := by
  rw [retryPolicyOf, lastSome_remaining (fun _ => rfl)]
  rfl

@[simp] theorem getIntern_result (url : Url) (args : List Arg) (t : Transfer) :
    (getIntern platform url args t).1.result = .ok t.received :=
  Session.perform_result (@represents_firstSession platform url [] args).live _ _ t

@[simp] theorem postIntern_result (url : Url) (body : Body) (args : List Arg) (t : Transfer) :
    (postIntern platform url body args t).1.result = .ok t.received := by
  have hr := @represents_firstSession platform url body args
  have hset : Session.Represents platform (frameMemory body (args.map Arg.remaining)) _ _ :=
    @Session.Represents.setBody _ _ _ _ hr 0 body rfl
  exact Session.perform_result hset.live _ _ t

theorem Job.first_result (job : Job) :
    (job.call platform narrow).first.result = .ok job.circumstances.first.received := by
  obtain ⟨entry, url, args, c⟩ := job
  cases entry with
  | get => exact getIntern_result url (args.map Arg.move) c.first
  | getAsync => exact getIntern_result url ((args.map Arg.byValue).map Arg.move) c.first
  | post body => exact postIntern_result url body args c.first
  | postAsync body => exact postIntern_result url body (args.map Arg.byValue) c.first
  | postDetach body => exact postIntern_result url body (args.map Arg.byValue) c.first

theorem trace_get (draw : ℕ → Int) (url : Url) (args : List Arg) (t : Transfer)
    (ts : ℕ → Transfer) :
    (get platform narrow draw url args t ts).trace =
      .request ((Curlinho.firstSettings url (args.map Arg.object)).request platform
          (str ['G', 'E', 'T'])) ::
        (handleGetRetries platform narrow draw t.received url
          ((args.map Arg.move).map Arg.remaining) ts).events := by
  obtain ⟨hrequest, -, hobjects⟩ := @getIntern_spec platform url (args.map Arg.move) t
  rw [map_move_object] at hrequest
  simp [Call.trace, get, hrequest, hobjects]

theorem trace_post (draw : ℕ → Int) (url : Url) (body : Body) (args : List Arg) (t : Transfer)
    (ts : ℕ → Transfer) :
    (post platform narrow draw url body args t ts).trace =
      .request (({ Curlinho.firstSettings url (args.map Arg.object) with
          body := some body } : Settings).request platform (str ['P', 'O', 'S', 'T'])) ::
        (handlePostRetries platform narrow draw t.received url body (args.map Arg.remaining)
          ts).events := by
  obtain ⟨hrequest, -, hobjects⟩ := @postIntern_spec platform url body args t
  simp [Call.trace, post, hrequest, hobjects]

theorem handleRetries_events_job (job : Job) (method : Bytes) {args : List Arg}
    (hargs : args.map Arg.object = job.args.map Arg.object) (body : Body) :
    (handleRetries platform narrow job.circumstances.draw method job.circumstances.first.received
        job.url body (args.map Arg.remaining) job.circumstances.retries).events =
      (List.range job.rounds).flatMap (fun i =>
        [.sleep (backoff narrow job.policy i (job.circumstances.draw i)),
          .request ((Curlinho.retrySettings job.url body (args.map Arg.remaining)).request platform
            method)]) := by
  have hpolicy : retryPolicyOf (args.map Arg.remaining) = job.policy := by
    rw [retryPolicyOf_remaining, hargs]
    rfl
  rw [handleRetries_events, hpolicy]
  rfl

/-- Whatever its entry point, a call sends its first request and then retries in rounds of
one sleep and one request. -/
theorem Job.trace_eq (job : Job) :
    (job.call platform narrow).trace =
      .request (job.firstSettings.request platform job.entry.method) ::
        (List.range job.rounds).flatMap (fun i =>
          [.sleep (backoff narrow job.policy i (job.circumstances.draw i)),
            .request (job.retrySettings.request platform job.entry.method)]) := by
  have hretries := job.arguments_object
  obtain ⟨entry, url, args, c⟩ := job
  have hbyValue := Arg.object_byValue args
  have hmove : (args.map Arg.byValue).map Arg.move = args.map Arg.byValue := List.map_map
  cases entry with
  | get =>
    refine (trace_get c.draw url args c.first c.retries).trans (congrArg _ ?_)
    exact handleRetries_events_job ⟨.get, url, args, c⟩ _ hretries []
  | getAsync =>
    refine (trace_get c.draw url (args.map Arg.byValue) c.first c.retries).trans ?_
    rw [hbyValue, hmove]
    exact congrArg _ (handleRetries_events_job ⟨.getAsync, url, args, c⟩ _ hretries [])
  | post body =>
    refine (trace_post c.draw url body args c.first c.retries).trans (congrArg _ ?_)
    exact handleRetries_events_job ⟨.post body, url, args, c⟩ _ hretries body
  | postAsync body =>
    refine (trace_post c.draw url body (args.map Arg.byValue) c.first c.retries).trans ?_
    rw [hbyValue]
    exact congrArg _ (handleRetries_events_job ⟨.postAsync body, url, args, c⟩ _ hretries body)
  | postDetach body =>
    refine (trace_post c.draw url body (args.map Arg.byValue) c.first c.retries).trans ?_
    rw [hbyValue]
    exact congrArg _ (handleRetries_events_job ⟨.postDetach body, url, args, c⟩ _ hretries body)

def Event.request? : Event → Option Request
  | .sleep _ => none
  | .request q => some q

theorem filterMap_rounds (k : ℕ) (f : ℕ → Int) (q : Request) :
    ((List.range k).flatMap (fun i => [Event.sleep (f i), .request q])).filterMap Event.request? =
      List.replicate k q := by
  induction k with
  | zero => rfl
  | succ k ih =>
    rw [List.range_succ, List.flatMap_append, List.filterMap_append, ih, List.replicate_succ']
    rfl

theorem Job.requests_eq (job : Job) :
    (job.call platform narrow).trace.filterMap Event.request? =
      job.firstSettings.request platform job.entry.method ::
        List.replicate job.rounds (job.retrySettings.request platform job.entry.method) := by
  have hfirst : Event.request? (.request (job.firstSettings.request platform job.entry.method)) =
      some (job.firstSettings.request platform job.entry.method) := rfl
  rw [Job.trace_eq, List.filterMap_cons_some hfirst, filterMap_rounds]

end Curlinho
