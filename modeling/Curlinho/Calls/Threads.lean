import Curlinho.Calls.Async
import Curlinho.Foundation.SharedHeap
import Curlinho.Session.Borrowed
import Mathlib.Order.Interval.Set.Defs

/-! # The two threads of a call

The calling thread and the retry thread of one call, each as it goes through its
session: one setter, one transfer or one sleep at a time. The objects that a thread
works on occupy a frame of the shared memory while the thread runs, and a transfer
reads what is in memory when it is performed.
-/
namespace Curlinho
open Foundation

/-- The calling thread. `objects` are the options that its setters are done with, `rest`
those still to be set, each with its address. -/
inductive Caller
  | ready
  | setting (base : Addr) (session : Session) (objects : List OptionObject)
      (rest : List (Arg × Addr))
  | prepared (base : Addr) (session : Session) (objects : List OptionObject)
  | answered (base : Addr) (objects : List OptionObject) (result : Except Fault Response)
  | forked (base : Addr) (res : Response)
  | finished (delivered : Option Response)

inductive Retrier
  | absent
  | setting (base : Addr) (session : Session) (rest : List (Arg × Addr)) (res : Response)
  | looping (base : Addr) (session : Session) (retries : RetryPolicy) (retry : ℕ) (r : Response)
      (ts : ℕ → Transfer)
  | waking (base : Addr) (session : Session) (retries : RetryPolicy) (retry : ℕ)
      (ts : ℕ → Transfer)
  | finished

structure CallState where
  caller : Caller := .ready
  retrier : Retrier := .absent
  log : List Event := []

/-- A step of one of the two threads. The address says where a new frame is placed. -/
inductive Action
  | start (base : Addr)
  | option
  | prepare
  | send
  | fork (base : Addr)
  | deliver
  | retryOption
  | enter
  | skip
  | sleep
  | resend
  | exit

def Entry.prepare (entry : Entry) (url : Url) (base : Addr) (s : Session) : Session :=
  let s := if url ≠ [] then s.setUrl url else s
  match entry.body? with
  | none => s
  | some body => s.setBody base body

namespace Job

def cells (job : Job) (base : Addr) : Set Addr := Set.Ico base (base + job.arguments.length + 1)

def place (job : Job) (base : Addr) (objects : List OptionObject) (mem : Memory) : Memory :=
  fun a =>
    if base ≤ a ∧ a < base + job.arguments.length + 1 then
      frameMemory job.entry.body objects (a - base)
    else mem a

section
variable (platform : Platform) (narrow : Int → Int) (job : Job)

def step : Action → CallState → Memory → Option (CallState × Memory)
  | .start base, ⟨.ready, .absent, log⟩, mem =>
    some (⟨.setting base (Session.new platform true) [] (job.arguments.zipIdx (base + 1)),
      .absent, log⟩, job.place base (job.arguments.map Arg.object) mem)
  | .option, ⟨.setting base s objects ((arg, addr) :: rest), retrier, log⟩, mem =>
    let (s, object) := s.setOption platform allAppended addr arg
    some (⟨.setting base s (objects ++ [object]) rest, retrier, log⟩, mem)
  | .prepare, ⟨.setting base s objects [], retrier, log⟩, mem =>
    some (⟨.prepared base (job.entry.prepare job.url base s) objects, retrier, log⟩, mem)
  | .send, ⟨.prepared base s objects, retrier, log⟩, mem =>
    let outcome := s.perform job.entry.method mem job.circumstances.first
    some (⟨.answered base objects outcome.result, retrier,
      log ++ outcome.request.toList.map Event.request⟩, mem)
  | .fork base', ⟨.answered base objects (.ok res), .absent, log⟩, mem =>
    -- the options are handed over to a thread with a frame of its own
    if base' + job.arguments.length < base ∨ base + job.arguments.length < base' then
      let handed := List.zipWith Arg.handedOver job.arguments objects
      some (⟨.forked base res,
          .setting base' (Session.newWith platform true job.url base' job.entry.body)
            ((objects.map (Arg.mk .rvalue)).zipIdx (base' + 1)) res, log⟩,
        job.place base' objects (job.place base handed mem))
    else none
  | .deliver, ⟨.forked _ res, retrier, log⟩, mem =>
    some (⟨.finished (if job.entry.delivers then some res else none), retrier, log⟩, mem)
  | .retryOption, ⟨caller, .setting base s ((arg, addr) :: rest) res, log⟩, mem =>
    some (⟨caller, .setting base (s.setOption platform allAppended addr arg).1 rest res, log⟩, mem)
  | .enter, ⟨caller, .setting base s [] res, log⟩, mem =>
    some (⟨caller, .looping base s s.getRetryPolicy 0 res job.circumstances.retries, log⟩, mem)
  | .skip, ⟨caller, .looping base s retries retry r ts, log⟩, mem =>
    if (retry : Int) < retries.numRetries ∧ verdict retries r = .idle then
      some (⟨caller, .looping base s retries (retry + 1) r ts, log⟩, mem)
    else none
  | .sleep, ⟨caller, .looping base s retries retry r ts, log⟩, mem =>
    if (retry : Int) < retries.numRetries ∧ verdict retries r = .again then
      let timer := backoff narrow retries retry (job.circumstances.draw retry)
      some (⟨caller, .waking base s retries retry ts, log ++ [.sleep timer]⟩, mem)
    else none
  | .resend, ⟨caller, .waking base s retries retry ts, log⟩, mem =>
    let outcome := s.perform job.entry.method mem (ts 0)
    let log := log ++ outcome.request.toList.map Event.request
    match outcome.result with
    | .error _ => some (⟨caller, .finished, log⟩, mem)
    | .ok r =>
      some (⟨caller, .looping base outcome.session retries (retry + 1) r (fun i => ts (i + 1)),
        log⟩, mem)
  | .exit, ⟨caller, .looping _ _ retries retry r _, log⟩, mem =>
    if (retry : Int) < retries.numRetries ∧ verdict retries r ≠ .stop then none
    else some (⟨caller, .finished, log⟩, mem)
  | _, _, _ => none

def callerCells : Caller → Set Addr
  | .setting base _ _ _ => job.cells base
  | .prepared base _ _ => job.cells base
  | .answered base _ _ => job.cells base
  | .forked base _ => job.cells base
  | _ => ∅

def retrierCells : Retrier → Set Addr
  | .setting base _ _ _ => job.cells base
  | .looping base _ _ _ _ _ => job.cells base
  | .waking base _ _ _ _ => job.cells base
  | _ => ∅

def process : Process Addr Bytes CallState Action where
  owns st := job.callerCells st.caller ∪ job.retrierCells st.retrier
  step := job.step platform narrow

end

section
variable (platform : Platform) (narrow : Int → Int) (job : Job)

/-- Everything that a step can do, with the condition under which it does. -/
inductive Steps : Action → CallState → Memory → CallState → Memory → Prop
  | start (base : Addr) (log : List Event) (mem : Memory) :
      Steps (.start base) ⟨.ready, .absent, log⟩ mem
        ⟨.setting base (Session.new platform true) [] (job.arguments.zipIdx (base + 1)),
          .absent, log⟩ (job.place base (job.arguments.map Arg.object) mem)
  | option (base : Addr) (s : Session) (objects : List OptionObject) (arg : Arg) (addr : Addr)
      (rest : List (Arg × Addr)) (retrier : Retrier) (log : List Event) (mem : Memory) :
      Steps .option ⟨.setting base s objects ((arg, addr) :: rest), retrier, log⟩ mem
        ⟨.setting base (s.setOption platform allAppended addr arg).1
          (objects ++ [(s.setOption platform allAppended addr arg).2]) rest, retrier, log⟩ mem
  | prepare (base : Addr) (s : Session) (objects : List OptionObject) (retrier : Retrier)
      (log : List Event) (mem : Memory) :
      Steps .prepare ⟨.setting base s objects [], retrier, log⟩ mem
        ⟨.prepared base (job.entry.prepare job.url base s) objects, retrier, log⟩ mem
  | send (base : Addr) (s : Session) (objects : List OptionObject) (retrier : Retrier)
      (log : List Event) (mem : Memory) :
      Steps .send ⟨.prepared base s objects, retrier, log⟩ mem
        ⟨.answered base objects (s.perform job.entry.method mem job.circumstances.first).result,
          retrier, log ++ (s.perform job.entry.method mem
            job.circumstances.first).request.toList.map Event.request⟩ mem
  | fork (base' base : Addr) (objects : List OptionObject) (res : Response) (log : List Event)
      (mem : Memory)
      (apart : base' + job.arguments.length < base ∨ base + job.arguments.length < base') :
      Steps (.fork base') ⟨.answered base objects (.ok res), .absent, log⟩ mem
        ⟨.forked base res,
          .setting base' (Session.newWith platform true job.url base' job.entry.body)
            ((objects.map (Arg.mk .rvalue)).zipIdx (base' + 1)) res, log⟩
        (job.place base' objects
          (job.place base (List.zipWith Arg.handedOver job.arguments objects) mem))
  | deliver (base : Addr) (res : Response) (retrier : Retrier) (log : List Event) (mem : Memory) :
      Steps .deliver ⟨.forked base res, retrier, log⟩ mem
        ⟨.finished (if job.entry.delivers then some res else none), retrier, log⟩ mem
  | retryOption (caller : Caller) (base : Addr) (s : Session) (arg : Arg) (addr : Addr)
      (rest : List (Arg × Addr)) (res : Response) (log : List Event) (mem : Memory) :
      Steps .retryOption ⟨caller, .setting base s ((arg, addr) :: rest) res, log⟩ mem
        ⟨caller, .setting base (s.setOption platform allAppended addr arg).1 rest res, log⟩ mem
  | enter (caller : Caller) (base : Addr) (s : Session) (res : Response) (log : List Event)
      (mem : Memory) :
      Steps .enter ⟨caller, .setting base s [] res, log⟩ mem
        ⟨caller, .looping base s s.getRetryPolicy 0 res job.circumstances.retries, log⟩ mem
  | skip (caller : Caller) (base : Addr) (s : Session) (retries : RetryPolicy) (retry : ℕ)
      (r : Response) (ts : ℕ → Transfer) (log : List Event) (mem : Memory)
      (left : (retry : Int) < retries.numRetries) (idle : verdict retries r = .idle) :
      Steps .skip ⟨caller, .looping base s retries retry r ts, log⟩ mem
        ⟨caller, .looping base s retries (retry + 1) r ts, log⟩ mem
  | sleep (caller : Caller) (base : Addr) (s : Session) (retries : RetryPolicy) (retry : ℕ)
      (r : Response) (ts : ℕ → Transfer) (log : List Event) (mem : Memory)
      (left : (retry : Int) < retries.numRetries) (again : verdict retries r = .again) :
      Steps .sleep ⟨caller, .looping base s retries retry r ts, log⟩ mem
        ⟨caller, .waking base s retries retry ts,
          log ++ [.sleep (backoff narrow retries retry (job.circumstances.draw retry))]⟩ mem
  | resend (caller : Caller) (base : Addr) (s : Session) (retries : RetryPolicy) (retry : ℕ)
      (r : Response) (ts : ℕ → Transfer) (log : List Event) (mem : Memory)
      (answered : (s.perform job.entry.method mem (ts 0)).result = .ok r) :
      Steps .resend ⟨caller, .waking base s retries retry ts, log⟩ mem
        ⟨caller, .looping base (s.perform job.entry.method mem (ts 0)).session retries (retry + 1)
          r (fun i => ts (i + 1)), log ++ (s.perform job.entry.method mem
            (ts 0)).request.toList.map Event.request⟩ mem
  | fault (caller : Caller) (base : Addr) (s : Session) (retries : RetryPolicy) (retry : ℕ)
      (fault : Fault) (ts : ℕ → Transfer) (log : List Event) (mem : Memory)
      (faulty : (s.perform job.entry.method mem (ts 0)).result = .error fault) :
      Steps .resend ⟨caller, .waking base s retries retry ts, log⟩ mem
        ⟨caller, .finished, log ++ (s.perform job.entry.method mem
            (ts 0)).request.toList.map Event.request⟩ mem
  | exit (caller : Caller) (base : Addr) (s : Session) (retries : RetryPolicy) (retry : ℕ)
      (r : Response) (ts : ℕ → Transfer) (log : List Event) (mem : Memory)
      (ended : ¬ ((retry : Int) < retries.numRetries ∧ verdict retries r ≠ .stop)) :
      Steps .exit ⟨caller, .looping base s retries retry r ts, log⟩ mem
        ⟨caller, .finished, log⟩ mem

end

variable {platform : Platform} {narrow : Int → Int} {job : Job}

theorem steps_of_step {action : Action} {st st' : CallState} {mem mem' : Memory}
    (h : job.step platform narrow action st mem = some (st', mem')) :
    job.Steps platform narrow action st mem st' mem' := by
  unfold step at h
  split at h
  case h_5 =>
    split at h
    · next apart =>
      cases h
      exact .fork _ _ _ _ _ _ apart
    · cases h
  case h_9 =>
    split at h
    · next hskip =>
      cases h
      exact .skip _ _ _ _ _ _ _ _ _ hskip.1 hskip.2
    · cases h
  case h_10 =>
    split at h
    · next hsleep =>
      cases h
      exact .sleep _ _ _ _ _ _ _ _ _ hsleep.1 hsleep.2
    · cases h
  case h_11 =>
    simp only at h
    split at h
    · next hfault =>
      cases h
      exact .fault _ _ _ _ _ _ _ _ _ hfault
    · next hok =>
      cases h
      exact .resend _ _ _ _ _ _ _ _ _ hok
  case h_12 =>
    split at h
    · cases h
    · next ended =>
      cases h
      exact .exit _ _ _ _ _ _ _ _ _ ended
  case h_13 => cases h
  all_goals
    cases h
    constructor

theorem step_of_steps {action : Action} {st st' : CallState} {mem mem' : Memory}
    (h : job.Steps platform narrow action st mem st' mem') :
    job.step platform narrow action st mem = some (st', mem') := by
  cases h with
  | fork base' base objects res log mem apart => simp only [step, if_pos apart]
  | skip caller base s retries retry r ts log mem left idle =>
    simp [step, left, idle]
  | sleep caller base s retries retry r ts log mem left again =>
    simp [step, left, again]
  | resend caller base s retries retry r ts log mem answered => simp only [step, answered]
  | fault caller base s retries retry fault ts log mem faulty => simp only [step, faulty]
  | exit caller base s retries retry r ts log mem ended => simp only [step, if_neg ended]
  | _ => rfl

end Job
end Curlinho
