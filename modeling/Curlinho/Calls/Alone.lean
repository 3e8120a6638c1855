import Curlinho.Calls.OwnFrames

/-! # A call by itself

What a call has done so far, and what its two threads hold, in every state that the
call reaches on a memory that nobody else writes to. The steps come to the events of
the call as a whole.
-/
namespace Curlinho
open Foundation

namespace Session
variable {platform : Platform} {mem : Memory} {s : Session} {σ : Settings}

theorem readsBack_of_text {addr : Addr} {arg : Arg} (h : mem addr = arg.object.text) :
    ReadsBack mem addr arg := by
  obtain ⟨category, object⟩ := arg
  cases object with
  | body b => exact fun _ => h
  | sslCert c => exact fun _ => h
  | _ => trivial

theorem Represents.result (hr : Represents platform mem s σ) (method : Bytes) (mem' : Memory)
    (t : Transfer) : (s.perform method mem' t).result = .ok t.received :=
  perform_result hr.live method mem' t

end Session

namespace Job

/-- The frame at `base` holds the body and the objects. -/
def Holds (job : Job) (base : Addr) (objects : List OptionObject) (mem : Memory) : Prop :=
  ∀ i ≤ job.arguments.length, mem (base + i) = frameMemory job.entry.body objects i

variable {platform : Platform} {narrow : Int → Int} {job : Job} {base : Addr} {mem : Memory}

theorem holds_place (objects : List OptionObject) :
    job.Holds base objects (job.place base objects mem) := by
  intro i hi
  have hcell : base ≤ base + i ∧ base + i < base + job.arguments.length + 1 :=
    ⟨Nat.le_add_right base i, Nat.add_lt_add_left (Nat.lt_succ_of_le hi) base⟩
  rw [place, if_pos hcell, Nat.add_sub_cancel_left]

theorem Holds.body {objects : List OptionObject} (h : job.Holds base objects mem) :
    mem base = job.entry.body := h 0 (Nat.zero_le _)

theorem Holds.readsBack {args : List Arg} (h : job.Holds base (args.map Arg.object) mem)
    (hlength : args.length ≤ job.arguments.length) {call : Arg × Addr}
    (hcall : call ∈ args.zipIdx (base + 1)) : Session.ReadsBack mem call.2 call.1 := by
  obtain ⟨arg, addr⟩ := call
  obtain ⟨hle, hget⟩ := List.mk_mem_zipIdx_iff_le_and_getElem?_sub.mp hcall
  obtain ⟨i, rfl⟩ := Nat.exists_eq_add_of_le hle
  rw [Nat.add_sub_cancel_left] at hget
  have hi : i < args.length := (List.getElem?_eq_some_iff.mp hget).1
  apply Session.readsBack_of_text
  have hmem := h (i + 1) (by omega)
  simp only [frameMemory, List.getElem?_map, hget, Option.map_some, Option.getD_some] at hmem
  exact (congrArg mem (Nat.add_right_comm base 1 i)).trans hmem

/-- Of the options at `base + 1` onwards, those before `rest` are set. -/
def Midway (platform : Platform) (mem : Memory) (base : Addr) (σ : Settings) (args : List Arg)
    (passed : List (Arg × Addr)) (rest : List (Arg × Addr)) (s : Session) : Prop :=
  passed ++ rest = args.zipIdx (base + 1) ∧
    s.Represents platform mem (σ.applyAll (passed.map (fun call => call.1.object)))

theorem Midway.setOption {σ : Settings} {args : List Arg} {passed rest : List (Arg × Addr)}
    {s : Session} {call : Arg × Addr}
    (h : Midway platform mem base σ args passed (call :: rest) s)
    (hholds : job.Holds base (args.map Arg.object) mem)
    (hlength : args.length ≤ job.arguments.length) :
    Midway platform mem base σ args (passed ++ [call]) rest
      (s.setOption platform allAppended call.2 call.1).1 := by
  obtain ⟨hcalls, hr⟩ := h
  have hcall : call ∈ args.zipIdx (base + 1) := by
    rw [← hcalls]
    exact List.mem_append_right _ List.mem_cons_self
  refine ⟨by rw [← hcalls, List.append_assoc]; rfl, ?_⟩
  have hstep := hr.setOption (hholds.readsBack hlength hcall)
  rwa [List.map_append, Settings.applyAll, List.foldl_append]

theorem Midway.done {σ : Settings} {args : List Arg} {passed : List (Arg × Addr)} {s : Session}
    (h : Midway platform mem base σ args passed [] s) :
    passed = args.zipIdx (base + 1) ∧
      s.Represents platform mem (σ.applyAll (args.map Arg.object)) := by
  obtain ⟨hcalls, hr⟩ := h
  rw [List.append_nil] at hcalls
  rw [hcalls, Session.map_zipIdx Arg.object] at hr
  exact ⟨hcalls, hr⟩

theorem represents_prepare {s : Session}
    (hr : s.Represents platform mem (Settings.applyAll {} (job.arguments.map Arg.object)))
    (hbody : mem base = job.entry.body) :
    (job.entry.prepare job.url base s).Represents platform mem job.firstSettings := by
  rw [arguments_object] at hr
  have hurl : (if job.url ≠ [] then s.setUrl job.url else s).Represents platform mem
      (Curlinho.firstSettings job.url (job.args.map Arg.object)) := by
    unfold Curlinho.firstSettings
    split
    · exact hr.setUrl job.url
    · exact hr
  unfold Entry.prepare Job.firstSettings
  unfold Entry.body at hbody
  cases hb : job.entry.body? with
  | none => exact hurl
  | some body =>
    rw [hb] at hbody
    exact hurl.setBody hbody

section
variable (platform : Platform) (narrow : Int → Int) (job : Job)

def firstEvent : Event := .request (job.firstSettings.request platform job.entry.method)

def timer (retry : ℕ) : Int := backoff narrow job.policy retry (job.circumstances.draw retry)

def copies : List Arg := (job.arguments.map Arg.remaining).map (Arg.mk .rvalue)

def loopEvents (mem : Memory) (s : Session) (retry : ℕ) (r : Response) (ts : ℕ → Transfer) :
    List Event :=
  (retryLoop job.policy (job.timer narrow) job.entry.method mem
    (job.policy.numRetries.toNat - retry) retry s r ts).events

def RetrierSound (mem : Memory) : Retrier → List Event → Prop
  | .absent, _ => False
  | .setting base s rest res, log =>
    log = [job.firstEvent platform] ∧ res = job.circumstances.first.received ∧
      job.Holds base (job.copies.map Arg.object) mem ∧
      ∃ passed, Midway platform mem base
        { url := job.url, body := if job.entry.body = [] then none else some job.entry.body }
        job.copies passed rest s
  | .looping _ s retries retry r ts, log =>
    s.Represents platform mem job.retrySettings ∧ retries = job.policy ∧
      log ++ job.loopEvents narrow mem s retry r ts = (job.call platform narrow).trace
  | .waking _ s retries retry ts, log =>
    s.Represents platform mem job.retrySettings ∧ retries = job.policy ∧
      (retry : Int) < job.policy.numRetries ∧
      log ++ ((s.perform job.entry.method mem (ts 0)).request.toList.map Event.request ++
        job.loopEvents narrow mem (s.perform job.entry.method mem (ts 0)).session (retry + 1)
          (ts 0).received (fun i => ts (i + 1))) = (job.call platform narrow).trace
  | .finished, log => log = (job.call platform narrow).trace

/-- What a call has done in each of its states, and what is left of it. -/
def Sound (mem : Memory) : CallState → Prop
  | ⟨.ready, .absent, log⟩ => log = []
  | ⟨.setting base s objects rest, .absent, log⟩ =>
    log = [] ∧ job.Holds base (job.arguments.map Arg.object) mem ∧
      ∃ passed, objects = passed.map (fun call => call.1.remaining) ∧
        Midway platform mem base {} job.arguments passed rest s
  | ⟨.prepared _ s objects, .absent, log⟩ =>
    log = [] ∧ objects = job.arguments.map Arg.remaining ∧
      s.Represents platform mem job.firstSettings
  | ⟨.answered _ objects result, .absent, log⟩ =>
    log = [job.firstEvent platform] ∧ objects = job.arguments.map Arg.remaining ∧
      result = .ok job.circumstances.first.received
  | ⟨.forked _ res, retrier, log⟩ =>
    res = job.circumstances.first.received ∧ job.RetrierSound platform narrow mem retrier log
  | ⟨.finished delivered, retrier, log⟩ =>
    delivered = (if job.entry.delivers then some job.circumstances.first.received else none) ∧
      job.RetrierSound platform narrow mem retrier log
  | _ => False

end

theorem rounds_left {policy : RetryPolicy} {retry : ℕ} (h : (retry : Int) < policy.numRetries) :
    policy.numRetries.toNat - retry = policy.numRetries.toNat - (retry + 1) + 1 := by
  omega

theorem loopEvents_skip {s : Session} {retry : ℕ} {r : Response} {ts : ℕ → Transfer}
    (left : (retry : Int) < job.policy.numRetries) (idle : verdict job.policy r = .idle) :
    job.loopEvents narrow mem s retry r ts = job.loopEvents narrow mem s (retry + 1) r ts := by
  rw [loopEvents, rounds_left left, retryLoop, idle]
  rfl

theorem loopEvents_again {s : Session} {σ : Settings} (hr : s.Represents platform mem σ)
    {retry : ℕ} {r : Response} {ts : ℕ → Transfer}
    (left : (retry : Int) < job.policy.numRetries) (again : verdict job.policy r = .again) :
    job.loopEvents narrow mem s retry r ts =
      .sleep (job.timer narrow retry) ::
        ((s.perform job.entry.method mem (ts 0)).request.toList.map Event.request ++
          job.loopEvents narrow mem (s.perform job.entry.method mem (ts 0)).session (retry + 1)
            (ts 0).received (fun i => ts (i + 1))) := by
  rw [loopEvents, rounds_left left, retryLoop, again]
  simp only [hr.result, List.cons_append]
  rfl

theorem loopEvents_ended {s : Session} {retry : ℕ} {r : Response} {ts : ℕ → Transfer}
    (ended : ¬ ((retry : Int) < job.policy.numRetries ∧ verdict job.policy r ≠ .stop)) :
    job.loopEvents narrow mem s retry r ts = [] := by
  unfold loopEvents
  by_cases left : (retry : Int) < job.policy.numRetries
  · have stop : verdict job.policy r = .stop := by
      by_contra hne
      exact ended ⟨left, hne⟩
    rw [rounds_left left, retryLoop, stop]
  · have hzero : job.policy.numRetries.toNat - retry = 0 := by omega
    rw [hzero, retryLoop]

theorem loopEvents_enter {s : Session} (hr : s.Represents platform mem job.retrySettings) :
    [job.firstEvent platform] ++ job.loopEvents narrow mem s 0 job.circumstances.first.received
      job.circumstances.retries = (job.call platform narrow).trace := by
  obtain ⟨h, hs, -⟩ := hr.handle
  rw [loopEvents, Nat.sub_zero, retryLoop_events hs (hr.nextRequest job.entry.method), trace_eq]
  simp only [Nat.zero_add]
  rfl

theorem length_copies (job : Job) : job.copies.length = job.arguments.length := by
  rw [copies, List.length_map, List.length_map]

theorem retrierSound_step {caller caller' : Caller} {retrier retrier' : Retrier}
    {log log' : List Event} {action : Action} {mem' : Memory}
    (h : job.Steps platform narrow action ⟨caller, retrier, log⟩ mem ⟨caller', retrier', log'⟩ mem')
    (hcaller : (∃ base res, caller = .forked base res) ∨ ∃ delivered, caller = .finished delivered)
    (hst : job.RetrierSound platform narrow mem retrier log) :
    job.RetrierSound platform narrow mem' retrier' log' := by
  cases h with
  | deliver => exact hst
  | retryOption caller base s arg addr rest res log mem =>
    obtain ⟨hlog, hres, hholds, passed, hmidway⟩ := hst
    exact ⟨hlog, hres, hholds, _, hmidway.setOption hholds job.length_copies.le⟩
  | enter caller base s res log mem =>
    obtain ⟨rfl, rfl, -, passed, hmidway⟩ := hst
    have hr := hmidway.done.2
    rw [copies, map_rvalue_object] at hr
    have hpolicy : s.getRetryPolicy = job.policy := by
      have hlast := hr.retryPolicy.trans (Settings.applyAll_retryPolicy _ _)
      rw [policy, ← arguments_object, ← retryPolicyOf_remaining]
      exact hlast
    exact ⟨hr, hpolicy, loopEvents_enter hr⟩
  | skip caller base s retries retry r ts log mem left idle =>
    obtain ⟨hr, rfl, htrace⟩ := hst
    rw [loopEvents_skip left idle] at htrace
    exact ⟨hr, rfl, htrace⟩
  | sleep caller base s retries retry r ts log mem left again =>
    obtain ⟨hr, rfl, htrace⟩ := hst
    rw [loopEvents_again hr left again] at htrace
    refine ⟨hr, rfl, left, ?_⟩
    rw [List.append_assoc]
    exact htrace
  | resend caller base s retries retry r ts log mem answered =>
    obtain ⟨hr, rfl, -, htrace⟩ := hst
    obtain rfl := Except.ok.inj ((hr.result _ _ _).symm.trans answered)
    refine ⟨hr.perform _ _ _, rfl, ?_⟩
    rw [List.append_assoc]
    exact htrace
  | fault caller base s retries retry fault ts log mem faulty =>
    cases (hst.1.result _ _ _).symm.trans faulty
  | exit caller base s retries retry r ts log mem ended =>
    obtain ⟨hr, rfl, htrace⟩ := hst
    rw [loopEvents_ended ended, List.append_nil] at htrace
    exact htrace
  | _ =>
    -- the calling thread is past these
    rcases hcaller with ⟨_, _, hcaller⟩ | ⟨_, hcaller⟩ <;> cases hcaller

theorem sound_step {action : Action} {st st' : CallState} {mem' : Memory}
    (h : job.Steps platform narrow action st mem st' mem')
    (hst : job.Sound platform narrow mem st) : job.Sound platform narrow mem' st' := by
  obtain ⟨caller, retrier, log⟩ := st
  cases caller with
  | forked base res =>
    have hretrier := retrierSound_step h (.inl ⟨base, res, rfl⟩) hst.2
    cases h <;> first | exact ⟨hst.1, hretrier⟩ | exact ⟨by rw [hst.1], hretrier⟩
  | finished delivered =>
    have hretrier := retrierSound_step h (.inr ⟨delivered, rfl⟩) hst.2
    cases h <;> exact ⟨hst.1, hretrier⟩
  | ready =>
    cases retrier with
    | absent =>
      cases h with
      | start base log mem =>
        exact ⟨hst, holds_place _, [], rfl, rfl, Session.represents_new⟩
    | _ => cases hst
  | setting base s objects rest =>
    cases retrier with
    | absent =>
      obtain ⟨rfl, hholds, passed, rfl, hmidway⟩ := hst
      cases h with
      | option base s objects arg addr rest retrier log mem =>
        refine ⟨rfl, hholds, _, ?_, hmidway.setOption hholds le_rfl⟩
        rw [List.map_append, Session.setOption_snd]
        rfl
      | prepare base s objects retrier log mem =>
        obtain ⟨rfl, hr⟩ := hmidway.done
        exact ⟨rfl, Session.map_zipIdx Arg.remaining _ _, represents_prepare hr hholds.body⟩
    | _ => cases hst
  | prepared base s objects =>
    cases retrier with
    | absent =>
      obtain ⟨rfl, rfl, hr⟩ := hst
      cases h with
      | send base s objects retrier log mem =>
        refine ⟨?_, rfl, hr.result _ _ _⟩
        rw [(hr.answered job.entry.method job.circumstances.first).1]
        rfl
    | _ => cases hst
  | answered base objects result =>
    cases retrier with
    | absent =>
      obtain ⟨rfl, rfl, hresult⟩ := hst
      cases h with
      | fork base' base objects res log mem apart =>
        obtain rfl := Except.ok.inj hresult
        refine ⟨rfl, rfl, rfl, ?_, [], rfl, ?_⟩
        · rw [copies, map_rvalue_object]
          exact holds_place _
        · exact Session.represents_newWith (holds_place _).body
    | _ => cases hst

/-- In every state that a call reaches by itself, its threads have done a part of what the
call does, in order. -/
theorem sound_run {actions : List Action} {st : CallState} {mem' : Memory}
    (hrun : (job.process platform narrow).Run {} mem actions st mem') :
    job.Sound platform narrow mem' st :=
  hrun.induct rfl (fun hst h => sound_step (steps_of_step h) hst)

def Finished (st : CallState) : Prop :=
  (∃ delivered, st.caller = .finished delivered) ∧ st.retrier = .finished

theorem RetrierSound.log_initial {retrier : Retrier} {log : List Event}
    (h : job.RetrierSound platform narrow mem retrier log) :
    log <+: (job.call platform narrow).trace := by
  cases retrier with
  | absent => cases h
  | setting base s rest res =>
    rw [h.1, trace_eq]
    exact ⟨_, rfl⟩
  | looping base s retries retry r ts => exact ⟨_, h.2.2⟩
  | waking base s retries retry ts => exact ⟨_, h.2.2.2⟩
  | finished => exact ⟨[], by rw [List.append_nil]; exact h⟩

theorem Sound.log_initial {st : CallState} (h : job.Sound platform narrow mem st) :
    st.log <+: (job.call platform narrow).trace := by
  obtain ⟨caller, retrier, log⟩ := st
  cases caller with
  | forked base res => exact h.2.log_initial
  | finished delivered => exact h.2.log_initial
  | answered base objects result =>
    cases retrier with
    | absent =>
      obtain ⟨rfl, -, -⟩ := h
      rw [trace_eq]
      exact ⟨_, rfl⟩
    | _ => cases h
  | ready =>
    cases retrier with
    | absent =>
      obtain rfl : log = [] := h
      exact List.nil_prefix
    | _ => cases h
  | setting base s objects rest =>
    cases retrier with
    | absent =>
      obtain ⟨rfl, -, -⟩ := h
      exact List.nil_prefix
    | _ => cases h
  | prepared base s objects =>
    cases retrier with
    | absent =>
      obtain ⟨rfl, -, -⟩ := h
      exact List.nil_prefix
    | _ => cases h

theorem Sound.log_finished {st : CallState} (h : job.Sound platform narrow mem st)
    (hfinished : Finished st) : st.log = (job.call platform narrow).trace := by
  obtain ⟨caller, retrier, log⟩ := st
  obtain ⟨⟨delivered, rfl⟩, rfl⟩ := hfinished
  exact h.2

theorem Sound.delivered {st : CallState} (h : job.Sound platform narrow mem st)
    {delivered : Option Response} (hcaller : st.caller = .finished delivered) :
    delivered = if job.entry.delivers then some job.circumstances.first.received else none := by
  obtain ⟨caller, retrier, log⟩ := st
  obtain rfl : caller = .finished delivered := hcaller
  exact h.1

end Job
end Curlinho
