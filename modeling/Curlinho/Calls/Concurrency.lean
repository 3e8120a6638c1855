import Curlinho.Calls.Alone
import Curlinho.Calls.Backoff

/-! # Calls in parallel

Any number of calls, each with its two threads, on one memory: threads take turns in any
order, frames are placed wherever there is room, and memory that belongs to no frame may
change at any time.
-/
namespace Curlinho
open Foundation

section
variable {ι : Type*} (platform : Platform) (narrow : Int → Int) (jobs : ι → Job)

def unstarted (mem : Memory) : Whole ι Addr Bytes CallState := ⟨mem, fun _ => {}⟩

def processes (i : ι) : Process Addr Bytes CallState Action := (jobs i).process platform narrow

end

namespace Job
variable {platform : Platform} {narrow : Int → Int} {job : Job} {mem : Memory}

def callerSize (job : Job) : Caller → ℕ
  | .ready => job.arguments.length + 5
  | .setting _ _ _ rest => rest.length + 4
  | .prepared _ _ _ => 3
  | .answered _ _ _ => 2
  | .forked _ _ => 1
  | .finished _ => 0

def retrierSize (job : Job) : Retrier → ℕ
  | .absent => job.arguments.length + 2 * job.policy.numRetries.toNat + 3
  | .setting _ _ rest _ => rest.length + 2 * job.policy.numRetries.toNat + 2
  | .looping _ _ _ retry _ _ => 2 * (job.policy.numRetries.toNat - retry) + 1
  | .waking _ _ _ retry _ => 2 * (job.policy.numRetries.toNat - retry)
  | .finished => 0

def size (job : Job) (st : CallState) : ℕ := job.callerSize st.caller + job.retrierSize st.retrier

theorem Sound.retrier {caller : Caller} {retrier : Retrier} {log : List Event}
    (h : job.Sound platform narrow mem ⟨caller, retrier, log⟩) :
    retrier = .absent ∨ job.RetrierSound platform narrow mem retrier log := by
  cases caller with
  | forked base res => exact .inr h.2
  | finished delivered => exact .inr h.2
  | _ =>
    cases retrier with
    | absent => exact .inl rfl
    | _ => cases h

theorem size_step {action : Action} {st st' : CallState} {mem' : Memory}
    (h : job.Steps platform narrow action st mem st' mem')
    (hst : job.Sound platform narrow mem st) : job.size st' < job.size st := by
  cases h with
  | start base log mem =>
    simp only [size, callerSize, List.length_zipIdx]
    omega
  | option base s objects arg addr rest retrier log mem =>
    simp only [size, callerSize, List.length_cons]
    omega
  | prepare base s objects retrier log mem =>
    simp only [size, callerSize, List.length_nil]
    omega
  | send base s objects retrier log mem =>
    simp only [size, callerSize]
    omega
  | fork base' base objects res log mem apart =>
    obtain ⟨-, rfl, -⟩ := hst
    simp only [size, callerSize, retrierSize, List.length_zipIdx, List.length_map]
    omega
  | deliver base res retrier log mem =>
    simp only [size, callerSize]
    omega
  | retryOption caller base s arg addr rest res log mem =>
    simp only [size, retrierSize, List.length_cons]
    omega
  | enter caller base s res log mem =>
    simp only [size, retrierSize, List.length_nil]
    omega
  | skip caller base s retries retry r ts log mem left idle =>
    obtain ⟨-, rfl, -⟩ := hst.retrier.resolve_left (fun h => by cases h)
    simp only [size, retrierSize]
    omega
  | sleep caller base s retries retry r ts log mem left again =>
    simp only [size, retrierSize]
    omega
  | resend caller base s retries retry r ts log mem answered =>
    obtain ⟨-, rfl, left, -⟩ := hst.retrier.resolve_left (fun h => by cases h)
    simp only [size, retrierSize]
    omega
  | fault caller base s retries retry fault ts log mem faulty =>
    obtain ⟨hr, -⟩ := hst.retrier.resolve_left (fun h => by cases h)
    cases (hr.result _ _ _).symm.trans faulty
  | exit caller base s retries retry r ts log mem ended =>
    simp only [size, retrierSize]
    omega

theorem exists_bound (platform : Platform) (narrow : Int → Int) (job : Job) (st : CallState) :
    ∃ b, ∀ a ∈ (job.process platform narrow).owns st, a < b := by
  have hcells : ∀ base, ∃ b, ∀ a ∈ job.cells base, a < b := fun base => ⟨_, fun _ ha => ha.2⟩
  have hempty : ∃ b, ∀ a ∈ (∅ : Set Addr), a < b := ⟨0, fun _ ha => absurd ha (Set.notMem_empty _)⟩
  have hcaller : ∃ b, ∀ a ∈ job.callerCells st.caller, a < b := by
    cases st.caller <;> first | exact hcells _ | exact hempty
  have hretrier : ∃ b, ∀ a ∈ job.retrierCells st.retrier, a < b := by
    cases st.retrier <;> first | exact hcells _ | exact hempty
  obtain ⟨b, hb⟩ := hcaller
  obtain ⟨c, hc⟩ := hretrier
  refine ⟨max b c, fun a ha => ?_⟩
  rcases ha with ha | ha
  · exact lt_max_of_lt_left (hb a ha)
  · exact lt_max_of_lt_right (hc a ha)

theorem retrier_progress {caller : Caller} {retrier : Retrier} {log : List Event}
    (hst : job.RetrierSound platform narrow mem retrier log) (hne : retrier ≠ .finished)
    (mem' : Memory) : ∃ action retrier' log',
      job.Steps platform narrow action ⟨caller, retrier, log⟩ mem' ⟨caller, retrier', log'⟩ mem' ∧
        job.retrierCells retrier' ⊆ job.retrierCells retrier := by
  cases retrier with
  | absent => cases hst
  | setting base s rest res =>
    cases rest with
    | nil => exact ⟨_, _, _, .enter caller base s res log mem', subset_rfl⟩
    | cons call rest =>
      exact ⟨_, _, _, .retryOption caller base s call.1 call.2 rest res log mem', subset_rfl⟩
  | looping base s retries retry r ts =>
    by_cases left : (retry : Int) < retries.numRetries
    · cases hv : verdict retries r with
      | again =>
        exact ⟨_, _, _, .sleep caller base s retries retry r ts log mem' left hv, subset_rfl⟩
      | idle =>
        exact ⟨_, _, _, .skip caller base s retries retry r ts log mem' left hv, subset_rfl⟩
      | stop =>
        exact ⟨_, _, _, .exit caller base s retries retry r ts log mem' (fun h => h.2 hv),
          Set.empty_subset _⟩
    · exact ⟨_, _, _, .exit caller base s retries retry r ts log mem' (fun h => left h.1),
        Set.empty_subset _⟩
  | waking base s retries retry ts =>
    exact ⟨_, _, _, .resend caller base s retries retry _ ts log mem' (hst.1.result _ _ _),
      subset_rfl⟩
  | finished => exact absurd rfl hne

/-- A call that is not finished can take a step, all new cells being as high as wanted. -/
theorem progress {st : CallState} (hst : job.Sound platform narrow mem st)
    (hunfinished : ¬ Finished st) (bound : Addr) (mem' : Memory) : ∃ action st' mem'',
      job.Steps platform narrow action st mem' st' mem'' ∧
        ∀ a ∈ (job.process platform narrow).owns st',
          a ∈ (job.process platform narrow).owns st ∨ bound ≤ a := by
  obtain ⟨caller, retrier, log⟩ := st
  cases caller with
  | finished delivered =>
    have hne : retrier ≠ .finished := fun h => hunfinished ⟨⟨delivered, rfl⟩, h⟩
    obtain ⟨action, retrier', log', hstep, hcells⟩ := retrier_progress hst.2 hne mem'
    refine ⟨action, _, _, hstep, fun a ha => .inl ?_⟩
    exact ha.imp_right (fun h => hcells h)
  | forked base res =>
    refine ⟨_, _, _, .deliver base res retrier log mem', fun a ha => .inl (.inr ?_)⟩
    exact ha.resolve_left (Set.notMem_empty a)
  | ready =>
    cases retrier with
    | absent =>
      refine ⟨_, _, _, .start bound log mem', fun a ha => .inr ?_⟩
      exact (ha.resolve_right (Set.notMem_empty a)).1
    | _ => cases hst
  | setting base s objects rest =>
    cases rest with
    | nil => exact ⟨_, _, _, .prepare base s objects retrier log mem', fun a ha => .inl ha⟩
    | cons call rest =>
      exact ⟨_, _, _, .option base s objects call.1 call.2 rest retrier log mem',
        fun a ha => .inl ha⟩
  | prepared base s objects =>
    exact ⟨_, _, _, .send base s objects retrier log mem', fun a ha => .inl ha⟩
  | answered base objects result =>
    cases retrier with
    | absent =>
      obtain ⟨rfl, rfl, rfl⟩ := hst
      have apart : base + job.arguments.length < bound + (base + job.arguments.length + 1) :=
        Nat.lt_add_left bound (Nat.lt_succ_self _)
      refine ⟨_, _, _, .fork (bound + (base + job.arguments.length + 1)) base _ _ _ mem'
        (.inr apart), fun a ha => ?_⟩
      rcases ha with ha | ha
      · exact .inl (.inl ha)
      · exact .inr ((Nat.le_add_right bound _).trans ha.1)
    | _ => cases hst

end Job

variable {ι : Type*} [DecidableEq ι] {platform : Platform} {narrow : Int → Int} {jobs : ι → Job}
  {mem : Memory} {w : Whole ι Addr Bytes CallState} {ms : List (Move ι Addr Bytes Action)}

theorem keepsInside_unstarted (job : Job) : job.KeepsInside {} :=
  ⟨trivial, trivial, Set.disjoint_empty _⟩

omit [DecidableEq ι] in
theorem separate_unstarted : (unstarted mem).Separate (processes platform narrow jobs) :=
  fun _ _ _ => Set.disjoint_left.mpr (fun _ ha => absurd ha (by simp [processes, Job.process,
    unstarted, Job.callerCells, Job.retrierCells]))

/-- In every state that the calls reach together, each of them is in a state that it
reaches alone, and the frames do not overlap. -/
theorem sound_reached
    (hrun : Whole.Run (processes platform narrow jobs) (unstarted mem) ms w) :
    w.Separate (processes platform narrow jobs) ∧ ∀ i, (jobs i).KeepsInside (w.states i) ∧
      ∃ k, (jobs i).Sound platform narrow k (w.states i) ∧
        ∀ a ∈ (processes platform narrow jobs i).owns (w.states i), k a = w.heap a := by
  obtain ⟨hseparate, halone⟩ := hrun.alone
    (fun i => Job.process_local platform narrow (jobs i))
    (fun i => keepsInside_unstarted (jobs i)) separate_unstarted
  refine ⟨hseparate, fun i => ?_⟩
  obtain ⟨hinside, k, hk, hagree⟩ := halone i
  exact ⟨hinside, k, Job.sound_run hk, hagree⟩

theorem size_lt {ms : List (Move ι Addr Bytes Action)} {w w' : Whole ι Addr Bytes CallState}
    {i : ι} {action : Action}
    (hrun : Whole.Run (processes platform narrow jobs) (unstarted mem) ms w)
    (hstep : Whole.Step (processes platform narrow jobs) w (.act i action) w') :
    (jobs i).size (w'.states i) < (jobs i).size (w.states i) := by
  obtain ⟨hinside, k, hsound, hagree⟩ := (sound_reached hrun).2 i
  cases hstep with
  | act step fresh =>
    obtain ⟨k', hsteps, -⟩ := Job.reads_step (Job.steps_of_step step) hinside hagree
    simp only [Function.update_self]
    exact Job.size_step hsteps hsound

section
variable [Fintype ι]

theorem exists_step (hrun : Whole.Run (processes platform narrow jobs) (unstarted mem) ms w)
    {i : ι} (hunfinished : ¬ Job.Finished (w.states i)) :
    ∃ action w', Whole.Step (processes platform narrow jobs) w (.act i action) w' := by
  obtain ⟨hseparate, hsound⟩ := sound_reached hrun
  choose b hb using fun j => Job.exists_bound platform narrow (jobs j) (w.states j)
  obtain ⟨-, k, hk, -⟩ := hsound i
  obtain ⟨action, st', mem', hsteps, hfresh⟩ :=
    Job.progress hk hunfinished (Finset.univ.sup b) w.heap
  refine ⟨action, _, .act (Job.step_of_steps hsteps) (fun j hj => ?_)⟩
  rw [Set.disjoint_left]
  intro a ha ha'
  rcases hfresh a ha with hold | hnew
  · exact Set.disjoint_left.mp (hseparate i j hj.symm) hold ha'
  · exact absurd (hb j a ha') (not_lt.mpr ((Finset.le_sup (Finset.mem_univ j)).trans hnew))

theorem exists_finished (hrun : Whole.Run (processes platform narrow jobs) (unstarted mem) ms w) :
    ∃ ns w', Whole.Run (processes platform narrow jobs) w ns w' ∧
      ∀ i, Job.Finished (w'.states i) :=
  hrun.exists_done (fun i => (jobs i).size) (fun w => ∀ i, Job.Finished (w.states i)) size_lt
    (fun hrun hunfinished => by
      obtain ⟨i, hi⟩ := not_forall.mp hunfinished
      exact ⟨i, exists_step hrun hi⟩)

end

inductive Role
  | caller
  | retrier
deriving DecidableEq

def Job.frame (job : Job) (st : CallState) : Role → Set Addr
  | .caller => job.callerCells st.caller
  | .retrier => job.retrierCells st.retrier

def CallState.session? (st : CallState) : Role → Option Session
  | .caller =>
    match st.caller with
    | .setting _ s _ _ => some s
    | .prepared _ s _ => some s
    | _ => none
  | .retrier =>
    match st.retrier with
    | .setting _ s _ _ => some s
    | .looping _ s _ _ _ _ => some s
    | .waking _ s _ _ _ => some s
    | _ => none

theorem Job.KeepsInside.borrowed {job : Job} {st : CallState} (h : job.KeepsInside st)
    {role : Role} {s : Session} (hs : st.session? role = some s) :
    s.borrowed ⊆ job.frame st role := by
  obtain ⟨caller, retrier, log⟩ := st
  cases role with
  | caller =>
    cases caller with
    | setting base s' objects rest => cases hs; exact h.caller.1.1
    | prepared base s' objects => cases hs; exact h.caller.1
    | _ => cases hs
  | retrier =>
    cases retrier with
    | setting base s' rest res => cases hs; exact h.retrier.1
    | looping base s' retries retry r ts => cases hs; exact h.retrier
    | waking base s' retries retry ts => cases hs; exact h.retrier
    | _ => cases hs

/-- `Get("h")` and, at the same time, `PostDetach("h", "b", ..)` with four options, which is
retried once. -/
def twoJobs (detached : Bool) : Job where
  entry := if detached then .postDetach (str ['b']) else .get
  url := str ['h']
  args := if detached then
      [⟨.rvalue, .parameters (Parameters.ofList [⟨str ['q'], str ['1']⟩])⟩,
        ⟨.lvalue, .headers (OrderedMap.empty.insert (str ['A']) (str ['1']))⟩,
        ⟨.lvalue, .authentication (.make (str ['u']) (str ['p']))⟩,
        ⟨.lvalue, .retryPolicy ⟨1, 1, 2, 60, [503]⟩⟩]
    else []
  circumstances := ⟨fun _ => 1, { responseCode := 503 }, fun _ => {}⟩

/-- Both calls start, the memory between their frames changes, and one of them comes as far
as its retry thread, to which the body is lent at the thread's own address. -/
theorem run_forked : ∃ w s, Whole.Run (processes .linux id twoJobs) (unstarted fun _ => [])
    [.act false (.start 0), .act true (.start 2), .write 1 [7], .act true .option,
      .act true .option, .act true .option, .act true .option, .act true .prepare,
      .act true .send, .act true (.fork 10)] w ∧
    (w.states true).session? .retrier = some s ∧ 10 ∈ s.borrowed := by
  have hbelow : ∀ {owned : Set Addr}, (∀ a ∈ owned, 2 ≤ a) →
      Disjoint owned ((twoJobs false).cells 0 ∪ ∅) := by
    intro owned howned
    rw [Set.union_empty, Set.disjoint_left]
    intro a ha hget
    exact absurd ((howned a ha).trans_lt hget.2) (by decide)
  have halone : Disjoint ((twoJobs true).cells 2 ∪ ∅) ((twoJobs false).cells 0 ∪ ∅) :=
    hbelow (fun a ha => ha.elim (fun h => h.1) (fun h => absurd h (Set.notMem_empty a)))
  have hforked : Disjoint ((twoJobs true).cells 2 ∪ (twoJobs true).cells 10)
      ((twoJobs false).cells 0 ∪ ∅) :=
    hbelow (fun a ha => ha.elim (fun h => h.1) (fun h => le_trans (by decide) h.1))
  have hfree : 1 ∉ (twoJobs true).cells 2 ∪ ∅ :=
    fun h => h.elim (fun h => absurd h.1 (by decide)) (Set.notMem_empty 1)
  have hfree' : 1 ∉ (twoJobs false).cells 0 ∪ ∅ :=
    fun h => h.elim (fun h => absurd h.2 (by decide)) (Set.notMem_empty 1)
  refine ⟨_, _, ((((((((((Whole.Run.nil.snoc (.act rfl ?_)).snoc (.act rfl ?_)).snoc
    (.write _ ?_)).snoc (.act rfl ?_)).snoc (.act rfl ?_)).snoc (.act rfl ?_)).snoc
    (.act rfl ?_)).snoc (.act rfl ?_)).snoc (.act rfl ?_)).snoc (.act rfl ?_)), rfl, ?_⟩
  · exact Bool.forall_bool.mpr ⟨fun h => absurd rfl h, fun _ => by
      rw [Set.disjoint_right]
      exact fun a ha => absurd (ha.elim id id) (Set.notMem_empty a)⟩
  · exact Bool.forall_bool.mpr ⟨fun _ => halone, fun h => absurd rfl h⟩
  · exact Bool.forall_bool.mpr ⟨hfree', hfree⟩
  iterate 6 exact Bool.forall_bool.mpr ⟨fun _ => halone, fun h => absurd rfl h⟩
  · exact Bool.forall_bool.mpr ⟨fun _ => hforked, fun h => absurd rfl h⟩
  · exact ⟨_, rfl, .inl rfl⟩

/-- From there both calls come to their end, one of them after a sleep and a second request. -/
theorem run_twoJobs : ∃ ms w, Whole.Run (processes .linux id twoJobs) (unstarted fun _ => []) ms w ∧
    (∀ i, Job.Finished (w.states i)) ∧ (w.states true).log.length = 3 := by
  obtain ⟨w, s, hrun, -⟩ := run_forked
  obtain ⟨ns, w', hmore, hfinished⟩ := exists_finished hrun
  obtain ⟨-, k, hsound, -⟩ := (sound_reached (hrun.trans hmore)).2 true
  refine ⟨_, w', hrun.trans hmore, hfinished, ?_⟩
  rw [hsound.log_finished (hfinished true), Job.trace_eq]
  rfl

/-- In every interleaving, a call has at any time done a part of what it does alone, in the
same order, and all of it once its two threads are finished. Its caller or its future
receives the response to its own first request. -/
theorem log_prefix_trace
    (hrun : Whole.Run (processes platform narrow jobs) (unstarted mem) ms w) (i : ι) :
    (w.states i).log <+: ((jobs i).call platform narrow).trace ∧
      (Job.Finished (w.states i) → (w.states i).log = ((jobs i).call platform narrow).trace) ∧
      ∀ delivered, (w.states i).caller = .finished delivered →
        delivered.map Except.ok =
          if (jobs i).entry.delivers then some ((jobs i).call platform narrow).first.result
          else none := by
  obtain ⟨-, k, hsound, -⟩ := (sound_reached hrun).2 i
  refine ⟨hsound.log_initial, hsound.log_finished, fun delivered hcaller => ?_⟩
  rw [hsound.delivered hcaller, Job.first_result]
  split <;> rfl

theorem log_prefix_trace_twoJobs : ∃ ms w,
    Whole.Run (processes .linux id twoJobs) (unstarted fun _ => []) ms w ∧
      (w.states true).log.length = 3 ∧
      (w.states true).log = ((twoJobs true).call .linux id).trace ∧
      ∃ res, (w.states false).caller = .finished (some res) ∧
        ((twoJobs false).call .linux id).first.result = .ok res := by
  obtain ⟨ms, w, hrun, hfinished, hlength⟩ := run_twoJobs
  obtain ⟨⟨delivered, hcaller⟩, -⟩ := hfinished false
  refine ⟨ms, w, hrun, hlength, (log_prefix_trace hrun true).2.1 (hfinished true), ?_⟩
  have hresponse := (log_prefix_trace hrun false).2.2 delivered hcaller
  cases delivered with
  | none => cases hresponse
  | some res => exact ⟨res, hcaller, (Option.some.inj hresponse).symm⟩

/-- In every interleaving, no two threads share a cell of memory, and what libcurl is given
the address of lies in the frame of the thread that gave it, which is still running. -/
theorem frames_separate
    (hrun : Whole.Run (processes platform narrow jobs) (unstarted mem) ms w) :
    (∀ i j role role', (i, role) ≠ (j, role') →
      Disjoint ((jobs i).frame (w.states i) role) ((jobs j).frame (w.states j) role')) ∧
    ∀ i role s, (w.states i).session? role = some s →
      s.borrowed ⊆ (jobs i).frame (w.states i) role := by
  obtain ⟨hseparate, hsound⟩ := sound_reached hrun
  have hsub : ∀ i role, (jobs i).frame (w.states i) role ⊆
      (processes platform narrow jobs i).owns (w.states i) := by
    intro i role
    cases role with
    | caller => exact Set.subset_union_left
    | retrier => exact Set.subset_union_right
  refine ⟨fun i j role role' hne => ?_, fun i role s hs => (hsound i).1.borrowed hs⟩
  by_cases hij : i = j
  · subst hij
    have hapart := (hsound i).1.apart
    cases role <;> cases role' <;>
      first | exact hapart | exact hapart.symm | exact absurd rfl hne
  · exact (hseparate i j hij).mono (hsub i role) (hsub j role')

theorem frames_separate_twoJobs : ∃ ms w s,
    Whole.Run (processes .linux id twoJobs) (unstarted fun _ => []) ms w ∧
      (w.states true).session? .retrier = some s ∧ 10 ∈ s.borrowed ∧
      s.borrowed ⊆ (twoJobs true).frame (w.states true) .retrier ∧
      Disjoint ((twoJobs true).frame (w.states true) .caller)
        ((twoJobs true).frame (w.states true) .retrier) ∧
      Disjoint ((twoJobs true).frame (w.states true) .retrier)
        ((twoJobs false).frame (w.states false) .caller) := by
  obtain ⟨w, s, hrun, hs, hlent⟩ := run_forked
  obtain ⟨hapart, hinside⟩ := frames_separate hrun
  exact ⟨_, w, s, hrun, hs, hlent, hinside true .retrier s hs,
    hapart true true .caller .retrier (by decide), hapart true false .retrier .caller (by decide)⟩

theorem size_unstarted (job : Job) :
    job.size {} = 2 * job.args.length + 2 * job.policy.numRetries.toNat + 8 := by
  have hlength := congrArg List.length job.arguments_object
  rw [List.length_map, List.length_map] at hlength
  simp only [Job.size, Job.callerSize, Job.retrierSize, hlength]
  omega

/-- No schedule keeps the calls busy for ever and none blocks a call: a run has a bounded
number of steps, a call that is not finished can always take one, and every run can be
continued until each call has done all that it does alone. -/
theorem calls_complete [Fintype ι]
    (hrun : Whole.Run (processes platform narrow jobs) (unstarted mem) ms w) :
    countActions ms ≤
        ∑ i, (2 * (jobs i).args.length + 2 * (jobs i).policy.numRetries.toNat + 8) ∧
      (∀ i, ¬ Job.Finished (w.states i) →
        ∃ action w', Whole.Step (processes platform narrow jobs) w (.act i action) w') ∧
      ∃ ns w', Whole.Run (processes platform narrow jobs) w ns w' ∧ ∀ i,
        Job.Finished (w'.states i) ∧ (w'.states i).log = ((jobs i).call platform narrow).trace := by
  refine ⟨?_, fun i => exists_step hrun, ?_⟩
  · have hle := hrun.countActions_le (fun i => (jobs i).size) size_lt
    simp only [unstarted, size_unstarted] at hle
    exact (Nat.le_add_right _ _).trans hle
  · obtain ⟨ns, w', hmore, hdone⟩ := exists_finished hrun
    refine ⟨ns, w', hmore, fun i => ⟨hdone i, ?_⟩⟩
    obtain ⟨-, k, hsound, -⟩ := (sound_reached (hrun.trans hmore)).2 i
    exact hsound.log_finished (hdone i)

theorem calls_complete_twoJobs : ∃ ms w,
    Whole.Run (processes .linux id twoJobs) (unstarted fun _ => []) ms w ∧
      ¬ Job.Finished (w.states true) ∧
      (∃ action w', Whole.Step (processes .linux id twoJobs) w (.act true action) w') ∧
      ∃ ns w', Whole.Run (processes .linux id twoJobs) w ns w' ∧ ∀ i,
        Job.Finished (w'.states i) ∧ (w'.states i).log = ((twoJobs i).call .linux id).trace := by
  obtain ⟨w, s, hrun, hs, -⟩ := run_forked
  have hunfinished : ¬ Job.Finished (w.states true) := by
    rintro ⟨-, hretrier⟩
    rw [CallState.session?, hretrier] at hs
    cases hs
  obtain ⟨-, hnext, hdone⟩ := calls_complete hrun
  exact ⟨_, w, hrun, hunfinished, hnext true hunfinished, hdone⟩

end Curlinho
