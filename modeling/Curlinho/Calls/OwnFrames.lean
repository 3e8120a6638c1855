import Curlinho.Calls.Threads

/-! # Threads keep to their frames

The sessions of a call keep addresses of the frame of their thread only. So a step of
the call writes nothing outside its frames and depends on nothing outside them.
-/
namespace Curlinho
open Foundation

namespace Job
variable {platform : Platform} {narrow : Int → Int} {job : Job} {base : Addr} {s : Session}

theorem base_mem_cells (base : Addr) : base ∈ job.cells base :=
  ⟨le_rfl, Nat.lt_succ_of_le (Nat.le_add_right _ _)⟩

theorem place_of_notMem {a : Addr} (ha : a ∉ job.cells base) (objects : List OptionObject)
    (mem : Memory) : job.place base objects mem a = mem a :=
  if_neg (fun h => ha h)

theorem place_congr {A : Set Addr} {mem mem' : Memory} (h : ∀ a ∈ A, mem' a = mem a)
    (objects : List OptionObject) {a : Addr} (ha : a ∈ A ∪ job.cells base) :
    job.place base objects mem' a = job.place base objects mem a := by
  unfold place
  by_cases hcell : base ≤ a ∧ a < base + job.arguments.length + 1
  · rw [if_pos hcell, if_pos hcell]
  · rw [if_neg hcell, if_neg hcell]
    exact h a (ha.resolve_right hcell)

theorem zipIdx_mem_cells {args : List Arg} (hlength : args.length ≤ job.arguments.length)
    {call : Arg × Addr} (hcall : call ∈ args.zipIdx (base + 1)) : call.2 ∈ job.cells base := by
  obtain ⟨hle, hlt, -⟩ := List.mem_zipIdx hcall
  refine ⟨(Nat.le_succ base).trans hle, hlt.trans_le ?_⟩
  omega

/-- The session keeps addresses of the frame only, and is still to be given such. -/
def Inside (job : Job) (base : Addr) (s : Session) (rest : List (Arg × Addr)) : Prop :=
  s.borrowed ⊆ job.cells base ∧ ∀ call ∈ rest, call.2 ∈ job.cells base

theorem Inside.setOption {call : Arg × Addr} {rest : List (Arg × Addr)}
    (h : job.Inside base s (call :: rest)) :
    job.Inside base (s.setOption platform allAppended call.2 call.1).1 rest := by
  constructor
  · refine (Session.borrowed_setOption platform allAppended call.2 call.1).trans ?_
    exact Set.insert_subset (h.2 call List.mem_cons_self) h.1
  · exact fun c hc => h.2 c (List.mem_cons_of_mem _ hc)

theorem borrowed_prepare (h : s.borrowed ⊆ job.cells base) :
    (job.entry.prepare job.url base s).borrowed ⊆ job.cells base := by
  have hurl : (if job.url ≠ [] then s.setUrl job.url else s).borrowed ⊆ job.cells base := by
    split <;> exact h
  unfold Entry.prepare
  cases job.entry.body? with
  | none => exact hurl
  | some body =>
    exact (Session.borrowed_setBody base body).trans
      (Set.insert_subset (base_mem_cells base) hurl)

theorem borrowed_newWith (url : Url) (body : Body) :
    (Session.newWith platform true url base body).borrowed ⊆ job.cells base := by
  have hnew : (if url ≠ [] then (Session.new platform true).setUrl url
      else Session.new platform true).borrowed ⊆ job.cells base := by
    have hempty : (Session.new platform true).borrowed ⊆ job.cells base := by
      rw [Session.borrowed_new]
      exact Set.empty_subset _
    split <;> exact hempty
  unfold Session.newWith
  by_cases hb : body = []
  · rw [if_neg (not_not.mpr hb)]
    exact hnew
  · rw [if_pos hb]
    exact (Session.borrowed_setBody base body).trans
      (Set.insert_subset (base_mem_cells base) hnew)

def CallerInside (job : Job) : Caller → Prop
  | .setting base s objects rest =>
    job.Inside base s rest ∧ objects.length + rest.length = job.arguments.length
  | .prepared base s objects =>
    s.borrowed ⊆ job.cells base ∧ objects.length = job.arguments.length
  | .answered _ objects _ => objects.length = job.arguments.length
  | _ => True

def RetrierInside (job : Job) : Retrier → Prop
  | .setting base s rest _ => job.Inside base s rest
  | .looping base s _ _ _ _ => s.borrowed ⊆ job.cells base
  | .waking base s _ _ _ => s.borrowed ⊆ job.cells base
  | _ => True

/-- Each thread stays inside its frame, and the frames do not overlap. -/
structure KeepsInside (job : Job) (st : CallState) : Prop where
  caller : job.CallerInside st.caller
  retrier : job.RetrierInside st.retrier
  apart : Disjoint (job.callerCells st.caller) (job.retrierCells st.retrier)

theorem cells_disjoint {base' : Addr}
    (apart : base' + job.arguments.length < base ∨ base + job.arguments.length < base') :
    Disjoint (job.cells base) (job.cells base') := by
  rw [Set.disjoint_left]
  rintro a ⟨hle, hlt⟩ ⟨hle', hlt'⟩
  rcases apart with h | h
  · exact absurd (hle.trans_lt hlt') (not_lt.mpr h)
  · exact absurd (hle'.trans_lt hlt) (not_lt.mpr h)

theorem keepsInside_step {action : Action} {st st' : CallState} {mem mem' : Memory}
    (h : job.Steps platform narrow action st mem st' mem') (hst : job.KeepsInside st) :
    job.KeepsInside st' := by
  cases h with
  | start base log mem =>
    refine ⟨⟨⟨?_, fun call hcall => zipIdx_mem_cells le_rfl hcall⟩, ?_⟩, trivial, ?_⟩
    · rw [Session.borrowed_new]
      exact Set.empty_subset _
    · rw [List.length_zipIdx, List.length_nil, Nat.zero_add]
    · exact Set.disjoint_empty _
  | option base s objects arg addr rest retrier log mem =>
    obtain ⟨hinside, hlength⟩ := hst.caller
    refine ⟨⟨hinside.setOption, ?_⟩, hst.retrier, hst.apart⟩
    simp only [List.length_append, List.length_cons, List.length_nil] at hlength ⊢
    omega
  | prepare base s objects retrier log mem =>
    obtain ⟨hinside, hlength⟩ := hst.caller
    exact ⟨⟨borrowed_prepare hinside.1, hlength⟩, hst.retrier, hst.apart⟩
  | send base s objects retrier log mem => exact ⟨hst.caller.2, hst.retrier, hst.apart⟩
  | fork base' base objects res log mem apart =>
    have hlength : objects.length = job.arguments.length := hst.caller
    refine ⟨trivial, ⟨borrowed_newWith _ _, fun call hcall => zipIdx_mem_cells ?_ hcall⟩,
      cells_disjoint apart⟩
    rw [List.length_map]
    exact hlength.le
  | deliver base res retrier log mem => exact ⟨trivial, hst.retrier, Set.empty_disjoint _⟩
  | retryOption caller base s arg addr rest res log mem =>
    exact ⟨hst.caller, hst.retrier.setOption, hst.apart⟩
  | enter caller base s res log mem => exact ⟨hst.caller, hst.retrier.1, hst.apart⟩
  | skip => exact ⟨hst.caller, hst.retrier, hst.apart⟩
  | sleep => exact ⟨hst.caller, hst.retrier, hst.apart⟩
  | resend caller base s retries retry r ts log mem answered =>
    refine ⟨hst.caller, ?_, hst.apart⟩
    simp only [RetrierInside, Session.borrowed_perform]
    exact hst.retrier
  | fault => exact ⟨hst.caller, trivial, Set.disjoint_empty _⟩
  | exit => exact ⟨hst.caller, trivial, Set.disjoint_empty _⟩

theorem writes_step {action : Action} {st st' : CallState} {mem mem' : Memory}
    (h : job.Steps platform narrow action st mem st' mem') {a : Addr}
    (hbefore : a ∉ (job.process platform narrow).owns st)
    (hafter : a ∉ (job.process platform narrow).owns st') : mem' a = mem a := by
  cases h with
  | start base log mem => exact place_of_notMem (fun ha => hafter (.inl ha)) _ _
  | fork base' base objects res log mem apart =>
    rw [place_of_notMem (fun ha => hafter (.inr ha)),
      place_of_notMem (fun ha => hafter (.inl ha))]
  | _ => rfl

theorem reads_step {action : Action} {st st' : CallState} {mem mem' k : Memory}
    (h : job.Steps platform narrow action st mem st' mem') (hst : job.KeepsInside st)
    (hk : ∀ a ∈ (job.process platform narrow).owns st, k a = mem a) :
    ∃ k', job.Steps platform narrow action st k st' k' ∧
      ∀ a ∈ (job.process platform narrow).owns st', k' a = mem' a := by
  cases h with
  | start base log mem =>
    refine ⟨_, .start base log k, fun a ha => place_congr hk _ ?_⟩
    cases ha with
    | inl hcell => exact .inr hcell
    | inr hretrier => exact .inl (.inr hretrier)
  | send base s objects retrier log mem =>
    have heq := Session.perform_congr (s := s) (fun a ha => hk a (.inl (hst.caller.1 ha)))
      job.entry.method job.circumstances.first
    rw [← heq]
    exact ⟨k, .send base s objects retrier log k, hk⟩
  | fork base' base objects res log mem apart =>
    refine ⟨_, .fork base' base objects res log k apart, fun a ha => ?_⟩
    refine place_congr (A := job.cells base) (fun a ha => place_congr hk _ (.inr ha)) _ ?_
    exact ha
  | resend caller base s retries retry r ts log mem answered =>
    have heq := Session.perform_congr (s := s) (fun a ha => hk a (.inr (hst.retrier ha)))
      job.entry.method (ts 0)
    rw [← heq] at answered ⊢
    exact ⟨k, .resend caller base s retries retry r ts log k answered, hk⟩
  | fault caller base s retries retry fault ts log mem faulty =>
    have heq := Session.perform_congr (s := s) (fun a ha => hk a (.inr (hst.retrier ha)))
      job.entry.method (ts 0)
    rw [← heq] at faulty ⊢
    exact ⟨k, .fault caller base s retries retry fault ts log k faulty,
      fun a ha => hk a (.inl (ha.resolve_right id))⟩
  | option base s objects arg addr rest retrier log mem =>
    exact ⟨k, .option base s objects arg addr rest retrier log k, hk⟩
  | prepare base s objects retrier log mem =>
    exact ⟨k, .prepare base s objects retrier log k, hk⟩
  | deliver base res retrier log mem =>
    exact ⟨k, .deliver base res retrier log k, fun a ha => hk a (.inr (ha.resolve_left id))⟩
  | retryOption caller base s arg addr rest res log mem =>
    exact ⟨k, .retryOption caller base s arg addr rest res log k, hk⟩
  | enter caller base s res log mem => exact ⟨k, .enter caller base s res log k, hk⟩
  | skip caller base s retries retry r ts log mem left idle =>
    exact ⟨k, .skip caller base s retries retry r ts log k left idle, hk⟩
  | sleep caller base s retries retry r ts log mem left again =>
    exact ⟨k, .sleep caller base s retries retry r ts log k left again, hk⟩
  | exit caller base s retries retry r ts log mem ended =>
    exact ⟨k, .exit caller base s retries retry r ts log k ended,
      fun a ha => hk a (.inl (ha.resolve_right id))⟩

theorem process_local (platform : Platform) (narrow : Int → Int) (job : Job) :
    (job.process platform narrow).Local job.KeepsInside where
  kept hst h := keepsInside_step (steps_of_step h) hst
  writes _ h _ hbefore hafter := writes_step (steps_of_step h) hbefore hafter
  reads hst h hk := by
    obtain ⟨k', hsteps, hagree⟩ := reads_step (steps_of_step h) hst hk
    exact ⟨k', step_of_steps hsteps, hagree⟩

end Job
end Curlinho
