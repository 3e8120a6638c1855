import Curlinho.Calls.Alone
import Curlinho.Session.Balance
import Curlinho.Session.HeaderAlgebra

/-! # The two lives of a call

A call is the life of one session in the calling thread and of another in the retry thread.
Both release their handle and their header lists; what the failing handshakes of a call
leave behind adds up over its retries.
-/
namespace Curlinho
open Foundation

def OptionObject.hasCertificate : OptionObject → Bool
  | sslCert c => decide (c.certString_ ≠ [])
  | _ => false

/-- `set_option` as calls on the session, the `i`-th option being at `i + 1`. -/
def setters (args : List Arg) : List SessionCall :=
  (args.zipIdx 1).map (fun call => .setOption allAppended call.2 call.1)

def Entry.request (entry : Entry) (mem : Memory) (t : Transfer) : SessionCall :=
  match entry.body? with
  | none => .get mem t
  | some _ => .post mem t

namespace Job

/-- What `GetIntern` and `PostIntern` do to their session before the request. -/
def firstSetters (job : Job) : List SessionCall :=
  setters job.arguments ++
    (if job.url ≠ [] then [.setOption allAppended 0 ⟨.lvalue, .url job.url⟩] else []) ++
      (job.entry.body?.map (fun body => .setOption allAppended 0 ⟨.lvalue, .body body⟩)).toList

variable (job : Job) (handshakes : ℕ → List Handshake)

/-- The life of the first session; `handshakes i` are those of the request before the `i`-th
retry. -/
def firstLifeCalls : List LifeCall :=
  job.firstSetters.map (LifeCall.mk · []) ++
    [⟨job.entry.request (frameMemory job.entry.body (job.arguments.map Arg.remaining))
      job.circumstances.first, handshakes 0⟩]

/-- The life of the session of the retry thread, after its construction. -/
def retryLifeCalls : List LifeCall :=
  (setters job.copies).map (LifeCall.mk · []) ++ (List.range job.rounds).map (fun i =>
    ⟨job.entry.request (frameMemory job.entry.body (job.copies.map Arg.remaining))
      (job.circumstances.retries i), handshakes (i + 1)⟩)

variable (platform : Platform)

def firstLife : Life := Life.whole platform true [] 0 [] (job.firstLifeCalls handshakes)

def retryLife : Life :=
  Life.whole platform true job.url 0 job.entry.body (job.retryLifeCalls handshakes)

def hasCertificate : Bool := job.args.any (fun arg => arg.object.hasCertificate)

end Job

namespace Session
variable {platform : Platform} {s : Session} {σ : Settings} {mem : Memory}

theorem applyCalls_setters (s : Session) (args : List Arg) :
    s.applyCalls platform (setters args) = (s.setArguments platform args).1 := by
  unfold setters setArguments
  generalize args.zipIdx 1 = calls
  induction calls generalizing s with
  | nil => rfl
  | cons call calls ih => exact ih _

theorem requestsSent_of_none {calls : List SessionCall}
    (h : ∀ call ∈ calls, call.transfer? = none) (s : Session) :
    s.requestsSent platform calls = [] := by
  induction calls generalizing s with
  | nil => rfl
  | cons call calls ih =>
    cases call with
    | setOption ok addr arg => exact ih (fun c hc => h c (List.mem_cons_of_mem _ hc)) _
    | get mem t => cases h _ List.mem_cons_self
    | post mem t => cases h _ List.mem_cons_self

theorem Represents.requestsSent (hr : Represents platform mem s σ) (entry : Entry)
    (ts : List Transfer) :
    s.requestsSent platform (ts.map (entry.request mem)) =
      List.replicate ts.length (some (σ.request platform entry.method)) := by
  induction ts generalizing s with
  | nil => rfl
  | cons t ts ih =>
    obtain ⟨h, hs, -⟩ := hr.handle
    have hsent : (s.perform entry.method mem t).request = some (σ.request platform entry.method) :=
      (perform_spec hs entry.method mem t).1.trans (hr.nextRequest entry.method)
    have hrest := ih (hr.perform entry.method mem t)
    rw [List.map_cons, List.length_cons, List.replicate_succ, ← hrest, ← hsent]
    cases entry <;> rfl

end Session

theorem transfer?_setters {args : List Arg} {call : SessionCall} (h : call ∈ setters args) :
    call.transfer? = none := by
  obtain ⟨c, -, rfl⟩ := List.mem_map.mp h
  rfl

theorem any_setsCertificate_setters (args : List Arg) :
    (setters args).any SessionCall.setsCertificate =
      (args.map Arg.object).any OptionObject.hasCertificate := by
  have hcall : ∀ call : Arg × Addr, SessionCall.setsCertificate
      (.setOption allAppended call.2 call.1) = call.1.object.hasCertificate := by
    rintro ⟨⟨category, object⟩, addr⟩
    cases object <;> rfl
  have hmap := Session.map_zipIdx (fun arg => arg.object.hasCertificate) args 1
  have hany := congrArg (fun l : List Bool => l.any id) hmap
  simp only [List.any_map, Function.comp_def, id_eq] at hany
  rw [setters, List.any_map, List.any_map]
  simp only [Function.comp_def, hcall]
  exact hany

namespace Life
variable (platform : Platform) (init : Bool) (url : Url) (addr : Addr) (body : Body)

theorem handshakes_setters_requests {setting requests : List LifeCall}
    (hsetting : ∀ c ∈ setting, c.call.transfer? = none)
    (hrequests : ∀ c ∈ requests, c.call.transfer?.isSome = true ∧ c.call.setsCertificate = false) :
    ((setting ++ requests).foldl (call platform) (start platform init url addr body)).handshakes =
      if init && setting.any (fun c => c.call.setsCertificate) then
        requests.flatMap LifeCall.handshakes
      else [] := by
  induction requests using List.reverseRecOn with
  | nil =>
    rw [List.append_nil, List.flatMap_nil, ite_self]
    induction setting using List.reverseRecOn with
    | nil => rfl
    | append_singleton setting c ih =>
      rw [List.foldl_append, List.foldl_cons, List.foldl_nil, (call_frame platform _ c).2,
        ih (fun d hd => hsetting d (List.mem_append_left _ hd)), hsetting c (by simp)]
      rfl
  | append_singleton requests c ih =>
    have hbefore := ih (fun d hd => hrequests d (List.mem_append_left _ hd))
    obtain ⟨hrequest, -⟩ := hrequests c (by simp)
    have hcallback : ((setting ++ requests).foldl (call platform)
        (start platform init url addr body)).session.curl_.handle.any Handle.sslCtxFunction =
          (init && setting.any (fun c => c.call.setsCertificate)) := by
      have hquiet : requests.any (fun c => c.call.setsCertificate) = false := by
        rw [List.any_eq_false]
        intro d hd
        rw [(hrequests d (List.mem_append_left _ hd)).2]
        exact Bool.false_ne_true
      rw [Bool.eq_iff_iff, sslCtxFunction_calls, Bool.and_eq_true, ← List.any_eq_true,
        List.any_append, hquiet, Bool.or_false]
    rw [← List.append_assoc, List.foldl_append, List.foldl_cons, List.foldl_nil,
      (call_frame platform _ c).2, hbefore, hcallback, hrequest, List.flatMap_append,
      Bool.true_and]
    split
    · rw [List.flatMap_cons, List.flatMap_nil, List.append_nil]
    · rfl

theorem whole_owns (calls : List LifeCall) :
    (∀ s ∈ (whole platform init url addr body calls).visited, ¬ s.NamesReleased) ∧
      (whole platform init url addr body calls).total.Owns
        (leaks (calls.foldl (call platform) (start platform init url addr body)).handshakes) := by
  have hsound := (sound_start platform init url addr body).calls platform calls
  refine ⟨fun s hs => ?_, hsound.destroy⟩
  rcases List.mem_append.mp hs with hs | hs
  · exact hsound.visited s hs
  · exact not_namesReleased_freeHolderStates _ s hs

end Life

namespace Job
variable {platform : Platform} {narrow : Int → Int}

theorem transfer?_firstSetters {job : Job} {call : SessionCall} (h : call ∈ job.firstSetters) :
    call.transfer? = none := by
  unfold firstSetters at h
  rcases List.mem_append.mp h with h | h
  · rcases List.mem_append.mp h with h | h
    · exact transfer?_setters h
    · split at h
      · rw [List.mem_singleton.mp h]
        rfl
      · cases h
  · obtain ⟨body, -, rfl⟩ := Option.map_eq_some_iff.mp (Option.mem_toList.mp h)
    rfl

theorem any_setsCertificate_firstSetters (job : Job) :
    job.firstSetters.any SessionCall.setsCertificate = job.hasCertificate := by
  have hurl : (if job.url ≠ [] then [SessionCall.setOption allAppended 0 ⟨.lvalue, .url job.url⟩]
      else []).any SessionCall.setsCertificate = false := by
    split <;> rfl
  have hbody : (job.entry.body?.map (fun body => SessionCall.setOption allAppended 0
      ⟨.lvalue, .body body⟩)).toList.any SessionCall.setsCertificate = false := by
    cases job.entry.body? <;> rfl
  rw [firstSetters, List.any_append, List.any_append, hurl, hbody, any_setsCertificate_setters,
    job.arguments_object, List.any_map, Bool.or_false, Bool.or_false]
  rfl

theorem any_setsCertificate_copies (job : Job) :
    (setters job.copies).any SessionCall.setsCertificate = job.hasCertificate := by
  have hremaining : ∀ arg : Arg, arg.remaining.hasCertificate = arg.object.hasCertificate := by
    intro arg
    rcases arg.remaining_cases with h | ⟨p, hobject, hremaining⟩
    · rw [h]
    · rw [hobject, hremaining]
      rfl
  have hobjects := congrArg (fun l => l.any OptionObject.hasCertificate) job.arguments_object
  rw [any_setsCertificate_setters, copies, map_rvalue_object, hasCertificate]
  simp only [List.any_map, Function.comp_def, hremaining] at hobjects ⊢
  exact hobjects

theorem represents_firstSetters (job : Job) :
    ((Session.newWith platform true [] 0 []).applyCalls platform job.firstSetters).Represents
      platform (frameMemory job.entry.body (job.arguments.map Arg.remaining)) job.firstSettings := by
  have hprepare : (Session.newWith platform true [] 0 []).applyCalls platform job.firstSetters =
      job.entry.prepare job.url 0 ((Session.new platform true).setArguments platform
        job.arguments).1 := by
    rw [firstSetters, Session.applyCalls, List.foldl_append, List.foldl_append,
      ← Session.applyCalls, ← Session.applyCalls_setters, Entry.prepare]
    cases job.entry.body? <;> split <;> rfl
  rw [hprepare]
  exact represents_prepare Session.represents_new.setArguments rfl

theorem requestsSent_firstLife (job : Job) (handshakes : ℕ → List Handshake) :
    (Session.newWith platform true [] 0 []).requestsSent platform
        ((job.firstLifeCalls handshakes).map LifeCall.call) =
      [some (job.firstSettings.request platform job.entry.method)] := by
  have hcalls : (job.firstLifeCalls handshakes).map LifeCall.call =
      job.firstSetters ++ [job.circumstances.first].map (job.entry.request
        (frameMemory job.entry.body (job.arguments.map Arg.remaining))) := by
    rw [firstLifeCalls, List.map_append, List.map_map]
    exact congrArg (· ++ _) (List.map_id _)
  rw [hcalls, Session.requestsSent_append, Session.requestsSent_of_none
    (fun call hcall => transfer?_firstSetters hcall), List.nil_append,
    job.represents_firstSetters.requestsSent]
  rfl

theorem requestsSent_retryLife (job : Job) (handshakes : ℕ → List Handshake) :
    (Session.newWith platform true job.url 0 job.entry.body).requestsSent platform
        ((job.retryLifeCalls handshakes).map LifeCall.call) =
      List.replicate job.rounds (some (job.retrySettings.request platform job.entry.method)) := by
  have hcalls : (job.retryLifeCalls handshakes).map LifeCall.call =
      setters job.copies ++ ((List.range job.rounds).map job.circumstances.retries).map
        (job.entry.request (frameMemory job.entry.body (job.copies.map Arg.remaining))) := by
    rw [retryLifeCalls, List.map_append, List.map_map, List.map_map, List.map_map]
    exact congrArg (· ++ _) (List.map_id _)
  have hr := @represents_retrySession platform job.url job.entry.body
    (job.arguments.map Arg.remaining)
  rw [← Session.applyCalls_setters] at hr
  rw [hcalls, Session.requestsSent_append, Session.requestsSent_of_none
    (fun call hcall => transfer?_setters hcall), List.nil_append]
  refine (hr.requestsSent job.entry _).trans ?_
  rw [List.length_map, List.length_range]
  rfl

theorem request_call (entry : Entry) (mem : Memory) (t : Transfer) :
    (entry.request mem t).transfer?.isSome = true ∧
      (entry.request mem t).setsCertificate = false := by
  cases entry <;> exact ⟨rfl, rfl⟩

theorem handshakes_firstLife (job : Job) (handshakes : ℕ → List Handshake) :
    ((job.firstLifeCalls handshakes).foldl (Life.call platform)
      (Life.start platform true [] 0 [])).handshakes =
        if job.hasCertificate then handshakes 0 else [] := by
  rw [firstLifeCalls, Life.handshakes_setters_requests, Bool.true_and, List.any_map,
    ← any_setsCertificate_firstSetters, List.flatMap_cons, List.flatMap_nil, List.append_nil]
  · rfl
  · intro c hc
    obtain ⟨call, hcall, rfl⟩ := List.mem_map.mp hc
    exact transfer?_firstSetters hcall
  · intro c hc
    rw [List.mem_singleton.mp hc]
    exact request_call _ _ _

theorem handshakes_retryLife (job : Job) (handshakes : ℕ → List Handshake) :
    ((job.retryLifeCalls handshakes).foldl (Life.call platform)
      (Life.start platform true job.url 0 job.entry.body)).handshakes =
        if job.hasCertificate then
          (List.range job.rounds).flatMap (fun i => handshakes (i + 1)) else [] := by
  rw [retryLifeCalls, Life.handshakes_setters_requests, Bool.true_and, List.any_map,
    ← any_setsCertificate_copies, List.flatMap_map]
  · rfl
  · intro c hc
    obtain ⟨call, hcall, rfl⟩ := List.mem_map.mp hc
    exact transfer?_setters hcall
  · intro c hc
    obtain ⟨i, -, rfl⟩ := List.mem_map.mp hc
    exact request_call _ _ _

/-- Together the two sessions of a call send its requests. Neither ever names a released
list, and once both are destroyed, of all that they acquired only that is left which the
failing handshakes of the first request and of each retry left behind, and nothing at all
without a certificate among the options. -/
theorem lives (job : Job) (handshakes : ℕ → List Handshake) :
    (Session.newWith platform true [] 0 []).requestsSent platform
          ((job.firstLifeCalls handshakes).map LifeCall.call) ++
        (Session.newWith platform true job.url 0 job.entry.body).requestsSent platform
          ((job.retryLifeCalls handshakes).map LifeCall.call) =
        ((job.call platform narrow).trace.filterMap Event.request?).map some ∧
      (∀ s ∈ (job.firstLife handshakes platform).visited ++
        (job.retryLife handshakes platform).visited, ¬ s.NamesReleased) ∧
      (job.firstLife handshakes platform).total.Owns
        (leaks (if job.hasCertificate then handshakes 0 else [])) ∧
      (job.retryLife handshakes platform).total.Owns
        (leaks (if job.hasCertificate then
          (List.range job.rounds).flatMap (fun i => handshakes (i + 1)) else [])) := by
  obtain ⟨hvisited, howns⟩ := Life.whole_owns platform true [] 0 [] (job.firstLifeCalls handshakes)
  obtain ⟨hvisited', howns'⟩ := Life.whole_owns platform true job.url 0 job.entry.body
    (job.retryLifeCalls handshakes)
  refine ⟨?_, fun s hs => ?_, ?_, ?_⟩
  · rw [requestsSent_firstLife, requestsSent_retryLife, Job.requests_eq, List.map_cons,
      List.map_replicate]
    rfl
  · rcases List.mem_append.mp hs with hs | hs
    · exact hvisited s hs
    · exact hvisited' s hs
  · rw [← job.handshakes_firstLife handshakes]
    exact howns
  · rw [← job.handshakes_retryLife handshakes]
    exact howns'

end Job
end Curlinho
