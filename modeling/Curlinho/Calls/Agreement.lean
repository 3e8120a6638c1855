import Curlinho.Calls.Async
import Curlinho.Foundation.Commuting

/-! # Calls that agree

What a call asks for first depends on the verb, the URL, the body and the values of the
options: not on the entry point, nor on how the options were passed, nor on how options of
different kinds were mixed. The retries of the asynchronous entry points are another
matter, since those always work on temporaries.
-/
namespace Curlinho
open Foundation

variable {platform : Platform} {narrow : Int → Int}

namespace Job

theorem first_request (job : Job) : (job.call platform narrow).first.request =
    some (job.firstSettings.request platform job.entry.method) := by
  obtain ⟨entry, url, args, c⟩ := job
  have hget : ∀ args', args'.map Arg.object = args.map Arg.object →
      (getIntern platform url args' c.first).1.request =
        some ((Curlinho.firstSettings url (args.map Arg.object)).request platform
          (str ['G', 'E', 'T'])) := by
    intro args' hargs
    rw [← hargs]
    exact (getIntern_spec url args' c.first).1
  have hpost : ∀ body args', args'.map Arg.object = args.map Arg.object →
      (postIntern platform url body args' c.first).1.request =
        some (({ Curlinho.firstSettings url (args.map Arg.object) with
          body := some body } : Settings).request platform (str ['P', 'O', 'S', 'T'])) := by
    intro body args' hargs
    rw [← hargs]
    exact (postIntern_spec url body args' c.first).1
  cases entry with
  | get => exact hget _ (map_move_object args)
  | getAsync => exact hget _ ((map_move_object _).trans (Arg.object_byValue args))
  | post body => exact hpost body _ rfl
  | postAsync body => exact hpost body _ (Arg.object_byValue args)
  | postDetach body => exact hpost body _ (Arg.object_byValue args)

theorem kind_remaining (arg : Arg) : arg.remaining.kind = arg.object.kind := by
  rcases arg.remaining_cases with h | ⟨p, hobject, hremaining⟩
  · rw [h]
  · rw [hobject, hremaining]
    rfl

theorem apply_comm (σ : Settings) {o o' : OptionObject} (h : o.kind ≠ o'.kind) :
    (σ.apply o).apply o' = (σ.apply o').apply o := by
  cases o <;> cases o' <;> first | rfl | exact absurd rfl h

theorem applyAll_map {args args' : List Arg} {f : Arg → OptionObject}
    (hf : ∀ arg, (f arg).kind = arg.object.kind)
    (h : ∀ kind, args'.filter (fun arg => arg.object.kind = kind) =
      args.filter (fun arg => arg.object.kind = kind)) (σ : Settings) :
    σ.applyAll (args'.map f) = σ.applyAll (args.map f) := by
  simp only [Settings.applyAll, List.foldl_map]
  refine foldl_eq_of_filter_eq (fun arg : Arg => arg.object.kind) (fun σ a b hab => ?_) h σ
  exact apply_comm σ (by rwa [hf, hf])

/-- Two calls whose options of each kind are the same in the same order do the same from
beginning to end. -/
theorem trace_eq_of_kinds (entry : Entry) (url : Url) (c : Circumstances) {args args' : List Arg}
    (h : ∀ kind, args.filter (fun arg => arg.object.kind = kind) =
      args'.filter (fun arg => arg.object.kind = kind)) :
    ((⟨entry, url, args, c⟩ : Job).call platform narrow).trace =
      ((⟨entry, url, args', c⟩ : Job).call platform narrow).trace := by
  have hobjects : ∀ σ : Settings,
      σ.applyAll (args.map Arg.object) = σ.applyAll (args'.map Arg.object) :=
    applyAll_map (fun _ => rfl) h
  have hremaining : ∀ σ : Settings, σ.applyAll ((entry.arguments args).map Arg.remaining) =
      σ.applyAll ((entry.arguments args').map Arg.remaining) := by
    intro σ
    cases entry with
    | post body => exact applyAll_map kind_remaining h σ
    | get =>
      simp only [Entry.arguments, List.map_map]
      exact applyAll_map (fun arg => kind_remaining arg.move) h σ
    | _ =>
      simp only [Entry.arguments, List.map_map]
      exact applyAll_map (fun arg => kind_remaining arg.byValue) h σ
  have hpolicy : (⟨entry, url, args, c⟩ : Job).policy = (⟨entry, url, args', c⟩ : Job).policy := by
    have hlast := fun objects => Settings.applyAll_retryPolicy {} objects
    exact (hlast _).symm.trans ((congrArg Settings.retryPolicy (hobjects {})).trans (hlast _))
  have hrounds : (⟨entry, url, args, c⟩ : Job).rounds = (⟨entry, url, args', c⟩ : Job).rounds := by
    simp only [Job.rounds, hpolicy]
    rfl
  have hfirst : (⟨entry, url, args, c⟩ : Job).firstSettings =
      (⟨entry, url, args', c⟩ : Job).firstSettings := by
    have h : Curlinho.firstSettings url (args.map Arg.object) =
        Curlinho.firstSettings url (args'.map Arg.object) := by
      rw [Curlinho.firstSettings, hobjects, Curlinho.firstSettings]
    simp only [Job.firstSettings, h]
  have hretry : (⟨entry, url, args, c⟩ : Job).retrySettings =
      (⟨entry, url, args', c⟩ : Job).retrySettings := hremaining _
  rw [trace_eq, trace_eq, hfirst, hretry, hrounds, hpolicy]

theorem trace_eq_of_kinds_swapped :
    ((⟨.get, str ['h'], [⟨.lvalue, .timeout ⟨5⟩⟩, ⟨.lvalue, .url (str ['u'])⟩],
        ⟨fun _ => 0, {}, fun _ => {}⟩⟩ : Job).call .linux id).trace =
      ((⟨.get, str ['h'], [⟨.lvalue, .url (str ['u'])⟩, ⟨.lvalue, .timeout ⟨5⟩⟩],
        ⟨fun _ => 0, {}, fun _ => {}⟩⟩ : Job).call .linux id).trace :=
  trace_eq_of_kinds .get (str ['h']) ⟨fun _ => 0, {}, fun _ => {}⟩
    (fun kind => by cases kind <;> rfl)

theorem retries_eq (job : Job) : (job.call platform narrow).retries =
    (List.range job.rounds).flatMap (fun i =>
      [.sleep (backoff narrow job.policy i (job.circumstances.draw i)),
        .request (job.retrySettings.request platform job.entry.method)]) := by
  have htrace := @trace_eq platform narrow job
  rw [Call.trace, first_request] at htrace
  exact List.tail_eq_of_cons_eq htrace

theorem retriesAgree_iff (job : Job) : (job.call platform narrow).RetriesAgree ↔
    ¬ RetryAllowed job.args job.circumstances.first.answer ∨
      job.firstSettings.request platform job.entry.method =
        job.retrySettings.request platform job.entry.method := by
  have hpos : 0 < job.rounds ↔ RetryAllowed job.args job.circumstances.first.answer := by
    have h := firstStop_pos_iff job.policy.numRetries.toNat
      (fun i => Retryable job.policy (job.answer i))
    rw [decide_eq_true_iff, Int.lt_toNat] at h
    exact h
  have hmem : ∀ q, Event.request q ∈ (job.call platform narrow).retries ↔
      0 < job.rounds ∧ q = job.retrySettings.request platform job.entry.method := by
    intro q
    rw [retries_eq, List.mem_flatMap]
    constructor
    · rintro ⟨i, hi, hq⟩
      exact ⟨(Nat.zero_le i).trans_lt (List.mem_range.mp hi), by simpa using hq⟩
    · rintro ⟨hrounds, rfl⟩
      exact ⟨0, List.mem_range.mpr hrounds, by simp⟩
  simp only [Call.RetriesAgree, hmem, first_request, Option.some.injEq, and_imp, ← hpos]
  constructor
  · intro h
    by_cases hrounds : 0 < job.rounds
    · exact .inr (h _ hrounds rfl)
    · exact .inl hrounds
  · rintro (hnone | heq) q hrounds rfl
    · exact absurd hrounds hnone
    · exact heq

end Job

/-- Of temporaries, the first request leaves no parameters. -/
theorem keptQuery_byValue (args : List Arg) : keptQuery (args.map Arg.byValue) = [] := by
  rw [keptQuery, lastSome_map, lastSome_map]
  induction args using List.reverseRecOn with
  | nil => rfl
  | append_singleton args arg ih =>
    obtain ⟨category, object⟩ := arg
    rw [lastSome_concat]
    cases object with
    | parameters p => rfl
    | _ => exact ih

theorem lastQuery_byValue (args : List Arg) :
    lastQuery (args.map Arg.byValue) = lastQuery args := by
  rw [lastQuery, Arg.object_byValue]
  rfl

theorem parametersKept_byValue (args : List Arg) :
    ParametersKept (args.map Arg.byValue) ↔ lastQuery args = [] := by
  rw [← lastQuery_byValue]
  rcases keptQuery_cases (args.map Arg.byValue) with ⟨hkept, heq⟩ | ⟨hkept, -, hne⟩
  · exact iff_of_true hkept (heq.symm.trans (keptQuery_byValue args))
  · exact iff_of_false hkept hne

/-- The URL text of a retry is that of the first request although the query is gone: there
was none, a NUL hides it, or a `Url` option spells it out. -/
def UrlSurvives (url : Url) (args : List Arg) : Prop :=
  UrlUnopposed url args ∧ (lastQuery args = [] ∨ 0 ∈ (lastUrl args).getD url) ∨
    ¬ UrlUnopposed url args ∧
      cstr (Session.requestUrl url (lastQuery args)) = cstr ((lastUrl args).getD url)

theorem urlKept_byValue (url : Url) (args : List Arg) :
    UrlKept url (args.map Arg.byValue) ↔ UrlSurvives url args := by
  have hlast : lastUrl (args.map Arg.byValue) = lastUrl args := by
    rw [lastUrl, Arg.object_byValue]
    rfl
  have hplain : Session.requestUrl ((lastUrl args).getD url) [] = (lastUrl args).getD url := rfl
  simp only [UrlKept, UrlSurvives, UrlUnopposed, parametersKept_byValue, hlast, lastQuery_byValue,
    keptQuery_byValue, hplain]

/-- The retries of an asynchronous call are the first request over again exactly if none is
allowed, or the URL text survives the loss of the query and, for a POST, the body is the one
that the options leave. -/
theorem retriesAgree_async_iff (url : Url) (body : Body) (args : List Arg) (c : Circumstances) :
    ((getAsync platform narrow c.draw url args c.first c.retries).RetriesAgree ↔
        ¬ RetryAllowed args c.first.answer ∨ UrlSurvives url args) ∧
      ((postAsync platform narrow c.draw url body args c.first c.retries).RetriesAgree ↔
        ¬ RetryAllowed args c.first.answer ∨ UrlSurvives url args ∧ BodyKept body args) ∧
      ((postDetach platform narrow c.draw url body args c.first c.retries).RetriesAgree ↔
        ¬ RetryAllowed args c.first.answer ∨ UrlSurvives url args ∧ BodyKept body args) := by
  have hobject := Arg.object_byValue args
  have hlast : lastBody (args.map Arg.byValue) = lastBody args := by
    rw [lastBody, hobject]
    rfl
  have hget : (Curlinho.firstSettings url (args.map Arg.object)).request platform
        (str ['G', 'E', 'T']) =
      (retrySettings url [] ((args.map Arg.byValue).map Arg.remaining)).request platform
        (str ['G', 'E', 'T']) ↔ UrlSurvives url args := by
    rw [← hobject, Settings.request_eq_iff (bare_firstSettings url [] _), url_firstSettings,
      parameters_firstSettings, body_firstSettings, url_retrySettings, parameters_retrySettings,
      body_retrySettings, if_pos rfl, Option.or_none, sameUrlText_iff, urlKept_byValue]
    simp only [and_true]
  have hpost : ({ Curlinho.firstSettings url (args.map Arg.object) with
        body := some body } : Settings).request platform (str ['P', 'O', 'S', 'T']) =
      (retrySettings url body ((args.map Arg.byValue).map Arg.remaining)).request platform
        (str ['P', 'O', 'S', 'T']) ↔ UrlSurvives url args ∧ BodyKept body args := by
    have hbare : ({ Curlinho.firstSettings url ((args.map Arg.byValue).map Arg.object) with
        body := some body } : Settings).bare =
          (retrySettings url body ((args.map Arg.byValue).map Arg.remaining)).bare :=
      bare_firstSettings url body (args.map Arg.byValue)
    have hbody : some body = (lastBody args).or (if body = [] then none else some body) ↔
        BodyKept body args := by
      unfold BodyKept
      cases lastBody args with
      | some b => simp only [Option.some_or, Option.some.injEq, eq_comm]
      | none => by_cases hb : body = [] <;> simp [hb]
    rw [← hobject, Settings.request_eq_iff hbare, url_firstSettings, parameters_firstSettings,
      url_retrySettings, parameters_retrySettings, body_retrySettings, hlast, hbody,
      sameUrlText_iff, urlKept_byValue]
  refine ⟨?_, ?_, ?_⟩
  · exact (Job.retriesAgree_iff ⟨.getAsync, url, args, c⟩).trans (or_congr_right hget)
  · exact (Job.retriesAgree_iff ⟨.postAsync body, url, args, c⟩).trans (or_congr_right hpost)
  · exact (Job.retriesAgree_iff ⟨.postDetach body, url, args, c⟩).trans (or_congr_right hpost)

end Curlinho
