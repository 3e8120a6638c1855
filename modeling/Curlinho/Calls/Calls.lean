import Curlinho.Calls.RetryLoop
import Curlinho.Session.RequestUrl

/-! # Calls with retries

`Get` and `Post` send a first request from one session and hand their options on to a
retry thread, which builds another. The two sessions agree on everything but the URL
text and the body, which the order of the setters and the moves can change.
-/
namespace Curlinho
open Foundation

/-- What a call has done: the first request and its response, the events of the retry
thread, and the option objects as the caller finds them afterwards. -/
structure Call where
  first : Outcome
  retries : List Event
  objects : List OptionObject

section
variable (platform : Platform) (narrow : Int → Int) (draw : ℕ → Int)

def getIntern (url : Url) (args : List Arg) (t : Transfer) : Outcome × List OptionObject :=
  let s := Session.new platform true
  let (s, objects) := s.setArguments platform args
  let s := if url ≠ [] then s.setUrl url else s
  (s.get (frameMemory [] objects) t, objects)

def postIntern (url : Url) (body : Body) (args : List Arg) (t : Transfer) :
    Outcome × List OptionObject :=
  let s := Session.new platform true
  let (s, objects) := s.setArguments platform args
  let s := if url ≠ [] then s.setUrl url else s
  let s := s.setBody 0 body
  (s.post (frameMemory body objects) t, objects)

/-- What an argument holds after a by-value parameter was initialised from it. -/
def Arg.handedOver (arg : Arg) (object : OptionObject) : OptionObject :=
  if arg.category = .rvalue then object.movedFrom else object

def Arg.move (arg : Arg) : Arg := { arg with category := arg.category.move }

/-- `Get` moves its options, whatever they were passed as. -/
def get (url : Url) (args : List Arg) (t : Transfer) (ts : ℕ → Transfer) : Call :=
  let args := args.map Arg.move
  let (first, objects) := getIntern platform url args t
  { first := first
    retries := match first.result with
      | .error _ => []
      | .ok res => (handleGetRetries platform narrow draw res url objects ts).events
    objects := List.zipWith Arg.handedOver args objects }

/-- `Post` forwards its options as they were passed. -/
def post (url : Url) (body : Body) (args : List Arg) (t : Transfer) (ts : ℕ → Transfer) : Call :=
  let (first, objects) := postIntern platform url body args t
  { first := first
    retries := match first.result with
      | .error _ => []
      | .ok res => (handlePostRetries platform narrow draw res url body objects ts).events
    objects := List.zipWith Arg.handedOver args objects }

end

def Call.RetriesAgree (call : Call) : Prop :=
  ∀ q, Event.request q ∈ call.retries → call.first.request = some q

def Event.isRetryOf (first : Option Request) : Event → Bool
  | .sleep _ => true
  | .request q => first = some q

instance (call : Call) : Decidable call.RetriesAgree :=
  decidable_of_iff (∀ e ∈ call.retries, e.isRetryOf call.first.request = true) (by
    constructor
    · intro h q hq
      exact of_decide_eq_true (h _ hq)
    · intro h e he
      cases e with
      | sleep timer => rfl
      | request q => exact decide_eq_true (h q he))

namespace Settings
variable {platform : Platform}

/-- The settings that the URL, the parameters and the body do not enter. -/
def bare (σ : Settings) : Settings := { σ with url := [], parameters := {}, body := none }

theorem bare_apply (σ : Settings) (o : OptionObject) :
    (σ.apply o).bare = (σ.bare.apply o).bare := by
  cases o <;> rfl

theorem bare_apply_remaining (σ : Settings) (arg : Arg) :
    (σ.apply arg.remaining).bare = (σ.apply arg.object).bare := by
  rcases arg.remaining_cases with h | ⟨p, hobject, hremaining⟩
  · rw [h]
  · rw [hobject, hremaining]
    rfl

theorem bare_applyAll_remaining {σ σ' : Settings} (h : σ.bare = σ'.bare) (args : List Arg) :
    (σ.applyAll (args.map Arg.object)).bare = (σ'.applyAll (args.map Arg.remaining)).bare := by
  induction args generalizing σ σ' with
  | nil => exact h
  | cons arg args ih =>
    have hstep : (σ.apply arg.object).bare = (σ'.apply arg.remaining).bare := by
      rw [bare_apply_remaining, bare_apply σ, bare_apply σ', h]
    exact ih hstep

theorem request_eq_bare (σ : Settings) (method : Bytes) :
    σ.request platform method =
      { σ.bare.settled platform with
        url := some (cstr (Session.requestUrl σ.url σ.parameters.content))
        postFieldSize := σ.body.map List.length
        postFields := σ.body
        noBody := some 0
        customRequest := some method } := rfl

/-- Settings that agree apart from the URL, the parameters and the body ask for the same
request exactly if the URL texts and the bodies are the same. -/
theorem request_eq_iff {σ σ' : Settings} (h : σ.bare = σ'.bare) (method : Bytes) :
    σ.request platform method = σ'.request platform method ↔
      cstr (Session.requestUrl σ.url σ.parameters.content) =
        cstr (Session.requestUrl σ'.url σ'.parameters.content) ∧ σ.body = σ'.body := by
  constructor
  · intro hq
    exact ⟨Option.some.inj (congrArg Request.url hq), congrArg Request.postFields hq⟩
  · rintro ⟨hurl, hbody⟩
    rw [request_eq_bare, request_eq_bare, h, hurl, hbody]

end Settings

def firstSettings (url : Url) (objects : List OptionObject) : Settings :=
  let σ := Settings.applyAll {} objects
  if url ≠ [] then { σ with url := url } else σ

def lastUrl (args : List Arg) : Option Url := lastSome OptionObject.url? (args.map Arg.object)

def lastBody (args : List Arg) : Option Body := lastSome OptionObject.body? (args.map Arg.object)

/-- The query text of the last `Parameters`, and what the first request leaves of it. -/
def lastQuery (args : List Arg) : Bytes :=
  ((lastSome OptionObject.parameters? (args.map Arg.object)).getD {}).content

def keptQuery (args : List Arg) : Bytes :=
  ((lastSome OptionObject.parameters? (args.map Arg.remaining)).getD {}).content

/-- No `Url` option replaces a different URL argument. -/
def UrlUnopposed (url : Url) (args : List Arg) : Prop := url = [] ∨ ∀ u ∈ lastUrl args, u = url

/-- The last `Parameters` is not consumed, or it is empty. -/
def ParametersKept (args : List Arg) : Prop :=
  ∀ arg ∈ lastWhere (fun arg => arg.object.kind = .parameters) args,
    arg.category = .rvalue → arg.object = .parameters {}

/-- The options give the same URL text to a retry: the base is the same and the query is
kept or hidden behind a NUL, or a `Url` option spells out what the first request had. -/
def UrlKept (url : Url) (args : List Arg) : Prop :=
  UrlUnopposed url args ∧ (ParametersKept args ∨ 0 ∈ (lastUrl args).getD url) ∨
    ¬ UrlUnopposed url args ∧
      cstr (Session.requestUrl url (lastQuery args)) =
        cstr (Session.requestUrl ((lastUrl args).getD url) (keptQuery args))

def BodyKept (body : Body) (args : List Arg) : Prop :=
  match lastBody args with
  | some b => b = body
  | none => body ≠ []

def RetryAllowed (args : List Arg) (a : Answer) : Prop :=
  0 < (retryPolicyOf (args.map Arg.object)).numRetries ∧
    Retryable (retryPolicyOf (args.map Arg.object)) a

theorem map_move_object (args : List Arg) : (args.map Arg.move).map Arg.object = args.map Arg.object :=
  List.map_map

theorem lastSome_remaining {β : Type*} {f : OptionObject → Option β}
    (hf : ∀ p, f (.parameters p) = none) (args : List Arg) :
    lastSome f (args.map Arg.remaining) = lastSome f (args.map Arg.object) := by
  rw [lastSome_map, lastSome_map]
  refine lastSome_congr (fun arg _ => ?_)
  rcases arg.remaining_cases with h | ⟨p, hobject, hremaining⟩
  · rw [h]
  · rw [hobject, hremaining, hf, hf]

theorem parametersKept_concat (args : List Arg) (arg : Arg) :
    ParametersKept (args ++ [arg]) ↔
      if arg.object.kind = .parameters then arg.category = .rvalue → arg.object = .parameters {}
      else ParametersKept args := by
  unfold ParametersKept
  rw [lastWhere_concat]
  by_cases h : arg.object.kind = .parameters
  · simp [h]
  · simp [h]

theorem keptQuery_cases (args : List Arg) :
    ParametersKept args ∧ keptQuery args = lastQuery args ∨
      ¬ ParametersKept args ∧ keptQuery args = [] ∧ lastQuery args ≠ [] := by
  unfold keptQuery lastQuery
  rw [lastSome_map, lastSome_map]
  induction args using List.reverseRecOn with
  | nil => exact .inl ⟨fun _ h => absurd h List.not_mem_nil, rfl⟩
  | append_singleton args arg ih =>
    obtain ⟨category, object⟩ := arg
    rw [lastSome_concat, lastSome_concat, parametersKept_concat]
    cases object with
    | parameters p =>
      simp only [OptionObject.kind, if_true, OptionObject.parameters.injEq]
      cases category with
      | rvalue =>
        obtain ⟨content⟩ := p
        by_cases hc : content = []
        · exact .inl ⟨fun _ => by rw [hc], by rw [hc]; rfl⟩
        · exact .inr ⟨fun h => hc (congrArg Parameters.content (h rfl)), rfl, hc⟩
      | _ => exact .inl ⟨fun h => absurd h (by decide), rfl⟩
    | _ => exact ih

theorem sameUrlText_iff (url : Url) (args : List Arg) :
    cstr (Session.requestUrl (if url ≠ [] then url else (lastUrl args).getD []) (lastQuery args)) =
        cstr (Session.requestUrl ((lastUrl args).getD url) (keptQuery args)) ↔
      UrlKept url args := by
  by_cases hunopposed : UrlUnopposed url args
  · have hbase : (if url ≠ [] then url else (lastUrl args).getD []) = (lastUrl args).getD url := by
      split
      · next hurl =>
        cases hlast : lastUrl args with
        | none => rfl
        | some u => exact ((hunopposed.resolve_left hurl) u hlast).symm
      · next hurl => rw [not_not.mp hurl]
    rw [hbase]
    simp only [UrlKept, hunopposed, true_and, not_true_eq_false, false_and, or_false]
    rcases keptQuery_cases args with ⟨hkept, hquery⟩ | ⟨hkept, hempty, hquery⟩
    · simp [hquery, hkept]
    · rw [hempty, Session.cstr_requestUrl_eq_iff]
      simp [hquery, hkept]
  · have hurl : url ≠ [] := fun h => hunopposed (.inl h)
    rw [if_pos hurl]
    simp [UrlKept, hunopposed]

section
variable {platform : Platform} {narrow : Int → Int} {draw : ℕ → Int}

theorem url_firstSettings (url : Url) (args : List Arg) :
    (firstSettings url (args.map Arg.object)).url =
      if url ≠ [] then url else (lastUrl args).getD [] := by
  unfold firstSettings
  split
  · rfl
  · exact Settings.applyAll_url {} _

theorem parameters_firstSettings (url : Url) (args : List Arg) :
    (firstSettings url (args.map Arg.object)).parameters.content = lastQuery args := by
  have h := congrArg Parameters.content (Settings.applyAll_parameters {} (args.map Arg.object))
  unfold firstSettings
  split <;> exact h

theorem body_firstSettings (url : Url) (args : List Arg) :
    (firstSettings url (args.map Arg.object)).body = lastBody args := by
  have h := Settings.applyAll_body {} (args.map Arg.object)
  rw [Option.or_none] at h
  unfold firstSettings
  split <;> exact h

theorem bare_firstSettings (url : Url) (body : Body) (args : List Arg) :
    (firstSettings url (args.map Arg.object)).bare =
      (retrySettings url body (args.map Arg.remaining)).bare := by
  have hinit : ({} : Settings).bare =
      ({ url := url, body := if body = [] then none else some body } : Settings).bare := rfl
  have h := Settings.bare_applyAll_remaining hinit args
  unfold firstSettings
  split <;> exact h

theorem url_retrySettings (url : Url) (body : Body) (args : List Arg) :
    (retrySettings url body (args.map Arg.remaining)).url = (lastUrl args).getD url := by
  rw [retrySettings, Settings.applyAll_url, lastSome_remaining (fun _ => rfl)]
  rfl

theorem parameters_retrySettings (url : Url) (body : Body) (args : List Arg) :
    (retrySettings url body (args.map Arg.remaining)).parameters.content = keptQuery args := by
  rw [retrySettings, Settings.applyAll_parameters]
  rfl

theorem body_retrySettings (url : Url) (body : Body) (args : List Arg) :
    (retrySettings url body (args.map Arg.remaining)).body =
      (lastBody args).or (if body = [] then none else some body) := by
  rw [retrySettings, Settings.applyAll_body, lastSome_remaining (fun _ => rfl)]
  rfl

theorem mem_events_iff (method : Bytes) (res : Response) (url : Url) (body : Body)
    (args : List Arg) (ts : ℕ → Transfer) (q : Request) :
    Event.request q ∈
        (handleRetries platform narrow draw method res url body (args.map Arg.remaining) ts).events ↔
      RetryAllowed args res.answer ∧
        q = (retrySettings url body (args.map Arg.remaining)).request platform method := by
  have hpolicy : retryPolicyOf (args.map Arg.remaining) = retryPolicyOf (args.map Arg.object) := by
    rw [retryPolicyOf, lastSome_remaining (fun _ => rfl)]
    rfl
  have hpos := firstStop_pos_iff (retryPolicyOf (args.map Arg.object)).numRetries.toNat
    (fun i => Retryable (retryPolicyOf (args.map Arg.object)) (answers res ts i))
  rw [decide_eq_true_iff] at hpos
  have hallowed : RetryAllowed args res.answer ↔ 0 < firstStop
      (retryPolicyOf (args.map Arg.object)).numRetries.toNat
      (fun i => Retryable (retryPolicyOf (args.map Arg.object)) (answers res ts i)) := by
    rw [hpos, Int.lt_toNat]
    rfl
  rw [hallowed, handleRetries_events, hpolicy, List.mem_flatMap]
  constructor
  · rintro ⟨i, hi, hq⟩
    refine ⟨lt_of_le_of_lt (Nat.zero_le i) (List.mem_range.mp hi), ?_⟩
    simpa using hq
  · rintro ⟨hk, rfl⟩
    exact ⟨0, List.mem_range.mpr hk, by simp⟩

theorem Session.Represents.answered {mem : Memory} {s : Session} {σ : Settings}
    (hr : Session.Represents platform mem s σ) (method : Bytes) (t : Transfer) :
    (s.perform method mem t).request = some (σ.request platform method) ∧
      ∃ r, (s.perform method mem t).result = .ok r ∧ r.answer = t.answer := by
  obtain ⟨h, hs, -⟩ := hr.handle
  obtain ⟨hrequest, ⟨r, hresult, hstatus, hcode⟩, -, -⟩ := Session.perform_spec hs method mem t
  refine ⟨hrequest.trans (hr.nextRequest method), r, hresult, ?_⟩
  rw [Response.answer, Transfer.answer, hstatus, hcode]

theorem represents_firstSession (url : Url) (body : Body) (args : List Arg) :
    Session.Represents platform (frameMemory body (args.map Arg.remaining))
      (if url ≠ [] then ((Session.new platform true).setArguments platform args).1.setUrl url
        else ((Session.new platform true).setArguments platform args).1)
      (firstSettings url (args.map Arg.object)) := by
  have hr : Session.Represents platform (frameMemory body (args.map Arg.remaining))
      ((Session.new platform true).setArguments platform args).1 _ :=
    Session.represents_new.setArguments
  unfold firstSettings
  split
  · exact hr.setUrl url
  · exact hr

theorem getIntern_spec (url : Url) (args : List Arg) (t : Transfer) :
    (getIntern platform url args t).1.request =
        some ((firstSettings url (args.map Arg.object)).request platform (str ['G', 'E', 'T'])) ∧
      (∃ r, (getIntern platform url args t).1.result = .ok r ∧ r.answer = t.answer) ∧
      (getIntern platform url args t).2 = args.map Arg.remaining := by
  have hobjects : ((Session.new platform true).setArguments platform args).2 =
      args.map Arg.remaining := Session.setArguments_snd _ args
  have hr := @represents_firstSession platform url [] args
  rw [← hobjects] at hr
  have h := hr.answered (str ['G', 'E', 'T']) t
  exact ⟨h.1, h.2, hobjects⟩

theorem postIntern_spec (url : Url) (body : Body) (args : List Arg) (t : Transfer) :
    (postIntern platform url body args t).1.request =
        some (({ firstSettings url (args.map Arg.object) with body := some body } : Settings).request
          platform (str ['P', 'O', 'S', 'T'])) ∧
      (∃ r, (postIntern platform url body args t).1.result = .ok r ∧ r.answer = t.answer) ∧
      (postIntern platform url body args t).2 = args.map Arg.remaining := by
  have hobjects : ((Session.new platform true).setArguments platform args).2 =
      args.map Arg.remaining := Session.setArguments_snd _ args
  have hr := @represents_firstSession platform url body args
  rw [← hobjects] at hr
  have hmem : frameMemory body ((Session.new platform true).setArguments platform args).2 0 = body :=
    rfl
  have h := (hr.setBody hmem).answered (str ['P', 'O', 'S', 'T']) t
  exact ⟨h.1, h.2, hobjects⟩

theorem retries_eq_iff (first : Request) (method : Bytes) (res : Response) (url : Url) (body : Body)
    (args : List Arg) (ts : ℕ → Transfer) :
    (∀ q, Event.request q ∈
        (handleRetries platform narrow draw method res url body (args.map Arg.remaining) ts).events →
          some first = some q) ↔
      ¬ RetryAllowed args res.answer ∨
        first = (retrySettings url body (args.map Arg.remaining)).request platform method := by
  simp only [mem_events_iff, and_imp, Option.some.injEq]
  constructor
  · intro h
    by_cases hallowed : RetryAllowed args res.answer
    · exact .inr (h _ hallowed rfl)
    · exact .inl hallowed
  · rintro h q hallowed rfl
    exact h.resolve_left (not_not.mpr hallowed)

theorem retryAllowed_move (args : List Arg) (a : Answer) :
    RetryAllowed (args.map Arg.move) a ↔ RetryAllowed args a := by
  rw [RetryAllowed, map_move_object]
  rfl

/-- The requests of the retry thread of `Get` are the first request exactly if no retry is
allowed or the options, once moved, keep the URL text. -/
theorem retriesAgree_get_iff (url : Url) (args : List Arg) (t : Transfer) (ts : ℕ → Transfer) :
    (get platform narrow draw url args t ts).RetriesAgree ↔
      ¬ RetryAllowed args t.answer ∨ UrlKept url (args.map Arg.move) := by
  obtain ⟨hrequest, ⟨r, hresult, hanswer⟩, hobjects⟩ :=
    @getIntern_spec platform url (args.map Arg.move) t
  simp only [Call.RetriesAgree, get, hrequest, hresult, hobjects, handleGetRetries]
  rw [retries_eq_iff, hanswer, retryAllowed_move,
    Settings.request_eq_iff (bare_firstSettings url [] _), url_firstSettings,
    parameters_firstSettings, body_firstSettings, url_retrySettings, parameters_retrySettings,
    body_retrySettings, if_pos rfl, Option.or_none, sameUrlText_iff]
  simp only [and_true]

/-- A named `Parameters` is consumed by the first request, and the retry goes out without a
query. -/
theorem not_retriesAgree_get : ¬ (get ⟨false, true, [], true⟩ id (fun _ => 0) (str ['h'])
    [⟨.lvalue, .parameters (Parameters.ofList [⟨str ['q'], str ['1']⟩])⟩,
      ⟨.lvalue, .retryPolicy { numRetries := 1 }⟩]
    { responseCode := 503 } (fun _ => {})).RetriesAgree := by
  decide

/-- The requests of the retry thread of `Post` are the first request exactly if no retry is
allowed or the options keep the URL text and the body. -/
theorem retriesAgree_post_iff (url : Url) (body : Body) (args : List Arg) (t : Transfer)
    (ts : ℕ → Transfer) :
    (post platform narrow draw url body args t ts).RetriesAgree ↔
      ¬ RetryAllowed args t.answer ∨ UrlKept url args ∧ BodyKept body args := by
  obtain ⟨hrequest, ⟨r, hresult, hanswer⟩, hobjects⟩ := @postIntern_spec platform url body args t
  simp only [Call.RetriesAgree, post, hrequest, hresult, hobjects, handlePostRetries]
  have hbare : ({ firstSettings url (args.map Arg.object) with body := some body } : Settings).bare =
      (retrySettings url body (args.map Arg.remaining)).bare := bare_firstSettings url body args
  have hbody : some body = (lastBody args).or (if body = [] then none else some body) ↔
      BodyKept body args := by
    unfold BodyKept
    cases lastBody args with
    | some b => simp only [Option.some_or, Option.some.injEq, eq_comm]
    | none => by_cases hb : body = [] <;> simp [hb]
  rw [retries_eq_iff, hanswer, Settings.request_eq_iff hbare, url_firstSettings,
    parameters_firstSettings, url_retrySettings, parameters_retrySettings, body_retrySettings, hbody,
    sameUrlText_iff]

/-- A `Body` option replaces the body argument, but only in the retries; and an empty body is
set for the first request alone. -/
theorem not_retriesAgree_post : ¬ (post ⟨false, true, [], true⟩ id (fun _ => 0) (str ['h'])
    (str ['a']) [⟨.lvalue, .body (str ['b'])⟩, ⟨.lvalue, .retryPolicy { numRetries := 1 }⟩]
    { responseCode := 503 } (fun _ => {})).RetriesAgree ∧
    ¬ (post ⟨false, true, [], true⟩ id (fun _ => 0) (str ['h']) []
      [⟨.lvalue, .retryPolicy { numRetries := 1 }⟩]
      { responseCode := 503 } (fun _ => {})).RetriesAgree := by
  decide

end

end Curlinho
