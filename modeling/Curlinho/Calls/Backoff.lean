import Curlinho.Calls.RetryLoop

/-! # Delays before retries

The delay doubles with every round and is narrowed to `int` before the cap applies.
Here the narrowing fails on a value that an `int` cannot hold, and the loops carry the
failure: every round that is entered computes its delay, used or not.
-/
namespace Curlinho
open Foundation

/-- The conversion of an exact product to a 32-bit `int`. -/
def narrowChecked (x : Int) : Option Int :=
  if -2147483648 ≤ x ∧ x ≤ 2147483647 then some x else none

def backoffChecked (policy : RetryPolicy) (retry : ℕ) (drawn : Int) : Option Int := do
  let timer ← narrowChecked (2 ^ retry * drawn)
  pure (if timer > policy.maxBackOff then policy.maxBackOff else timer)

/-- `retryLoop` with a delay that may fail to be computed. -/
def retryLoopChecked (policy : RetryPolicy) (timer : ℕ → Option Int) (method : Bytes)
    (mem : Memory) : ℕ → ℕ → Session → Response → (ℕ → Transfer) → Option Thread
  | 0, _, s, r, _ => some ⟨[], s, .ok r⟩
  | n + 1, retry, s, r, ts => do
    let t ← timer retry
    match verdict policy r with
    | .stop => some ⟨[], s, .ok r⟩
    | .idle => retryLoopChecked policy timer method mem n (retry + 1) s r ts
    | .again =>
      let outcome := s.perform method mem (ts 0)
      let sent := .sleep t :: outcome.request.toList.map Event.request
      match outcome.result with
      | .error fault => some ⟨sent, outcome.session, .error fault⟩
      | .ok r =>
        let thread ← retryLoopChecked policy timer method mem n (retry + 1) outcome.session r
          (fun i => ts (i + 1))
        some { thread with events := sent ++ thread.events }

section
variable (platform : Platform) (draw : ℕ → Int)

def handleRetriesChecked (method : Bytes) (res : Response) (url : Url) (body : Body)
    (options : List OptionObject) (ts : ℕ → Transfer) : Option Thread :=
  let s := Session.newWith platform true url 0 body
  let (s, options) := s.setArguments platform (options.map (Arg.mk .rvalue))
  let retries := s.getRetryPolicy
  retryLoopChecked retries (fun retry => backoffChecked retries retry (draw retry)) method
    (frameMemory body options) retries.numRetries.toNat 0 s res ts

def handlePostRetriesChecked (res : Response) (url : Url) (body : Body)
    (options : List OptionObject) (ts : ℕ → Transfer) : Option Thread :=
  handleRetriesChecked platform draw (str ['P', 'O', 'S', 'T']) res url body options ts

def handleGetRetriesChecked (res : Response) (url : Url) (options : List OptionObject)
    (ts : ℕ → Transfer) : Option Thread :=
  handleRetriesChecked platform draw (str ['G', 'E', 'T']) res url [] options ts

end

theorem narrowChecked_eq_some {x : Int} (h : -2147483648 ≤ x ∧ x ≤ 2147483647) :
    narrowChecked x = some x := if_pos h

theorem isSome_narrowChecked {x : Int} :
    (narrowChecked x).isSome = true ↔ -2147483648 ≤ x ∧ x ≤ 2147483647 := by
  unfold narrowChecked
  split <;> simp_all

theorem backoff_id (policy : RetryPolicy) (retry : ℕ) (drawn : Int) :
    backoff id policy retry drawn = min policy.maxBackOff (2 ^ retry * drawn) := by
  unfold backoff
  simp only [id_eq]
  split <;> omega

theorem isSome_backoffChecked {policy : RetryPolicy} {retry : ℕ} {drawn : Int} :
    (backoffChecked policy retry drawn).isSome = (narrowChecked (2 ^ retry * drawn)).isSome := by
  unfold backoffChecked
  cases narrowChecked (2 ^ retry * drawn) <;> rfl

theorem backoffChecked_eq_some {policy : RetryPolicy} {retry : ℕ} {drawn : Int}
    (h : (backoffChecked policy retry drawn).isSome = true) :
    backoffChecked policy retry drawn = some (backoff id policy retry drawn) := by
  rw [isSome_backoffChecked, isSome_narrowChecked] at h
  rw [backoffChecked, narrowChecked_eq_some h]
  rfl

variable {policy : RetryPolicy} {timer : ℕ → Option Int} {method : Bytes} {mem : Memory}

theorem retryLoopChecked_eq {delay : ℕ → Int} (n retry : ℕ)
    (htimer : ∀ i < n, timer (retry + i) = some (delay (retry + i))) (s : Session) (r : Response)
    (ts : ℕ → Transfer) :
    retryLoopChecked policy timer method mem n retry s r ts =
      some (retryLoop policy delay method mem n retry s r ts) := by
  induction n generalizing retry s r ts with
  | zero => rfl
  | succ n ih =>
    have hfirst : timer retry = some (delay retry) := htimer 0 (Nat.succ_pos n)
    have hrest : ∀ i < n, timer (retry + 1 + i) = some (delay (retry + 1 + i)) := by
      intro i hi
      have hnext := htimer (i + 1) (Nat.succ_lt_succ hi)
      rwa [Nat.add_comm i 1, ← Nat.add_assoc] at hnext
    simp only [retryLoopChecked, retryLoop, hfirst, Option.bind_eq_bind, Option.bind_some]
    cases verdict policy r with
    | stop => rfl
    | idle => exact ih (retry + 1) hrest s r ts
    | again =>
      cases hresult : (s.perform method mem (ts 0)).result with
      | error fault => rfl
      | ok r' =>
        simp only [ih (retry + 1) hrest, Option.bind_some]

theorem isSome_timer {s : Session} {h : Handle} (hs : s.curl_.handle = some h) (n retry : ℕ)
    {r : Response} {ts : ℕ → Transfer} (hall : ∀ i < n, Retryable policy (answers r ts i))
    (hloop : (retryLoopChecked policy timer method mem n retry s r ts).isSome = true) :
    ∀ i < n, (timer (retry + i)).isSome = true := by
  induction n generalizing retry s h r ts with
  | zero => exact fun i hi => absurd hi (Nat.not_lt_zero i)
  | succ n ih =>
    have hv : verdict policy r = .again :=
      (verdict_eq_again_iff r).mpr (hall 0 (Nat.succ_pos n))
    obtain ⟨-, ⟨r', hr', hstatus, hcode⟩, -, hh⟩ := Session.perform_spec hs method mem (ts 0)
    have hanswers := answers_shift (r := r) hstatus hcode
    simp only [retryLoopChecked, hv, hr', Option.bind_eq_bind] at hloop
    cases htimer : timer retry with
    | none => simp [htimer] at hloop
    | some t =>
      have hrest : (retryLoopChecked policy timer method mem n (retry + 1)
          (s.perform method mem (ts 0)).session r' (fun i => ts (i + 1))).isSome = true := by
        cases hrec : retryLoopChecked policy timer method mem n (retry + 1)
            (s.perform method mem (ts 0)).session r' (fun i => ts (i + 1)) with
        | none => simp [htimer, hrec] at hloop
        | some thread => rfl
      have hnext := ih hh (retry + 1)
        (fun i hi => (hanswers i).symm ▸ hall (i + 1) (Nat.succ_lt_succ hi)) hrest
      intro i hi
      cases i with
      | zero => simp [htimer]
      | succ i =>
        have hi' := hnext i (Nat.lt_of_succ_lt_succ hi)
        rwa [Nat.add_assoc, Nat.add_comm 1 i] at hi'

def Event.delay? : Event → Option Int
  | sleep timer => some timer
  | request _ => none

def Thread.delays (thread : Thread) : List Int := thread.events.filterMap Event.delay?

section
variable {platform : Platform} {draw : ℕ → Int}

theorem getRetryPolicy_setArguments (url : Url) (body : Body) (options : List OptionObject) :
    ((Session.newWith platform true url 0 body).setArguments platform
      (options.map (Arg.mk .rvalue))).1.getRetryPolicy = retryPolicyOf options :=
  (@represents_retrySession platform url body options).retryPolicy.trans
    (Settings.applyAll_retryPolicy _ options)

theorem handleRetriesChecked_eq {method : Bytes} {res : Response} {url : Url} {body : Body}
    {options : List OptionObject} {ts : ℕ → Transfer}
    (h : ∀ i < (retryPolicyOf options).numRetries.toNat,
      (backoffChecked (retryPolicyOf options) i (draw i)).isSome = true) :
    handleRetriesChecked platform draw method res url body options ts =
      some (handleRetries platform id draw method res url body options ts) := by
  have hpolicy := @getRetryPolicy_setArguments platform url body options
  simp only [handleRetriesChecked, handleRetries, hpolicy]
  apply retryLoopChecked_eq
  intro i hi
  rw [Nat.zero_add]
  exact backoffChecked_eq_some (h i hi)

theorem isSome_backoffChecked_of_handleRetriesChecked {method : Bytes} {res : Response}
    {url : Url} {body : Body} {options : List OptionObject} {ts : ℕ → Transfer}
    (hall : ∀ i < (retryPolicyOf options).numRetries.toNat,
      Retryable (retryPolicyOf options) (answers res ts i))
    (h : (handleRetriesChecked platform draw method res url body options ts).isSome = true) :
    ∀ i < (retryPolicyOf options).numRetries.toNat,
      (backoffChecked (retryPolicyOf options) i (draw i)).isSome = true := by
  obtain ⟨handle, hs, -⟩ := (@represents_retrySession platform url body options).handle
  have hpolicy := @getRetryPolicy_setArguments platform url body options
  simp only [handleRetriesChecked, hpolicy] at h
  have htimer := isSome_timer hs _ 0 hall h
  simpa only [Nat.zero_add] using htimer

theorem filterMap_delay? (delay : ℕ → Int) (q : Request) (l : List ℕ) :
    (l.flatMap (fun i => [Event.sleep (delay i), Event.request q])).filterMap Event.delay? =
      l.map delay := by
  induction l with
  | nil => rfl
  | cons i l ih =>
    rw [List.flatMap_cons, List.filterMap_append, ih]
    rfl

theorem delays_handleRetries (method : Bytes) (res : Response) (url : Url) (body : Body)
    (options : List OptionObject) (ts : ℕ → Transfer) :
    ∃ k ≤ (retryPolicyOf options).numRetries.toNat,
      (handleRetries platform id draw method res url body options ts).delays =
        (List.range k).map (fun i => min (retryPolicyOf options).maxBackOff (2 ^ i * draw i)) := by
  refine ⟨firstStop (retryPolicyOf options).numRetries.toNat
    (fun i => Retryable (retryPolicyOf options) (answers res ts i)), firstStop_le _ _, ?_⟩
  rw [Thread.delays, handleRetries_events, filterMap_delay?]
  simp only [backoff_id]

end

def Drawable (policy : RetryPolicy) (d : Int) : Prop := policy.minDelay ≤ d ∧ d ≤ policy.maxDelay

/-- Every delay can be computed, is the capped product and lies within the cap. -/
def DelaysExact (policy : RetryPolicy) : Prop :=
  ∀ retry : ℕ, (retry : Int) < policy.numRetries → ∀ d, Drawable policy d →
    ∃ t, backoffChecked policy retry d = some t ∧ t = min policy.maxBackOff (2 ^ retry * d) ∧
      0 ≤ t ∧ t ≤ policy.maxBackOff

def CappedDelays (policy : RetryPolicy) (draw : ℕ → Int) (delays : List Int) : Prop :=
  (∃ k ≤ policy.numRetries.toNat,
    delays = (List.range k).map (fun i => min policy.maxBackOff (2 ^ i * draw i))) ∧
  ∀ t ∈ delays, 0 ≤ t ∧ t ≤ policy.maxBackOff

/-- Both threads complete all their conversions, whatever the answers, and sleep for
the capped products only. -/
def LoopsExact (policy : RetryPolicy) : Prop :=
  ∀ (platform : Platform) (draw : ℕ → Int) (res : Response) (url : Url) (body : Body)
    (options : List OptionObject) (ts : ℕ → Transfer), retryPolicyOf options = policy →
    (∀ i, Drawable policy (draw i)) →
    (∃ thread, handlePostRetriesChecked platform draw res url body options ts = some thread ∧
      CappedDelays policy draw thread.delays) ∧
    ∃ thread, handleGetRetriesChecked platform draw res url options ts = some thread ∧
      CappedDelays policy draw thread.delays

/-- The largest product of all, drawn in the last round, is an `int`. -/
def LargestFits (policy : RetryPolicy) : Prop :=
  policy.numRetries ≤ 0 ∨ 2 ^ (policy.numRetries.toNat - 1) * policy.maxDelay ≤ 2147483647

variable {policy : RetryPolicy} {draw : ℕ → Int}

theorem product_bounds (hmin : 0 ≤ policy.minDelay) {i j : ℕ} (hij : i ≤ j) {d : Int}
    (hd : Drawable policy d) :
    0 ≤ (2 : Int) ^ i * d ∧ (2 : Int) ^ i * d ≤ 2 ^ j * policy.maxDelay := by
  have hd0 : 0 ≤ d := hmin.trans hd.1
  have hpow : (2 : Int) ^ i ≤ 2 ^ j := pow_le_pow_right₀ (by decide) hij
  have hi : (0 : Int) ≤ 2 ^ i := pow_nonneg (by decide) i
  have hj : (0 : Int) ≤ 2 ^ j := pow_nonneg (by decide) j
  exact ⟨mul_nonneg hi hd0, mul_le_mul hpow hd.2 hd0 hj⟩

theorem LargestFits.isSome (hfits : LargestFits policy) (hmin : 0 ≤ policy.minDelay) {i : ℕ}
    (hi : i < policy.numRetries.toNat) {d : Int} (hd : Drawable policy d) :
    (backoffChecked policy i d).isSome = true := by
  rw [isSome_backoffChecked, isSome_narrowChecked]
  rcases hfits with hnone | hfits
  · omega
  · obtain ⟨hlow, hhigh⟩ := product_bounds hmin (Nat.le_sub_one_of_lt hi) hd
    omega

theorem largestFits_of_isSome (h : ∀ i < policy.numRetries.toNat,
    (backoffChecked policy i policy.maxDelay).isSome = true) : LargestFits policy := by
  by_cases hpos : policy.numRetries ≤ 0
  · exact Or.inl hpos
  · have hlast := h (policy.numRetries.toNat - 1) (by omega)
    rw [isSome_backoffChecked, isSome_narrowChecked] at hlast
    exact Or.inr hlast.2

theorem cap_bounds (hmin : 0 ≤ policy.minDelay) (hback : 0 ≤ policy.maxBackOff) (i : ℕ) {d : Int}
    (hd : Drawable policy d) :
    0 ≤ min policy.maxBackOff (2 ^ i * d) ∧ min policy.maxBackOff (2 ^ i * d) ≤ policy.maxBackOff :=
  ⟨le_min hback (product_bounds hmin le_rfl hd).1, min_le_left _ _⟩

theorem delaysExact_iff (hmin : 0 ≤ policy.minDelay) (hmax : policy.minDelay ≤ policy.maxDelay)
    (hback : 0 ≤ policy.maxBackOff) : DelaysExact policy ↔ LargestFits policy := by
  constructor
  · intro h
    apply largestFits_of_isSome
    intro i hi
    obtain ⟨t, ht, -⟩ := h i (by omega) policy.maxDelay ⟨hmax, le_rfl⟩
    simp only [ht, Option.isSome_some]
  · intro hfits retry hretry d hd
    have hsome := hfits.isSome hmin (by omega : retry < policy.numRetries.toNat) hd
    exact ⟨_, backoffChecked_eq_some hsome, backoff_id policy retry d,
      (backoff_id policy retry d).symm ▸ cap_bounds hmin hback retry hd⟩

theorem loopsExact_iff (hmin : 0 ≤ policy.minDelay) (hmax : policy.minDelay ≤ policy.maxDelay)
    (hback : 0 ≤ policy.maxBackOff) : LoopsExact policy ↔ LargestFits policy := by
  constructor
  · intro h
    -- the worst run: the largest delay is drawn every time, and every answer is a timeout
    let timedOut : Transfer := { code := CURLE_OPERATION_TIMEDOUT }
    let res : Response := ⟨0, [], OrderedMap.empty, [], 0, ⟨CURLE_OPERATION_TIMEDOUT, []⟩⟩
    obtain ⟨⟨thread, hthread, -⟩, -⟩ := h .linux (fun _ => policy.maxDelay) res [] []
      [.retryPolicy policy] (fun _ => timedOut) rfl (fun _ => ⟨hmax, le_rfl⟩)
    have hall : ∀ i < (retryPolicyOf [.retryPolicy policy]).numRetries.toNat,
        Retryable (retryPolicyOf [.retryPolicy policy]) (answers res (fun _ => timedOut) i) := by
      have hcode : CURLE_OPERATION_TIMEDOUT ≠ CURLE_OK := by decide
      intro i _
      cases i <;> exact ⟨Or.inr hcode, Or.inl rfl⟩
    apply largestFits_of_isSome
    apply isSome_backoffChecked_of_handleRetriesChecked hall
    rw [← handlePostRetriesChecked, hthread]
    rfl
  · rintro hfits platform draw res url body options ts rfl hdraw
    have hsome : ∀ i < (retryPolicyOf options).numRetries.toNat,
        (backoffChecked (retryPolicyOf options) i (draw i)).isSome = true :=
      fun i hi => hfits.isSome hmin hi (hdraw i)
    have hthread : ∀ method body, ∃ thread,
        handleRetriesChecked platform draw method res url body options ts = some thread ∧
          CappedDelays (retryPolicyOf options) draw thread.delays := by
      intro method body
      obtain ⟨k, hk, hdelays⟩ :=
        @delays_handleRetries platform draw method res url body options ts
      refine ⟨_, handleRetriesChecked_eq hsome, ⟨k, hk, hdelays⟩, ?_⟩
      rw [hdelays]
      intro t ht
      obtain ⟨i, -, rfl⟩ := List.mem_map.mp ht
      exact cap_bounds hmin hback i (hdraw i)
    exact ⟨hthread _ body, hthread _ []⟩

/-- Under a sensible policy, every delay of the two retry loops is the capped product,
and every run of them completes its conversions, exactly if the largest product fits. -/
theorem delays_exact_iff (policy : RetryPolicy) (hmin : 0 ≤ policy.minDelay)
    (hmax : policy.minDelay ≤ policy.maxDelay) (hback : 0 ≤ policy.maxBackOff) :
    (DelaysExact policy ↔ policy.numRetries ≤ 0 ∨
      2 ^ (policy.numRetries.toNat - 1) * policy.maxDelay ≤ 2147483647) ∧
    (LoopsExact policy ↔ policy.numRetries ≤ 0 ∨
      2 ^ (policy.numRetries.toNat - 1) * policy.maxDelay ≤ 2147483647) :=
  ⟨delaysExact_iff hmin hmax hback, loopsExact_iff hmin hmax hback⟩

theorem delays_exact_iff_four :
    (DelaysExact ⟨4, 1, 2, 60, [503]⟩ ↔ (4 : Int) ≤ 0 ∨
      (2 : Int) ^ ((4 : Int).toNat - 1) * 2 ≤ 2147483647) ∧
    (LoopsExact ⟨4, 1, 2, 60, [503]⟩ ↔ (4 : Int) ≤ 0 ∨
      (2 : Int) ^ ((4 : Int).toNat - 1) * 2 ≤ 2147483647) :=
  delays_exact_iff ⟨4, 1, 2, 60, [503]⟩ (by decide) (by decide) (by decide)

/-- With a delay of one second the thirty-second retry has no delay, although the cap
is a minute. -/
theorem not_delaysExact_thirtyTwo : ¬ DelaysExact ⟨32, 1, 1, 60, [503]⟩ := by
  intro h
  obtain ⟨t, ht, -⟩ := h 31 (by decide) 1 ⟨le_rfl, le_rfl⟩
  have hnone : backoffChecked ⟨32, 1, 1, 60, [503]⟩ 31 1 = none := by decide
  rw [hnone] at ht
  cases ht

end Curlinho
