import Curlinho.Session.ListOwnership

/-! # Resource balance

Over the life of a session every resource but those of failed handshakes is released
exactly once: the early returns of `ctxFunction` keep what it has acquired.
-/
namespace Curlinho
open Foundation

theorem leaks_concat (handshakes : List Handshake) (h : Handshake) :
    leaks (handshakes ++ [h]) = leaks handshakes ++ leak handshakes.length h := by
  simp [leaks, List.zipIdx_append]

theorem leak_eq_nil_iff (n : ℕ) (h : Handshake) :
    leak n h = [] ↔ h.reads = true ∧ h.added = true := by
  unfold leak
  cases h.reads <;> cases h.added <;> simp

theorem leaks_eq_nil_iff (handshakes : List Handshake) :
    leaks handshakes = [] ↔ ∀ h ∈ handshakes, h.reads = true ∧ h.added = true := by
  induction handshakes using List.reverseRecOn with
  | nil => simp [leaks]
  | append_singleton handshakes h ih =>
    rw [leaks_concat, List.append_eq_nil_iff, ih, leak_eq_nil_iff]
    simp only [List.mem_append, List.mem_singleton]
    constructor
    · rintro ⟨hall, hlast⟩ g (hg | rfl)
      · exact hall g hg
      · exact hlast
    · intro hall
      exact ⟨fun g hg => hall g (Or.inl hg), hall h (Or.inr rfl)⟩

theorem ctxFunction_acquired (l : Ledger Resource) (n : ℕ) (h : Handshake) :
    (ctxFunction l n h).1.acquired =
      l.acquired ++ .bio n :: (if h.reads then [.x509 n] else []) := by
  obtain ⟨reads, added⟩ := h
  cases reads <;> cases added <;> simp [ctxFunction, Ledger.acquire, Ledger.release]

/-- A handshake leaves the session with what the early returns leak, and no more. -/
theorem owns_ctxFunction {l : Ledger Resource} {owned : List Resource} (hl : l.Owns owned) {n : ℕ}
    (hbio : .bio n ∉ l.acquired) (hx509 : .x509 n ∉ l.acquired) (h : Handshake) :
    (ctxFunction l n h).1.Owns (owned ++ leak n h) := by
  have h₁ := hl.acquire hbio
  have hfresh : .x509 n ∉ (l.acquire (.bio n)).acquired := by
    simpa [Ledger.acquire] using hx509
  have h₂ := h₁.acquire hfresh
  obtain ⟨reads, added⟩ := h
  cases reads with
  | false => exact h₁
  | true =>
    cases added with
    | false =>
      rw [List.append_assoc] at h₂
      exact h₂
    | true =>
      have h₃ := h₂.release.release
      rw [← List.append_nil owned] at h₃
      exact h₃

namespace Life

def handleOwned (handle : Option Handle) : List Resource := if handle.isSome then [.handle] else []

/-- The ledger owns the handle and what the handshakes so far leaked; the resources of
later handshakes are not in it yet. -/
structure Accounted (life : Life) : Prop where
  owns : life.ledger.Owns (handleOwned life.session.curl_.handle ++ leaks life.handshakes)
  fresh : ∀ n, life.handshakes.length ≤ n →
    .bio n ∉ life.ledger.acquired ∧ .x509 n ∉ life.ledger.acquired
  noList : ∀ p, .slist p ∉ life.ledger.acquired

structure Sound (life : Life) : Prop where
  accounted : life.Accounted
  kept : life.session.headerState.Kept
  visited : ∀ s ∈ life.visited, ¬ s.NamesReleased

theorem Accounted.handshake {life : Life} (hl : life.Accounted) (h : Handshake) :
    (life.handshake h).Accounted := by
  obtain ⟨hbio, hx509⟩ := hl.fresh life.handshakes.length le_rfl
  constructor
  · have howns := owns_ctxFunction hl.owns hbio hx509 h
    rw [List.append_assoc, ← leaks_concat] at howns
    exact howns
  · intro n hn
    have hlt : life.handshakes.length < n := by
      simpa [Life.handshake, Nat.succ_le_iff] using hn
    obtain ⟨hb, hx⟩ := hl.fresh n hlt.le
    simp only [Life.handshake, ctxFunction_acquired]
    cases h.reads <;> simp [hb, hx, hlt.ne']
  · intro p
    have hp := hl.noList p
    simp only [Life.handshake, ctxFunction_acquired]
    cases h.reads <;> simp [hp]

theorem handshakes_frame (handshakes : List Handshake) (life : Life) :
    (handshakes.foldl handshake life).session = life.session ∧
      (handshakes.foldl handshake life).visited = life.visited ∧
      (handshakes.foldl handshake life).handshakes = life.handshakes ++ handshakes := by
  induction handshakes generalizing life with
  | nil => exact ⟨rfl, rfl, (List.append_nil _).symm⟩
  | cons h handshakes ih =>
    obtain ⟨hsession, hvisited, hlist⟩ := ih (life.handshake h)
    refine ⟨hsession, hvisited, ?_⟩
    rw [List.foldl_cons, hlist, Life.handshake, List.append_assoc, List.singleton_append]

theorem Accounted.handshakes {life : Life} (hl : life.Accounted) (handshakes : List Handshake) :
    (handshakes.foldl Life.handshake life).Accounted := by
  induction handshakes generalizing life with
  | nil => exact hl
  | cons h handshakes ih => exact ih (hl.handshake h)

variable (platform : Platform)

theorem Sound.call {life : Life} (hl : life.Sound) (c : LifeCall) : (life.call platform c).Sound := by
  obtain ⟨hkept, hstates⟩ := hl.kept.applyCall platform c.call
  have hafter : ∀ life' : Life, life'.Accounted → life'.session = life.session →
      life'.visited = life.visited →
      Sound { life' with
        session := life'.session.applyCall platform c.call
        visited := life'.visited ++ life'.session.callStates platform c.call } := by
    intro life' hacc hsession hvisited
    refine ⟨⟨?_, hacc.fresh, hacc.noList⟩, ?_, ?_⟩
    · have howns := hacc.owns
      simp only [handleOwned, hsession, Session.isSome_applyCall] at howns ⊢
      exact howns
    · rw [hsession]
      exact hkept
    · rw [hsession, hvisited]
      intro s hs
      rcases List.mem_append.mp hs with hs | hs
      · exact hl.visited s hs
      · exact hstates s hs
  unfold Life.call
  split
  · obtain ⟨hsession, hvisited, -⟩ := handshakes_frame c.handshakes life
    exact hafter _ (hl.accounted.handshakes c.handshakes) hsession hvisited
  · exact hafter life hl.accounted rfl rfl

theorem sound_start (init : Bool) (url : Url) (addr : Addr) (body : Body) :
    (start platform init url addr body).Sound := by
  have hkept := Session.kept_newWith platform init url addr body
  have hsome : (Session.newWith platform init url addr body).curl_.handle.isSome = init := by
    rw [Session.isSome_handle_eq, Session.headerState_newWith]
    cases init <;> rfl
  refine ⟨⟨?_, ?_, ?_⟩, hkept, ?_⟩
  · simp only [start, handleOwned, hsome, leaks, List.zipIdx_nil, List.flatMap_nil, List.append_nil]
    cases init with
    | false => exact Ledger.Owns.empty
    | true => exact Ledger.Owns.empty.acquire List.not_mem_nil
  · intro n _
    cases init <;> simp [start, Ledger.acquire]
  · intro p
    cases init <;> simp [start, Ledger.acquire]
  · intro s hs
    rw [List.mem_singleton.mp hs]
    exact hkept.not_namesReleased

theorem Sound.calls {life : Life} (hl : life.Sound) (calls : List LifeCall) :
    (calls.foldl (Life.call platform) life).Sound := by
  induction calls generalizing life with
  | nil => exact hl
  | cons c calls ih => exact ih (hl.call platform c)

theorem component_sslCtxFunction : Session.Component platform Handle.sslCtxFunction
    (fun call => if call.setsCertificate then some true else none) where
  setter := by
    intro ok addr arg chunk h
    obtain ⟨category, object⟩ := arg
    cases object with
    | protocolVersion v => cases v <;> rfl
    | sslCert c =>
      simp only [Session.handleUpdate, SessionCall.setsCertificate, decide_eq_true_eq]
      split <;> rfl
    | _ => rfl
  request := fun _ _ _ => rfl
  silent := by
    intro call hcall
    cases call with
    | setOption ok addr arg => exact absurd rfl hcall
    | get mem t => rfl
    | post mem t => rfl

theorem call_frame (life : Life) (c : LifeCall) :
    (life.call platform c).session = life.session.applyCall platform c.call ∧
      (life.call platform c).handshakes = life.handshakes ++
        if c.call.transfer?.isSome && life.session.curl_.handle.any Handle.sslCtxFunction then
          c.handshakes
        else [] := by
  obtain ⟨hsession, -, hlist⟩ := handshakes_frame c.handshakes life
  unfold call
  split
  · exact ⟨congrArg (fun s => Session.applyCall platform s c.call) hsession, hlist⟩
  · exact ⟨rfl, (List.append_nil _).symm⟩

theorem session_calls (life : Life) (calls : List LifeCall) :
    (calls.foldl (call platform) life).session =
      life.session.applyCalls platform (calls.map LifeCall.call) := by
  induction calls generalizing life with
  | nil => rfl
  | cons c calls ih =>
    rw [List.foldl_cons, ih, (call_frame platform life c).1]
    rfl

section
variable (init : Bool) (url : Url) (addr : Addr) (body : Body)

/-- The handle has the callback exactly if it is valid and a certificate was set. -/
theorem sslCtxFunction_calls (calls : List LifeCall) :
    (calls.foldl (call platform)
      (start platform init url addr body)).session.curl_.handle.any Handle.sslCtxFunction = true ↔
        init = true ∧ ∃ d ∈ calls, d.call.setsCertificate = true := by
  have hnew : (Session.newWith platform init url addr body).curl_.handle.map
      Handle.sslCtxFunction = if init then some false else none := by
    unfold Session.newWith
    split <;> split <;> cases init <;> rfl
  have hrun := (component_sslCtxFunction platform).applyCalls
    (Session.newWith platform init url addr body) (calls.map LifeCall.call)
  have hany : ∀ o : Option Handle, o.any Handle.sslCtxFunction =
      (o.map Handle.sslCtxFunction).getD false := by
    intro o
    cases o <;> rfl
  rw [session_calls, hany, start, hrun, hnew]
  cases init with
  | false => simp
  | true =>
    rw [if_pos rfl, Option.map_some, Option.getD_some, lastSome_flag, List.any_map]
    simp

theorem mem_handshakes_calls (calls : List LifeCall) (h : Handshake) :
    h ∈ (calls.foldl (call platform) (start platform init url addr body)).handshakes ↔
      ∃ before c, before ++ [c] <+: calls ∧ CallsBack init before c ∧ h ∈ c.handshakes := by
  induction calls using List.reverseRecOn with
  | nil =>
    constructor
    · intro hmem
      cases hmem
    · rintro ⟨before, c, hpre, -⟩
      exact absurd (List.prefix_nil.mp hpre) (by simp)
  | append_singleton calls c ih =>
    have hcalls := sslCtxFunction_calls platform init url addr body calls
    rw [List.foldl_append, List.foldl_cons, List.foldl_nil, (call_frame platform _ c).2,
      List.mem_append, ih]
    constructor
    · rintro (⟨before, d, hpre, hback, hmem⟩ | hmem)
      · exact ⟨before, d, hpre.trans (List.prefix_append _ _), hback, hmem⟩
      · split at hmem
        · next hback =>
          rw [Bool.and_eq_true, hcalls] at hback
          obtain ⟨hrequest, hinit, hset⟩ := hback
          exact ⟨calls, c, List.prefix_rfl, ⟨hinit, hrequest, hset⟩, hmem⟩
        · cases hmem
    · rintro ⟨before, d, hpre, hback, hmem⟩
      rcases List.prefix_concat_iff.mp hpre with heq | hpre
      · obtain ⟨rfl, hlast⟩ := List.append_inj' heq rfl
        obtain rfl := List.singleton_inj.mp hlast
        obtain ⟨hinit, hrequest, hset⟩ := hback
        right
        rw [if_pos (by rw [Bool.and_eq_true]; exact ⟨hrequest, hcalls.mpr ⟨hinit, hset⟩⟩)]
        exact hmem
      · exact Or.inl ⟨before, d, hpre, hback, hmem⟩

end

theorem not_namesReleased_freeHolderStates (s : Session) :
    ∀ v ∈ s.freeHolderStates, ¬ v.NamesReleased := by
  intro v hv
  rintro ⟨h, p, hh, -⟩
  simp only [Session.freeHolderStates, List.mem_cons, List.not_mem_nil, or_false] at hv
  rcases hv with rfl | rfl <;> cases hh

theorem Sound.destroy {life : Life} (hl : life.Sound) :
    life.destroy.total.Owns (leaks life.handshakes) := by
  have hledger : life.destroy.ledger.Owns (leaks life.handshakes) := by
    have howns := hl.accounted.owns
    simp only [Life.destroy, handleOwned] at howns ⊢
    split at howns
    · next hs =>
      rw [if_pos hs]
      exact (howns.congr List.perm_append_comm).release
    · next hs =>
      rw [if_neg hs]
      exact howns
  have hacquired : life.destroy.ledger.acquired = life.ledger.acquired := by
    simp only [Life.destroy]
    split <;> rfl
  have hinj : Function.Injective Resource.slist := fun _ _ h => Resource.slist.inj h
  have hlists : Session.ListsOwned life.session.slists life.session.curl_.chunk := hl.kept.owned
  have howns := hledger.join (Ledger.Owns.map hinj hlists.freeAll) (by
    intro r hr hmem
    obtain ⟨p, -, rfl⟩ := List.mem_map.mp hmem
    rw [hacquired] at hr
    exact hl.accounted.noList p hr)
  simp only [Option.toList_none, List.map_nil, List.append_nil] at howns
  exact howns

/-- Over a whole life the handle never names a released list, and the ledger balances
exactly if every handshake that calls the callback reads its certificate and adds it. -/
theorem whole_balanced_iff (init : Bool) (url : Url) (addr : Addr) (body : Body)
    (calls : List LifeCall) :
    ((∀ s ∈ (whole platform init url addr body calls).visited, ¬ s.NamesReleased) ∧
        (whole platform init url addr body calls).total.Balanced) ↔
      ∀ before c, before ++ [c] <+: calls → CallsBack init before c →
        ∀ h ∈ c.handshakes, h.reads = true ∧ h.added = true := by
  have hsound := (sound_start platform init url addr body).calls platform calls
  have howns : (whole platform init url addr body calls).total.Owns
      (leaks (calls.foldl (call platform) (start platform init url addr body)).handshakes) :=
    hsound.destroy
  have hvisited : ∀ s ∈ (whole platform init url addr body calls).visited,
      ¬ s.NamesReleased := by
    intro s hs
    rcases List.mem_append.mp hs with hs | hs
    · exact hsound.visited s hs
    · exact not_namesReleased_freeHolderStates _ s hs
  rw [howns.balanced_iff, leaks_eq_nil_iff, and_iff_right hvisited]
  constructor
  · intro hall before c hpre hback h hmem
    exact hall h ((mem_handshakes_calls platform init url addr body calls h).mpr
      ⟨before, c, hpre, hback, hmem⟩)
  · intro hall h hmem
    obtain ⟨before, c, hpre, hback, hmem⟩ :=
      (mem_handshakes_calls platform init url addr body calls h).mp hmem
    exact hall before c hpre hback h hmem

/-- A handshake with a text that holds no certificate leaks the buffer object. -/
theorem not_balanced_unreadable :
    ¬ (whole .linux true [] 0 []
      [⟨.setOption allAppended 1 ⟨.lvalue, .sslCert ⟨[120], []⟩⟩, []⟩,
        ⟨.get (fun _ => [120]) {}, [⟨false, false⟩]⟩]).total.Balanced := by
  intro h
  have hcount := (h (.bio 0)).2
  revert hcount
  decide

end Life
end Curlinho
