import Curlinho.Session.Life

/-! # Ownership of header lists

At any moment the lists that were allocated are those already released and the one
that the session holds, whatever the outcomes of the appends. The header option of the
handle never names a list of the first kind.
-/
namespace Curlinho
open Foundation
namespace Session

theorem buildChunk_some (ok : ℕ → Bool) (es : List (Bytes × Bytes)) (i : ℕ) (heap : SlistHeap)
    (p : SlistPtr) :
    (buildChunk ok i es (heap, some p)).2 = some p ∧
      (buildChunk ok i es (heap, some p)).1.next = heap.next ∧
      (buildChunk ok i es (heap, some p)).1.released = heap.released := by
  induction es generalizing i heap with
  | nil => exact ⟨rfl, rfl, rfl⟩
  | cons e es ih =>
    cases hok : ok i with
    | false =>
      rw [buildChunk_cons_failed hok]
      exact ih (i + 1) heap
    | true =>
      rw [buildChunk_cons_appended hok]
      exact ih (i + 1) _

theorem buildChunk_none (ok : ℕ → Bool) (es : List (Bytes × Bytes)) (i : ℕ) (heap : SlistHeap) :
    (buildChunk ok i es (heap, none)).1.released = heap.released ∧
      (((buildChunk ok i es (heap, none)).2 = none ∧
          (buildChunk ok i es (heap, none)).1.next = heap.next) ∨
        ((buildChunk ok i es (heap, none)).2 = some heap.next ∧
          (buildChunk ok i es (heap, none)).1.next = heap.next + 1)) := by
  induction es generalizing i heap with
  | nil => exact ⟨rfl, Or.inl ⟨rfl, rfl⟩⟩
  | cons e es ih =>
    cases hok : ok i with
    | false =>
      rw [buildChunk_cons_failed hok]
      exact ih (i + 1) heap
    | true =>
      rw [buildChunk_cons_appended hok]
      obtain ⟨hchunk, hnext, hreleased⟩ := buildChunk_some ok es (i + 1) _ heap.next
      exact ⟨hreleased, Or.inr ⟨hchunk, hnext⟩⟩

/-- The lists that a session allocated are the released ones and the one it holds. -/
def ListsOwned (slists : SlistHeap) (chunk : Option SlistPtr) : Prop :=
  (Ledger.mk (List.range slists.next) slists.released).Owns chunk.toList

/-- The session owns the list it holds, and the header option names no other. -/
structure HeaderState.Kept (st : HeaderState) : Prop where
  owned : ListsOwned st.slists st.chunk
  named : ∀ o, st.httpHeader = some (some o) → o = st.chunk

@[simp] theorem freeAll_next (heap : SlistHeap) (chunk : Option SlistPtr) :
    (heap.freeAll chunk).next = heap.next := by
  cases chunk <;> rfl

@[simp] theorem freeAll_released (heap : SlistHeap) (chunk : Option SlistPtr) :
    (heap.freeAll chunk).released = heap.released ++ chunk.toList := by
  cases chunk with
  | none => exact (List.append_nil _).symm
  | some p => rfl

section
variable {slists : SlistHeap} {chunk : Option SlistPtr} {p : SlistPtr}

theorem ListsOwned.lt_next (h : ListsOwned slists chunk) (hp : chunk = some p) :
    p < slists.next := by
  subst hp
  exact List.mem_range.mp (Ledger.Owns.mem h List.mem_cons_self)

theorem ListsOwned.notMem_released (h : ListsOwned slists chunk) (hp : chunk = some p) :
    p ∉ slists.released := by
  subst hp
  exact Ledger.Owns.notMem_released h List.mem_cons_self

end

theorem ListsOwned.freeAll {slists : SlistHeap} {chunk : Option SlistPtr}
    (h : ListsOwned slists chunk) : ListsOwned (slists.freeAll chunk) none := by
  refine ⟨List.nodup_range, ?_⟩
  rw [freeAll_next, freeAll_released]
  exact h.perm.trans (by simp)

theorem ListsOwned.build {slists : SlistHeap} {old : Option SlistPtr} (h : ListsOwned slists old)
    (ok : ℕ → Bool) (es : List (Bytes × Bytes)) :
    ListsOwned ((buildChunk ok 0 es (slists, none)).1.freeAll old)
      (buildChunk ok 0 es (slists, none)).2 := by
  have hfreed : (Ledger.mk (List.range slists.next) (slists.released ++ old.toList)).Owns [] :=
    ⟨List.nodup_range, h.perm.trans (by simp)⟩
  obtain ⟨hreleased, ⟨hchunk, hnext⟩ | ⟨hchunk, hnext⟩⟩ := buildChunk_none ok es 0 slists
  · rw [ListsOwned, freeAll_next, freeAll_released, hreleased, hchunk, hnext]
    exact hfreed
  · rw [ListsOwned, freeAll_next, freeAll_released, hreleased, hchunk, hnext, List.range_succ]
    exact hfreed.acquire (by simp)

theorem not_namesReleased {s : Session} {chunk : Option SlistPtr}
    (hfree : ∀ p, chunk = some p → p ∉ s.slists.released)
    (hnamed : ∀ o, s.headerState.httpHeader = some (some o) → o = chunk) : ¬ s.NamesReleased := by
  rintro ⟨h, p, hh, hp, hreleased⟩
  have hchunk := hnamed (some p) (by simp only [headerState, hh, Option.map_some, hp])
  exact hfree p hchunk.symm hreleased

theorem HeaderState.Kept.not_namesReleased {s : Session} (h : s.headerState.Kept) :
    ¬ s.NamesReleased := by
  apply Session.not_namesReleased _ h.named
  intro p hp
  exact h.owned.notMem_released hp

theorem HeaderState.Kept.setHeaders {s : Session} (h : s.headerState.Kept)
    (ok : ℕ → Bool) (headers : Headers) : (s.setHeaders ok headers).headerState.Kept := by
  cases hs : s.curl_.handle.isSome with
  | false =>
    rw [Session.setHeaders, hs]
    exact h
  | true =>
    rw [headerState_setHeaders hs]
    refine ⟨h.owned.build ok _, ?_⟩
    intro o ho
    exact (Option.some.inj (Option.some.inj ho)).symm

theorem setHeadersStates_eq {s : Session} (hs : s.curl_.handle.isSome = true) (ok : ℕ → Bool)
    (headers : Headers) :
    s.setHeadersStates ok headers =
      let built := buildChunk ok 0 (mergeHeaders headers s.headers_).entries (s.slists, none)
      let s₁ := { s with headers_ := mergeHeaders headers s.headers_, slists := built.1 }
      let s₂ := s₁.setopt (fun h => { h with httpHeader := some built.2 })
      let s₃ := { s₂ with slists := built.1.freeAll s.curl_.chunk }
      [s₁, s₂, s₃, { s₃ with curl_ := { s₃.curl_ with chunk := built.2 } }] := by
  rw [setHeadersStates, if_pos hs]
  rfl

/-- While `SetHeaders` runs, the option names the old list until the new one is built,
and the new one before the old one is released. -/
theorem HeaderState.Kept.setHeadersStates {s : Session} (h : s.headerState.Kept)
    (ok : ℕ → Bool) (headers : Headers) :
    ∀ v ∈ s.setHeadersStates ok headers, ¬ v.NamesReleased := by
  cases hs : s.curl_.handle.isSome with
  | false =>
    rw [Session.setHeadersStates, hs]
    intro v hv
    rw [List.mem_singleton.mp hv]
    exact h.not_namesReleased
  | true =>
    obtain ⟨handle, hh⟩ := Option.isSome_iff_exists.mp hs
    have howned : ListsOwned s.slists s.curl_.chunk := h.owned
    have hbuilt := howned.build ok (mergeHeaders headers s.headers_).entries
    have hreleased := (buildChunk_none ok (mergeHeaders headers s.headers_).entries 0 s.slists).1
    rw [setHeadersStates_eq hs]
    generalize buildChunk ok 0 (mergeHeaders headers s.headers_).entries (s.slists, none) = built
      at hbuilt hreleased
    have hnew : ∀ p, built.2 = some p → p ∉ (built.1.freeAll s.curl_.chunk).released :=
      fun _ hp => hbuilt.notMem_released hp
    simp only [List.mem_cons, List.not_mem_nil, or_false, forall_eq_or_imp, forall_eq]
    refine ⟨?_, ?_, ?_, ?_⟩
    · apply Session.not_namesReleased (s := { s with
        headers_ := mergeHeaders headers s.headers_, slists := built.1 }) _ h.named
      intro p hp
      rw [hreleased]
      exact howned.notMem_released hp
    · apply @Session.not_namesReleased _ built.2
      · intro p hp hmem
        apply hnew p hp
        rw [freeAll_released]
        exact List.mem_append_left _ hmem
      · simp [headerState, hh]
    · apply @Session.not_namesReleased _ built.2 hnew
      simp [headerState, hh]
    · apply @Session.not_namesReleased _ built.2 hnew
      simp [headerState, hh]

variable (platform : Platform)

/-- A call is `SetHeaders` or leaves the headers and their list as they are. -/
theorem applyCall_cases (s : Session) (call : SessionCall) :
    (∃ ok addr category headers, call = .setOption ok addr ⟨category, .headers headers⟩) ∨
      (s.applyCall platform call).headerState = s.headerState ∧
        s.callStates platform call = [s.applyCall platform call] := by
  by_cases hcall : ∃ ok addr category headers,
      call = .setOption ok addr ⟨category, .headers headers⟩
  · exact Or.inl hcall
  · simp only [not_exists] at hcall
    refine Or.inr ⟨?_, ?_⟩
    · cases call with
      | setOption ok addr arg =>
        apply headerState_setOption
        intro headers harg
        exact hcall ok addr arg.category headers (by rw [← harg])
      | get mem t => exact headerState_perform s _ mem t
      | post mem t => exact headerState_perform s _ mem t
    · unfold callStates
      split
      · exact absurd rfl (hcall _ _ _ _)
      · rfl

theorem HeaderState.Kept.applyCall {s : Session} (h : s.headerState.Kept) (call : SessionCall) :
    (s.applyCall platform call).headerState.Kept ∧
      ∀ v ∈ s.callStates platform call, ¬ v.NamesReleased := by
  rcases applyCall_cases platform s call with
    ⟨ok, addr, category, headers, rfl⟩ | ⟨hstate, hstates⟩
  · exact ⟨h.setHeaders ok headers, h.setHeadersStates ok headers⟩
  · have hkept : (s.applyCall platform call).headerState.Kept := by
      rw [hstate]
      exact h
    refine ⟨hkept, ?_⟩
    rw [hstates]
    intro v hv
    rw [List.mem_singleton.mp hv]
    exact hkept.not_namesReleased

theorem kept_newWith (init : Bool) (url : Url) (addr : Addr) (body : Body) :
    (newWith platform init url addr body).headerState.Kept := by
  rw [headerState_newWith]
  refine ⟨⟨List.nodup_range, List.Perm.refl _⟩, ?_⟩
  intro o ho
  cases init <;> simp at ho

end Session

end Curlinho
