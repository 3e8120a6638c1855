import Curlinho.Session.Responses
import Mathlib.Data.Set.Insert

/-! # The buffers that a session keeps addresses of

A body or a certificate text that was set by reference is read when a transfer is
performed. Everything else about a transfer is independent of the memory.
-/
namespace Curlinho
open Foundation

def Handle.borrowed (h : Handle) : Set Addr :=
  {a | h.postFields = some (.borrowed a) ∨ h.sslCtxData = some a}

theorem Handle.request_congr {h : Handle} {mem mem' : Memory}
    (heq : ∀ a ∈ h.borrowed, mem a = mem' a) (slists : SlistHeap) :
    h.request slists mem = h.request slists mem' := by
  have hfields : h.postFields.map (PostFields.read mem h.postFieldSize) =
      h.postFields.map (PostFields.read mem' h.postFieldSize) := by
    cases hp : h.postFields with
    | none => rfl
    | some fields =>
      cases fields with
      | copied b => rfl
      | borrowed a => simp [PostFields.read, heq a (.inl hp)]
  have hdata : h.sslCtxData.map (fun a => cstr (mem a)) =
      h.sslCtxData.map (fun a => cstr (mem' a)) := by
    cases hd : h.sslCtxData with
    | none => rfl
    | some a => simp only [Option.map_some, heq a (.inr hd)]
  simp only [Handle.request, hfields, hdata]

namespace Session
variable {platform : Platform} {s : Session}

/-- The addresses that the next transfer reads. -/
def borrowed (s : Session) : Set Addr := {a | ∃ h ∈ s.curl_.handle, a ∈ h.borrowed}

theorem borrowed_of_handle {h : Handle} (hs : s.curl_.handle = some h) :
    s.borrowed = h.borrowed := by
  ext a
  constructor
  · rintro ⟨h', hh', ha⟩
    obtain rfl := Option.some.inj (hs.symm.trans hh')
    exact ha
  · exact fun ha => ⟨h, hs, ha⟩

theorem borrowed_new (init : Bool) : (new platform init).borrowed = ∅ := by
  refine Set.eq_empty_iff_forall_notMem.mpr ?_
  rintro a ⟨h, hh, ha⟩
  cases init with
  | false => cases hh
  | true =>
    cases hh
    rcases ha with ha | ha <;> cases ha

variable (platform) in
theorem borrowed_setOption (ok : ℕ → Bool) (addr : Addr) (arg : Arg) :
    (s.setOption platform ok addr arg).1.borrowed ⊆ insert addr s.borrowed := by
  obtain ⟨chunk, hchunk⟩ := setOption_handle platform s ok addr arg
  rintro a ⟨h', hh', ha⟩
  rw [hchunk] at hh'
  obtain ⟨h, hs, rfl⟩ := Option.map_eq_some_iff.mp hh'
  have hkeep : a ∈ h.borrowed → a ∈ insert addr s.borrowed := fun ha => .inr ⟨h, hs, ha⟩
  obtain ⟨category, object⟩ := arg
  cases object with
  | body b =>
    rcases ha with ha | ha
    · by_cases hc : category = .rvalue
      · simp [handleUpdate, hc] at ha
      · simp only [handleUpdate, hc, if_false, Option.some.injEq, PostFields.borrowed.injEq] at ha
        exact .inl ha.symm
    · exact hkeep (.inr ha)
  | sslCert c =>
    rcases ha with ha | ha
    · exact hkeep (.inl ha)
    · by_cases hc : c.certString_ = []
      · simp only [handleUpdate, hc, ne_eq, not_true_eq_false, if_false] at ha
        exact hkeep (.inr ha)
      · simp only [handleUpdate, hc, ne_eq, not_false_eq_true, if_true, Option.some.injEq] at ha
        exact .inl ha.symm
  | protocolVersion v => cases v <;> exact hkeep ha
  | _ => exact hkeep ha

theorem borrowed_setBody (addr : Addr) (b : Body) :
    (s.setBody addr b).borrowed ⊆ insert addr s.borrowed :=
  borrowed_setOption .linux (fun _ => true) addr ⟨.lvalue, .body b⟩

theorem borrowed_perform (method : Bytes) (mem : Memory) (t : Transfer) :
    (s.perform method mem t).session.borrowed = s.borrowed := by
  cases hs : s.curl_.handle with
  | none =>
    have hnext := perform_handle s method mem t
    rw [hs] at hnext
    simp only [borrowed, hnext, hs, Option.map_none]
  | some h =>
    have hnext := perform_handle s method mem t
    rw [hs] at hnext
    rw [borrowed_of_handle hs, borrowed_of_handle hnext]
    rfl

/-- A transfer depends on the memory at these addresses only. -/
theorem perform_congr {mem mem' : Memory} (heq : ∀ a ∈ s.borrowed, mem a = mem' a)
    (method : Bytes) (t : Transfer) : s.perform method mem t = s.perform method mem' t := by
  cases hs : s.curl_.handle with
  | none => rw [perform_of_none hs, perform_of_none hs]
  | some h =>
    rw [borrowed_of_handle hs] at heq
    have hrequest := @Handle.request_congr (s.handleRequest method h) mem mem' heq s.slists
    rw [perform_of_some hs, perform_of_some hs, hrequest]

end Session
end Curlinho
