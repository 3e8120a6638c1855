import Curlinho.Session.Isolation

/-! # Sessions without a handle

`curl_easy_init` may return NULL. Every setter tests for it or calls only functions
that do; the request path calls `curl_easy_getinfo` on it and then reads the variables
that the call left as they were.
-/
namespace Curlinho

namespace Session
variable (platform : Platform) {s : Session}

/-- On a NULL handle nothing is delivered, and the end of the request reads what nothing
wrote. -/
theorem perform_result_null (hs : s.curl_.handle = none) (method : Bytes) (mem : Memory)
    (t : Transfer) : (s.perform method mem t).result = .error .uninitialised := by
  rw [perform_of_none hs]

theorem applyCall_null (hs : s.curl_.handle = none) (call : SessionCall) :
    (s.applyCall platform call).curl_.handle = none := by
  have h := isSome_applyCall platform s call
  rw [hs, Option.isSome_none] at h
  exact Option.isNone_iff_eq_none.mp (Option.isSome_eq_false_iff.mp h)

theorem newWith_null (url : Url) (addr : Addr) (body : Body) :
    (newWith platform false url addr body).curl_.handle = none := by
  unfold newWith
  split <;> split <;> rfl

theorem responses_null (url : Url) (addr : Addr) (body : Body) (calls : List SessionCall) :
    (newWith platform false url addr body).responses platform calls =
      (transfers calls).map (fun _ => .error .uninitialised) :=
  responses_eq (fun _ call hs => applyCall_null platform hs call)
    (fun _ hs method mem t => perform_result_null hs method mem t)
    (newWith_null platform url addr body) calls

/-- Without a handle every `Get` and `Post` reads an uninitialised variable: a run is
free of it, and answers every request with an error, only if it makes no request. -/
theorem responses_null_iff (url : Url) (addr : Addr) (body : Body) (calls : List SessionCall) :
    (∀ result ∈ (newWith platform false url addr body).responses platform calls,
        ∃ response, result = .ok response ∧ response.error.code ≠ CURLE_OK) ↔
      ∀ call ∈ calls, call.transfer? = none := by
  rw [responses_null]
  constructor
  · intro h call hcall
    cases ht : call.transfer? with
    | none => rfl
    | some t =>
      have hmem : t ∈ transfers calls := List.mem_filterMap.mpr ⟨call, hcall, ht⟩
      obtain ⟨response, hr, -⟩ := h (.error .uninitialised) (List.mem_map.mpr ⟨t, hmem, rfl⟩)
      cases hr
  · intro h result hresult
    obtain ⟨t, ht, -⟩ := List.mem_map.mp hresult
    obtain ⟨call, hcall, ht⟩ := List.mem_filterMap.mp ht
    rw [h call hcall] at ht
    cases ht

theorem responses_null_get :
    ¬ ∀ result ∈ (new .linux false).responses .linux [.get (fun _ => []) {}],
      ∃ response, result = .ok response ∧ response.error.code ≠ CURLE_OK := by
  intro h
  obtain ⟨response, hr, -⟩ := h (.error .uninitialised) (List.mem_singleton.mpr rfl)
  cases hr

end Session
end Curlinho
