import Curlinho.Session.Responses

/-! # Transfers do not interfere

One callback fills two strings that a reused handle names by pointer, and all
transfers of a session share one error buffer. Each response is still a function of
its own transfer: the strings are those of the running activation, and the buffer is
emptied before every transfer.
-/
namespace Curlinho

/-- The response to a transfer, in terms of nothing but the transfer. -/
def Transfer.received (t : Transfer) : Response where
  statusCode := toInt t.responseCode
  text := textOf false t.deliveries
  headers := parseHeaders (textOf true t.deliveries)
  url := cstr t.effectiveUrl
  elapsed := t.totalTime
  error := ⟨t.code, cstr (t.errorText.getD [])⟩

namespace Session
variable (platform : Platform)

theorem perform_result {s : Session} (hs : s.Live) (method : Bytes) (mem : Memory)
    (t : Transfer) : (s.perform method mem t).result = .ok t.received := by
  obtain ⟨h, hh, hbuffer⟩ := hs
  rw [perform_of_some hh]
  simp only [hbuffer]
  rfl

/-- In any run on a valid handle, the responses are what the transfers delivered, one
by one: two runs that agree on a transfer agree on the response to it, whatever the
other transfers and calls were. -/
theorem responses_received (url : Url) (addr : Addr) (body : Body) (calls : List SessionCall) :
    (newWith platform true url addr body).responses platform calls =
        (transfers calls).map (fun t => .ok t.received) ∧
      ∀ (url' : Url) (addr' : Addr) (body' : Body) (calls' : List SessionCall) (i j : ℕ),
        (transfers calls)[i]? = (transfers calls')[j]? →
          ((newWith platform true url addr body).responses platform calls)[i]? =
            ((newWith platform true url' addr' body').responses platform calls')[j]? := by
  have hall : ∀ (url : Url) (addr : Addr) (body : Body) (calls : List SessionCall),
      (newWith platform true url addr body).responses platform calls =
        (transfers calls).map (fun t => .ok t.received) := by
    intro url addr body calls
    exact responses_eq (fun _ call hs => hs.applyCall call) (fun _ hs => perform_result hs)
      (live_newWith platform url addr body) calls
  refine ⟨hall url addr body calls, ?_⟩
  intro url' addr' body' calls' i j h
  rw [hall, hall, List.getElem?_map, List.getElem?_map, h]

end Session
end Curlinho
