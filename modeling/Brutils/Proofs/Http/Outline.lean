import Brutils.Http.ResponseCalls
import Brutils.Proofs.Http.Response

/-!
# `Brutils.Proofs.Http.Outline`: an `HttpResponse` as long as nothing is sent

The header table of an `HttpResponse` is a finite map. `header` does not change a value that is there,
and `removeHeader` and `clearHeaders` take values out. `Shows` relates a response to its outline, key
by key, and `perform_shows` is the step of the refinement.

Nothing more can be done with it. The first call that sends writes the status code outside a vector,
whatever the response is (`perform_sends`). So a run of calls comes to its end exactly if no call of it
sends, and then nothing has been emitted (`response_ends_iff`).
-/

set_option autoImplicit false

namespace Brutils.Proofs.Http

open Brutils.HttpResponse

/-- A response that a connection has made and its outline. -/
structure Shows (response : HttpResponse) (outline : Outline) : Prop where
  version : response.version = .UNKNOWN
  status : response.status = outline.status
  sorted : SortedAssoc.Sorted response.headerMap
  lookup : ∀ key, response.headerMap.lookup key = outline.headers.lookup key

/-- An empty map has no values. -/
theorem finmap_lookup_empty (x : Text) : (∅ : Finmap fun _ : Text => Text).lookup x = none :=
  Finmap.lookup_empty x

/-- The value of a finite map after an assignment. -/
theorem finmap_lookup_insert (headers : Finmap fun _ : Text => Text) (key value x : Text) :
    (headers.insert key value).lookup x = if x = key then some value else headers.lookup x := by
  split
  · rename_i hx
    rw [hx, Finmap.lookup_insert]
  · rename_i hx
    exact Finmap.lookup_insert_of_ne headers hx

/-- The value of a finite map after a key has been taken out. -/
theorem finmap_lookup_erase (headers : Finmap fun _ : Text => Text) (key x : Text) :
    (headers.erase key).lookup x = if x = key then none else headers.lookup x := by
  split
  · rename_i hx
    rw [hx, Finmap.lookup_erase]
  · rename_i hx
    exact Finmap.lookup_erase_ne hx

section
variable {response : HttpResponse} {outline : Outline}

/-! ### Calls that do not send -/

/-- `header` on the table is the assignment on the map, unless the key is there. -/
theorem Shows.header (h : Shows response outline) (key value : Text) :
    Shows (response.header key value) (outline.addHeader key value) := by
  refine ⟨h.version, h.status, SortedAssoc.sorted_emplace key value _ h.sorted, ?_⟩
  intro x
  show (SortedAssoc.emplace key value response.headerMap).lookup x = _
  rw [SortedAssoc.lookup_emplace, h.lookup, h.lookup, Outline.addHeader, finmap_lookup_insert]

/-- `removeHeader` takes the key out of the map. -/
theorem Shows.removeHeader (h : Shows response outline) (key : Text) :
    Shows (response.removeHeader key)
      { outline with headers := outline.headers.erase key } := by
  refine ⟨h.version, h.status, SortedAssoc.sorted_erase key _ h.sorted, ?_⟩
  intro x
  show (SortedAssoc.erase key response.headerMap).lookup x = _
  rw [SortedAssoc.lookup_erase, h.lookup, finmap_lookup_erase]

/-- `clearHeaders` leaves an empty map. -/
theorem Shows.clearHeaders (h : Shows response outline) :
    Shows response.clearHeaders { outline with headers := ∅ } := by
  refine ⟨h.version, h.status, List.Pairwise.nil, fun x => ?_⟩
  exact (finmap_lookup_empty x).symm

/-- The step of the refinement. A call that does not send emits nothing. -/
theorem perform_shows (h : Shows response outline) {call : Call} (hcall : ¬call.Sends) :
    ∃ response', response.perform call = .ok (response', none) ∧
      Shows response' (outline.perform call) := by
  cases call with
  | header key value => exact ⟨_, rfl, h.header key value⟩
  | removeHeader key => exact ⟨_, rfl, h.removeHeader key⟩
  | clearHeaders => exact ⟨_, rfl, h.clearHeaders⟩
  | status status => exact ⟨_, rfl, h.version, rfl, h.sorted, h.lookup⟩
  | send => exact absurd trivial hcall
  | sendBytes content contentType => exact absurd trivial hcall
  | sendString content contentType => exact absurd trivial hcall
  | sendJson map => exact absurd trivial hcall

/-- A call that emits nothing, and the calls behind it. -/
theorem performAll_silent {next : HttpResponse} {call : Call} {calls : List Call}
    (h : response.perform call = .ok (next, none)) :
    response.performAll (call :: calls) = next.performAll calls := by
  rw [HttpResponse.performAll, h]
  show (next.performAll calls >>= fun result =>
    pure (result.1, (none : Option Text).toList ++ result.2)) = _
  cases next.performAll calls with
  | error e => rfl
  | ok result => rfl

/-- A run of calls that do not send. -/
theorem performAll_shows (h : Shows response outline) {calls : List Call}
    (hcalls : ∀ call ∈ calls, ¬call.Sends) :
    ∃ response', response.performAll calls = .ok (response', []) ∧
      Shows response' (outline.performAll calls) := by
  induction calls generalizing response outline with
  | nil => exact ⟨response, rfl, h⟩
  | cons call calls ih =>
    obtain ⟨hcall, hcalls⟩ := List.forall_mem_cons.mp hcalls
    obtain ⟨next, hperform, hnext⟩ := perform_shows h hcall
    obtain ⟨response', hrun, hshows⟩ := ih hnext hcalls
    refine ⟨response', ?_, hshows⟩
    rw [performAll_silent hperform]
    exact hrun

/-! ### Calls that send -/

/-- With the version of HTTP/1.1 the status code is written outside a vector. -/
theorem sendResponse_outOfBounds (hversion : response.version = .UNKNOWN) (body : Text) :
    sendResponse response body = .error .outOfBounds := by
  simp only [sendResponse, sendResponseWith, hversion, if_true, convertStatus_halts]
  rfl

/-- A step of a call that writes outside a vector, or goes on to do so. -/
theorem convert_then_halts {α : Type} (content : Text) {f : Text → Except Halt α}
    (hf : ∀ data, f data = .error .outOfBounds) :
    convertStringToBytes content >>= f = .error .outOfBounds := by
  rw [convertStringToBytes_eq]
  split
  · exact hf []
  · rfl

/-- A call that sends does not return. -/
theorem perform_sends (h : Shows response outline) {call : Call} (hcall : call.Sends) :
    response.perform call = .error .outOfBounds := by
  cases call with
  | header key value => exact absurd hcall id
  | removeHeader key => exact absurd hcall id
  | clearHeaders => exact absurd hcall id
  | status status => exact absurd hcall id
  | send => exact sendResponse_outOfBounds h.version []
  | sendBytes content contentType =>
    have hversion : (response.setContentType contentType).version = .UNKNOWN := h.version
    exact sendResponse_outOfBounds hversion content
  | sendString content contentType =>
    have hversion : (response.setContentType contentType).version = .UNKNOWN := h.version
    exact convert_then_halts content fun data => sendResponse_outOfBounds hversion data
  | sendJson map =>
    exact convert_then_halts _ fun data => sendResponse_outOfBounds h.version data

/-- A run of calls with one that sends does not come to its end. -/
theorem performAll_halts (h : Shows response outline) {calls : List Call}
    (hcalls : ∃ call ∈ calls, call.Sends) :
    response.performAll calls = .error .outOfBounds := by
  induction calls generalizing response outline with
  | nil =>
    obtain ⟨call, hmem, -⟩ := hcalls
    cases hmem
  | cons call calls ih =>
    by_cases hcall : call.Sends
    · rw [HttpResponse.performAll, perform_sends h hcall]
      rfl
    · obtain ⟨next, hperform, hnext⟩ := perform_shows h hcall
      have hrest : ∃ call ∈ calls, call.Sends := by
        obtain ⟨sending, hmem, hsends⟩ := hcalls
        refine ⟨sending, (List.mem_cons.mp hmem).resolve_left ?_, hsends⟩
        rintro rfl
        exact hcall hsends
      rw [performAll_silent hperform]
      exact ih hnext hrest

/-- A new response has no headers. -/
theorem shows_forConnection : Shows forConnection ⟨.HTTP_STATUS_OK, ∅⟩ where
  version := rfl
  status := rfl
  sorted := List.Pairwise.nil
  lookup key := (finmap_lookup_empty key).symm

end

/-- What a run of calls of a response that a connection has made comes to: it ends with nothing
emitted, and `getHeader` finds what the finite map has. -/
def EndsAsOutline (calls : List Call) : Prop :=
  ∃ response, forConnection.performAll calls = .ok (response, []) ∧
    ∀ key, response.getHeader key =
      ((Outline.performAll ⟨.HTTP_STATUS_OK, ∅⟩ calls).headers.lookup key).getD []

/-- This is so exactly for the runs in which no call sends. The others do not come to their end: a
write goes outside a vector. -/
theorem response_ends_iff (calls : List Call) :
    (EndsAsOutline calls ↔ ∀ call ∈ calls, ¬call.Sends) ∧
      (¬EndsAsOutline calls → forConnection.performAll calls = .error .outOfBounds) := by
  by_cases hcalls : ∃ call ∈ calls, call.Sends
  · have hhalts := performAll_halts shows_forConnection hcalls
    refine ⟨iff_of_false ?_ ?_, fun _ => hhalts⟩
    · rintro ⟨response, hends, -⟩
      cases hends.symm.trans hhalts
    · obtain ⟨call, hmem, hsends⟩ := hcalls
      exact fun h => h call hmem hsends
  · have hnone : ∀ call ∈ calls, ¬call.Sends := fun call hmem hsends => hcalls ⟨call, hmem, hsends⟩
    have hends : EndsAsOutline calls := by
      obtain ⟨response, hrun, hshows⟩ := performAll_shows shows_forConnection hnone
      refine ⟨response, hrun, fun key => ?_⟩
      rw [HttpResponse.getHeader, hshows.lookup]
    exact ⟨iff_of_true hends hnone, fun h => absurd hends h⟩

end Brutils.Proofs.Http
