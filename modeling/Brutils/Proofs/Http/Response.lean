import Brutils.Http.Response

/-!
# `Brutils.Proofs.Http.Response`: what a client gets

`wire` is a response as a client reads it. `sendResponse` never emits these bytes
(`never_readable`), because it never comes to its end: the first string that it converts is the status
code, which is not empty (`sendResponse_halts`).

Two things are missing in `sendResponse` itself. There is no space between the status code and the
reason phrase, and no empty line between the headers and the body. So no conversion that returns at
most as many bytes as it gets makes a response readable (`not_readable`): one that keeps every
character would not do either.
-/

set_option autoImplicit false

namespace Brutils.Proofs.Http

open Brutils.HttpResponse
open RequestParser (newLine)

/-- A header line as a client reads it. -/
def wireHeader (headerPair : Text × Text) : Text :=
  headerPair.1 ++ headerSeparator ++ headerPair.2 ++ newLine

/-- A response as a client reads it. -/
def wire (version message : Text) (status : HttpResponseStatus) (headerMap : StringMap)
    (body : Text) : Text :=
  version ++ [' '] ++ (Nat.repr status.toInt).toList ++ [' '] ++ message ++ newLine ++
    headerMap.flatMap wireHeader ++ newLine ++ body

/-- `sendResponse` emits the bytes that a client reads, with the texts of the tables for the
version and the status of the response. -/
def Readable (convert : Text → Except Halt Text) (response : HttpResponse) (body : Text) : Prop :=
  ∃ response' version message bytes,
    sendResponseWith convert response body = .ok (response', some bytes) ∧
    versionMap.lookup response'.version = some version ∧
    statusMessageMap.lookup response.status = some message ∧
    bytes = wire version message response.status response.headerMap body

/-! ### Any conversion -/

/-- A step of a call that returns has returned. -/
theorem except_bind_eq_ok {α β : Type} {x : Except Halt α} {f : α → Except Halt β} {b : β}
    (h : x >>= f = .ok b) : ∃ a, x = .ok a ∧ f a = .ok b := by
  cases x with
  | error e => cases h
  | ok a => exact ⟨a, rfl, h⟩

/-- A lookup that returns has found an entry. -/
theorem tableAt_eq_ok {κ : Type} [BEq κ] {table : List (κ × Text)} {key : κ} {text : Text}
    (h : tableAt table key = .ok text) : table.lookup key = some text := by
  rw [tableAt] at h
  cases hlookup : table.lookup key with
  | none =>
    rw [hlookup] at h
    cases h
  | some found =>
    rw [hlookup] at h
    cases h
    rfl

section
variable {convert : Text → Except Halt Text}

/-- What `sendResponseWith` emits, when it emits anything. -/
theorem sendResponseWith_eq_ok {response response' : HttpResponse} {body bytes : Text}
    (h : sendResponseWith convert response body = .ok (response', some bytes)) :
    ∃ version status message headers, versionMap.lookup response'.version = some version ∧
      convertHttpResponseStatusToVector convert response.status = .ok status ∧
      statusMessageMap.lookup response.status = some message ∧
      headerLines convert response.headerMap = .ok headers ∧
      bytes = version ++ [' '] ++ status ++ message ++ newLine ++ headers ++ body := by
  unfold sendResponseWith at h
  obtain ⟨version, hversion, h⟩ := except_bind_eq_ok h
  obtain ⟨status, hstatus, h⟩ := except_bind_eq_ok h
  obtain ⟨message, hmessage, h⟩ := except_bind_eq_ok h
  obtain ⟨headers, hheaders, h⟩ := except_bind_eq_ok h
  obtain ⟨rfl, hbytes⟩ := Prod.mk.inj (Except.ok.inj h)
  refine ⟨version, status, message, headers, tableAt_eq_ok hversion, hstatus,
    tableAt_eq_ok hmessage, hheaders, ?_⟩
  split at hbytes
  · exact (Option.some.inj hbytes).symm
  · cases hbytes

/-- The header lines are no longer than they should be. -/
theorem length_headerLines
    (hconvert : ∀ text bytes, convert text = .ok bytes → bytes.length ≤ text.length)
    {headerMap : StringMap} {headers : Text} (h : headerLines convert headerMap = .ok headers) :
    headers.length ≤ (headerMap.flatMap wireHeader).length := by
  induction headerMap generalizing headers with
  | nil =>
    cases h
    exact le_refl _
  | cons headerPair headerMap ih =>
    obtain ⟨line, hline, h⟩ := except_bind_eq_ok h
    obtain ⟨lines, hlines, h⟩ := except_bind_eq_ok h
    cases h
    obtain ⟨key, hkey, hline⟩ := except_bind_eq_ok hline
    obtain ⟨value, hvalue, hline⟩ := except_bind_eq_ok hline
    cases hline
    have hkey := hconvert _ _ hkey
    have hvalue := hconvert _ _ hvalue
    have hlines := ih hlines
    simp only [List.flatMap_cons, List.length_append, wireHeader]
    omega

/-- No conversion that returns at most as many bytes as it gets makes a response readable: three
characters are missing, whatever the conversion does. -/
theorem not_readable
    (hconvert : ∀ text bytes, convert text = .ok bytes → bytes.length ≤ text.length)
    (response : HttpResponse) (body : Text) : ¬Readable convert response body := by
  rintro ⟨response', version, message, bytes, hsend, hversion, hmessage, hbytes⟩
  obtain ⟨version', status, message', headers, hversion', hstatus, hmessage', hheaders, hsent⟩ :=
    sendResponseWith_eq_ok hsend
  obtain rfl := Option.some.inj (hversion.symm.trans hversion')
  obtain rfl := Option.some.inj (hmessage.symm.trans hmessage')
  have hstatus := hconvert _ _ hstatus
  have hheaders := length_headerLines hconvert hheaders
  have hlength := congrArg List.length (hsent.symm.trans hbytes)
  simp only [wire, List.length_append, List.length_cons, List.length_nil] at hlength
  omega

end

/-! ### The conversion of the code -/

/-- Every status code has characters, which are written outside the vector. -/
theorem convertStatus_halts (status : HttpResponseStatus) :
    convertHttpResponseStatusToVector convertStringToBytes status = .error .outOfBounds := by
  cases status <;> rfl

/-- `sendResponse` does not return. Where the version is one that the table has, the status code is
written outside a vector. -/
theorem sendResponse_halts (response : HttpResponse) (body : Text) :
    sendResponse response body = .error .outOfBounds ∨
      sendResponse response body = .error .out_of_range := by
  rw [sendResponse, sendResponseWith]
  generalize (if response.version = .UNKNOWN then HttpVersion.HTTP_11 else response.version) = version
  simp only
  rw [convertStatus_halts]
  cases tableAt versionMap version with
  | error e =>
    cases e with
    | out_of_range => exact Or.inr rfl
    | outOfBounds => exact Or.inl rfl
  | ok text => exact Or.inl rfl

/-- No response can be read: nothing is emitted. -/
theorem never_readable (response : HttpResponse) (body : Text) :
    ¬Readable convertStringToBytes response body := by
  rintro ⟨response', version, message, bytes, hsend, -⟩
  rcases sendResponse_halts response body with hhalt | hhalt
  · cases hsend.symm.trans hhalt
  · cases hsend.symm.trans hhalt

/-- The response with status 200, no headers and the body `hi`: its status code is written through a
null pointer. -/
theorem ok_status_overruns :
    sendResponse { privateT := true } "hi".toList = .error .outOfBounds ∧
      ¬Readable convertStringToBytes { privateT := true } "hi".toList := by
  have hsend : sendResponse { privateT := true } "hi".toList = .error .outOfBounds := rfl
  refine ⟨hsend, ?_⟩
  rintro ⟨response', version, message, bytes, hsent, -⟩
  cases hsent.symm.trans hsend

end Brutils.Proofs.Http
