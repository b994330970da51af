import Brutils.Http.Response
import Mathlib.Data.Finmap

/-!
# `Brutils.Http.ResponseCalls`: the use of an `HttpResponse`

The public functions of an `HttpResponse` that do something, as one type of calls, and runs of
them. The overloads for temporaries call the others.

An `Outline` is what an `HttpResponse` is between two calls: a status, and its headers as a finite
map. This is not translated from the source. It does not know the order in which the headers are
kept, and nothing can be sent with it.
-/

set_option autoImplicit false

namespace Brutils

namespace HttpResponse

/-- A call. -/
inductive Call
  | header (key value : Text)
  | removeHeader (key : Text)
  | clearHeaders
  | status (status : HttpResponseStatus)
  | send
  | sendBytes (content contentType : Text)
  | sendString (content contentType : Text)
  | sendJson (map : Variant)

/-- The call is one of those that send. -/
def Call.Sends : Call → Prop
  | .header _ _ | .removeHeader _ | .clearHeaders | .status _ => False
  | .send | .sendBytes _ _ | .sendString _ _ | .sendJson _ => True

/-- The response after a call, and the bytes that `readyToWrite` is emitted with, if it is. -/
def perform (response : HttpResponse) : Call → Except Halt (HttpResponse × Option Text)
  | .header key value => .ok (response.header key value, none)
  | .removeHeader key => .ok (response.removeHeader key, none)
  | .clearHeaders => .ok (response.clearHeaders, none)
  | .status status => .ok (response.setStatus status, none)
  | .send => response.sendEmpty
  | .sendBytes content contentType => response.send content contentType
  | .sendString content contentType => response.sendString content contentType
  | .sendJson map => response.sendJson map

/-- The response after a run of calls, and what has been emitted, in order. -/
def performAll : HttpResponse → List Call → Except Halt (HttpResponse × List Text)
  | response, [] => .ok (response, [])
  | response, call :: calls => do
    let (response, emission) ← response.perform call
    let (response, emissions) ← performAll response calls
    pure (response, emission.toList ++ emissions)

/-- A response as a connection makes it, before its first header. -/
def forConnection : HttpResponse := { privateT := true }

/-! ## The headers as a finite map -/

/-- A status, and headers. -/
structure Outline where
  status : HttpResponseStatus
  headers : Finmap fun _ : Text => Text

namespace Outline

/-- The first value of a header stays. -/
def addHeader (outline : Outline) (key value : Text) : Outline :=
  { outline with
    headers := outline.headers.insert key ((outline.headers.lookup key).getD value) }

/-- The outline after a call that does not send. -/
def perform (outline : Outline) : Call → Outline
  | .header key value => outline.addHeader key value
  | .removeHeader key => { outline with headers := outline.headers.erase key }
  | .clearHeaders => { outline with headers := ∅ }
  | .status status => { outline with status := status }
  | _ => outline

/-- The outline after a run of such calls. -/
def performAll (outline : Outline) (calls : List Call) : Outline := calls.foldl perform outline

end Outline

end HttpResponse

end Brutils
