import Brutils.Http.RequestParser
import Brutils.Json.Parser

/-!
# `Brutils.Http.Passes`: the `RequestParser_v1x` as a system

Both functions that take data add it to `_buffer` and then call `parse`, once or in a loop. A call of
`parse` that returns true hands out the request, and `_requestInProduction` is reset. So the steps
are the arrival of data and a pass, and a run of calls is a run of steps. An endless loop of
`newDataReceived_slot` is a run of steps as well, as far as one looks at it.

After an exception the parser can be used again. After a read behind the end of `_buffer`, or a write
behind the memory of a string, there is no step, because the language does not say what follows.
-/

set_option autoImplicit false

namespace Brutils

/-- `HttpRequest::bodyJson`. -/
def HttpRequest.bodyJson (request : HttpRequest) (fuel : Nat) :
    Except JsonParser.Stop (Variant × List JsonParser.Routine) :=
  JsonParser.parse fuel request.rawBody

namespace RequestParser

/-- A parser, and the requests that it has handed out, in order. -/
structure Handing where
  parser : State
  handed : List (Option HttpRequest)

/-- A new parser. -/
def Handing.fresh : Handing := ⟨RequestParser.fresh, []⟩

section
variable [StandardLibrary]

/-- Data arrives, or `parse` is called. -/
inductive Step (r : Handing) : Handing → Prop
  | arrive (data : Text) :
      Step r { r with parser := { r.parser with buffer := r.parser.buffer ++ data } }
  | handOut (t : State) (h : parse r.parser = (.ok true, t)) :
      Step r ⟨{ t with requestInProduction := none }, r.handed ++ [t.requestInProduction]⟩
  | nothing (t : State) (h : parse r.parser = (.ok false, t)) : Step r ⟨t, r.handed⟩
  | thrown (t : State) (e : Halt) (h : parse r.parser = (.error e, t)) (hne : e ≠ .outOfBounds) :
      Step r ⟨t, r.handed⟩

/-- What a call of `newIncomingData` hands out. -/
def answered : Except Halt (Option HttpRequest) → List (Option HttpRequest)
  | .ok (some request) => [some request]
  | _ => []

/-- A call of one of the two functions that take data. -/
inductive Call (r : Handing) : Handing → Prop
  | incoming (data : Text) (result : Except Halt (Option HttpRequest)) (t : State)
      (h : newIncomingData r.parser data = (result, t)) (hne : result ≠ .error .outOfBounds) :
      Call r ⟨t, r.handed ++ answered result⟩
  | slot (data : Text) (fuel : Nat) (result : Except Halt Unit) (t : State)
      (ready : List (Option HttpRequest))
      (h : newDataReceivedSlot fuel r.parser data = some (result, t, ready))
      (hne : result ≠ .error .outOfBounds) :
      Call r ⟨t, r.handed ++ ready⟩

end

end RequestParser

end Brutils
