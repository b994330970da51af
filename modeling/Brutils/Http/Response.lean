import Brutils.Http.RequestParser
import Brutils.Json.Generator

/-!
# `Brutils.Http.Response`: the `HttpResponse` class

An `HttpResponse` is its members. `sendResponse` returns the response, whose version it may
set, and the bytes that `readyToWrite` is emitted with, if it is emitted. A lookup with `at` throws
where there is no entry, and then nothing is returned.

`convertStringToBytes` writes through `vector.end()`. The vector is empty and has no memory, so this
is a null pointer, and every string that has a character is written outside the vector
(`convertStringToBytes_eq`). The language does not say what follows, and a call that comes to it halts
(`Halt.outOfBounds`). The functions that put a response together take the conversion as an argument,
and `sendResponse` is their use with this one.
-/

set_option autoImplicit false

namespace Brutils

open RequestParser (newLine)

/-- `HttpResponseStatus`. -/
inductive HttpResponseStatus
  | HTTP_STATUS_CONTINUE
  | HTTP_STATUS_SWITCHING_PROTOCOL
  | HTTP_STATUS_OK
  | HTTP_STATUS_CREATED
  | HTTP_STATUS_ACCEPTED
  | HTTP_STATUS_NON_AUTHORITATIVE_INFORMATION
  | HTTP_STATUS_NO_CONTENT
  | HTTP_STATUS_RESET_CONTENT
  | HTTP_STATUS_PARTIAL_CONTENT
  | HTTP_STATUS_MULTIPLE_CHOICES
  | HTTP_STATUS_MOVED_PERMANENTLY
  | HTTP_STATUS_FOUND
  | HTTP_STATUS_SEE_OTHER
  | HTTP_STATUS_NOT_MODIFIED
  | HTTP_STATUS_USE_PROXY
  | HTTP_STATUS_TEMPORARY_REDIRECT
  | HTTP_STATUS_PERMANENT_REDIRECT
  | HTTP_STATUS_BAD_REQUEST
  | HTTP_STATUS_UNAUTHORIZED
  | HTTP_STATUS_PAYMENT_REQUIRED
  | HTTP_STATUS_FORBIDDEN
  | HTTP_STATUS_NOT_FOUND
  | HTTP_STATUS_METHOD_NOT_ALLOWED
  | HTTP_STATUS_NOT_ACCEPTABLE
  | HTTP_STATUS_PROXY_AUTHENTICATION_REQUIRED
  | HTTP_STATUS_REQUEST_TIMEOUT
  | HTTP_STATUS_CONFLICT
  | HTTP_STATUS_GONE
  | HTTP_STATUS_LENGTH_REQUIRED
  | HTTP_STATUS_PRECONDITION_FAILED
  | HTTP_STATUS_PAYLOAD_TOO_LARGE
  | HTTP_STATUS_URI_TOO_LONG
  | HTTP_STATUS_UNSUPPORTED_MEDIA_TYPE
  | HTTP_STATUS_RANGE_NOT_SATISFIABLE
  | HTTP_STATUS_EXPECTATION_FAILED
  | HTTP_STATUS_IM_A_TEAPOT
  | HTTP_STATUS_UNPROCESSABLE_ENTITY
  | HTTP_STATUS_TOO_EARLY
  | HTTP_STATUS_UPGRADE_REQUIRED
  | HTTP_STATUS_PRECONDITION_REQUIRED
  | HTTP_STATUS_TOO_MANY_REQUESTS
  | HTTP_STATUS_UNAVAILABLE_FOR_LEGAL_REASONS
  | HTTP_STATUS_INTERNAL_SERVER_ERROR
  | HTTP_STATUS_NOT_IMPLEMENTED
  | HTTP_STATUS_BAD_GATEWAY
  | HTTP_STATUS_SERVICE_UNAVAILABLE
  | HTTP_STATUS_GATEWAY_TIMEOUT
  | HTTP_STATUS_VERSION_NOT_SUPPORTED
  | HTTP_STATUS_NETWORK_AUTHENTICATION_REQUIRED
  deriving DecidableEq, Repr

/-- `(int) status`. -/
def HttpResponseStatus.toInt : HttpResponseStatus → Nat
  | .HTTP_STATUS_CONTINUE => 100
  | .HTTP_STATUS_SWITCHING_PROTOCOL => 101
  | .HTTP_STATUS_OK => 200
  | .HTTP_STATUS_CREATED => 201
  | .HTTP_STATUS_ACCEPTED => 202
  | .HTTP_STATUS_NON_AUTHORITATIVE_INFORMATION => 203
  | .HTTP_STATUS_NO_CONTENT => 204
  | .HTTP_STATUS_RESET_CONTENT => 205
  | .HTTP_STATUS_PARTIAL_CONTENT => 206
  | .HTTP_STATUS_MULTIPLE_CHOICES => 300
  | .HTTP_STATUS_MOVED_PERMANENTLY => 301
  | .HTTP_STATUS_FOUND => 302
  | .HTTP_STATUS_SEE_OTHER => 303
  | .HTTP_STATUS_NOT_MODIFIED => 304
  | .HTTP_STATUS_USE_PROXY => 305
  | .HTTP_STATUS_TEMPORARY_REDIRECT => 307
  | .HTTP_STATUS_PERMANENT_REDIRECT => 308
  | .HTTP_STATUS_BAD_REQUEST => 400
  | .HTTP_STATUS_UNAUTHORIZED => 401
  | .HTTP_STATUS_PAYMENT_REQUIRED => 402
  | .HTTP_STATUS_FORBIDDEN => 403
  | .HTTP_STATUS_NOT_FOUND => 404
  | .HTTP_STATUS_METHOD_NOT_ALLOWED => 405
  | .HTTP_STATUS_NOT_ACCEPTABLE => 406
  | .HTTP_STATUS_PROXY_AUTHENTICATION_REQUIRED => 407
  | .HTTP_STATUS_REQUEST_TIMEOUT => 408
  | .HTTP_STATUS_CONFLICT => 409
  | .HTTP_STATUS_GONE => 410
  | .HTTP_STATUS_LENGTH_REQUIRED => 411
  | .HTTP_STATUS_PRECONDITION_FAILED => 412
  | .HTTP_STATUS_PAYLOAD_TOO_LARGE => 413
  | .HTTP_STATUS_URI_TOO_LONG => 414
  | .HTTP_STATUS_UNSUPPORTED_MEDIA_TYPE => 415
  | .HTTP_STATUS_RANGE_NOT_SATISFIABLE => 416
  | .HTTP_STATUS_EXPECTATION_FAILED => 417
  | .HTTP_STATUS_IM_A_TEAPOT => 418
  | .HTTP_STATUS_UNPROCESSABLE_ENTITY => 422
  | .HTTP_STATUS_TOO_EARLY => 425
  | .HTTP_STATUS_UPGRADE_REQUIRED => 426
  | .HTTP_STATUS_PRECONDITION_REQUIRED => 428
  | .HTTP_STATUS_TOO_MANY_REQUESTS => 431
  | .HTTP_STATUS_UNAVAILABLE_FOR_LEGAL_REASONS => 451
  | .HTTP_STATUS_INTERNAL_SERVER_ERROR => 500
  | .HTTP_STATUS_NOT_IMPLEMENTED => 501
  | .HTTP_STATUS_BAD_GATEWAY => 502
  | .HTTP_STATUS_SERVICE_UNAVAILABLE => 503
  | .HTTP_STATUS_GATEWAY_TIMEOUT => 504
  | .HTTP_STATUS_VERSION_NOT_SUPPORTED => 505
  | .HTTP_STATUS_NETWORK_AUTHENTICATION_REQUIRED => 511

/-- The members of an `HttpResponse`, as its constructor leaves them. -/
structure HttpResponse where
  version : HttpVersion := .UNKNOWN
  status : HttpResponseStatus := .HTTP_STATUS_OK
  headerMap : StringMap := []
  privateT : Bool := false
  deriving DecidableEq

namespace HttpResponse

/-- `_headerSeparator`. -/
def headerSeparator : Text := [':', ' ']

/-- `_versionMap`. -/
def versionMap : List (HttpVersion × Text) :=
  [(.HTTP_10, "HTTP/1.0".toList), (.HTTP_11, "HTTP/1.1".toList)]

/-- `_statusMessageMap`. -/
def statusMessageMap : List (HttpResponseStatus × Text) :=
  [(.HTTP_STATUS_CONTINUE, "Continue".toList),
    (.HTTP_STATUS_SWITCHING_PROTOCOL, "Switching Protocol".toList),
    (.HTTP_STATUS_OK, "OK".toList),
    (.HTTP_STATUS_CREATED, "Created".toList),
    (.HTTP_STATUS_ACCEPTED, "Accepted".toList),
    (.HTTP_STATUS_NON_AUTHORITATIVE_INFORMATION, "Non-Authoritative Information".toList),
    (.HTTP_STATUS_NO_CONTENT, "No Content".toList),
    (.HTTP_STATUS_RESET_CONTENT, "Reset Content".toList),
    (.HTTP_STATUS_PARTIAL_CONTENT, "Partial Content".toList),
    (.HTTP_STATUS_MULTIPLE_CHOICES, "Multiple Choices".toList),
    (.HTTP_STATUS_MOVED_PERMANENTLY, "Moved Permanently".toList),
    (.HTTP_STATUS_FOUND, "Found".toList),
    (.HTTP_STATUS_SEE_OTHER, "See Other".toList),
    (.HTTP_STATUS_NOT_MODIFIED, "Not Modified".toList),
    (.HTTP_STATUS_USE_PROXY, "Use Proxy".toList),
    (.HTTP_STATUS_TEMPORARY_REDIRECT, "Temporary Redirect".toList),
    (.HTTP_STATUS_PERMANENT_REDIRECT, "Permanent Redirect".toList),
    (.HTTP_STATUS_BAD_REQUEST, "Bad Request".toList),
    (.HTTP_STATUS_UNAUTHORIZED, "Unauthorized".toList),
    (.HTTP_STATUS_PAYMENT_REQUIRED, "Payment Required".toList),
    (.HTTP_STATUS_FORBIDDEN, "Forbidden".toList),
    (.HTTP_STATUS_NOT_FOUND, "Not Found".toList),
    (.HTTP_STATUS_METHOD_NOT_ALLOWED, "Method Not Allowed".toList),
    (.HTTP_STATUS_NOT_ACCEPTABLE, "Not Acceptable".toList),
    (.HTTP_STATUS_PROXY_AUTHENTICATION_REQUIRED, "Proxy Authentication,Required".toList),
    (.HTTP_STATUS_REQUEST_TIMEOUT, "Request Time-out".toList),
    (.HTTP_STATUS_CONFLICT, "Conflict".toList),
    (.HTTP_STATUS_GONE, "Gone".toList),
    (.HTTP_STATUS_LENGTH_REQUIRED, "Length Required".toList),
    (.HTTP_STATUS_PRECONDITION_FAILED, "Precondition Failed".toList),
    (.HTTP_STATUS_PAYLOAD_TOO_LARGE, "Request Entity Too Large".toList),
    (.HTTP_STATUS_URI_TOO_LONG, "Request-URI Too Large".toList),
    (.HTTP_STATUS_UNSUPPORTED_MEDIA_TYPE, "Unsupported Media Type".toList),
    (.HTTP_STATUS_RANGE_NOT_SATISFIABLE, "Range Not Satisfiable".toList),
    (.HTTP_STATUS_EXPECTATION_FAILED, "Expectation Failed".toList),
    (.HTTP_STATUS_IM_A_TEAPOT, "I'm a Teapot".toList),
    (.HTTP_STATUS_UNPROCESSABLE_ENTITY, "Unprocessable Entity".toList),
    (.HTTP_STATUS_TOO_EARLY, "Too Early".toList),
    (.HTTP_STATUS_UPGRADE_REQUIRED, "Upgrade Required".toList),
    (.HTTP_STATUS_PRECONDITION_REQUIRED, "Precondition Required".toList),
    (.HTTP_STATUS_TOO_MANY_REQUESTS, "Too Many Requests".toList),
    (.HTTP_STATUS_UNAVAILABLE_FOR_LEGAL_REASONS, "Unavailble For Legal Reasons".toList),
    (.HTTP_STATUS_INTERNAL_SERVER_ERROR, "Internal Server Error".toList),
    (.HTTP_STATUS_NOT_IMPLEMENTED, "Not Implemented".toList),
    (.HTTP_STATUS_BAD_GATEWAY, "Bad Gateway".toList),
    (.HTTP_STATUS_SERVICE_UNAVAILABLE, "Service Unavailable".toList),
    (.HTTP_STATUS_GATEWAY_TIMEOUT, "Geteway Timeout".toList),
    (.HTTP_STATUS_VERSION_NOT_SUPPORTED, "Version Not Supported".toList),
    (.HTTP_STATUS_NETWORK_AUTHENTICATION_REQUIRED, "Network Authentication Required".toList)]

/-- How a call ends that does not return. -/
inductive Halt
  | out_of_range
  /-- the code writes outside a vector -/
  | outOfBounds
  deriving DecidableEq, Repr

/-- `at` of a table. -/
def tableAt {κ : Type} [BEq κ] (table : List (κ × Text)) (key : κ) : Except Halt Text :=
  match table.lookup key with
  | none => .error .out_of_range
  | some text => .ok text

/-- `convertStringToBytes`. The output goes to `vector.end()`, and nothing has been reserved for it. -/
def convertStringToBytes (data : Text) : Except Halt Text :=
  let vector := StringBuffer.empty []
  if vector.Holds vector.size data then .ok (vector.transform vector.size data).text
  else .error .outOfBounds

/-- Only an empty string can be converted. -/
theorem convertStringToBytes_eq (data : Text) :
    convertStringToBytes data = if data = [] then .ok [] else .error .outOfBounds := by
  have hholds : (StringBuffer.empty []).Holds 0 data ↔ data = [] := by
    show 0 + data.length ≤ 0 ↔ _
    rw [Nat.zero_add, Nat.le_zero, List.length_eq_zero_iff]
  show (if StringBuffer.Holds _ 0 _ then _ else _) = _
  rw [if_congr hholds (congrArg Except.ok (StringBuffer.text_transform_empty _ _ _)) rfl]

section
variable (convert : Text → Except Halt Text)

/-- `convertHttpResponseStatusToVector`. -/
def convertHttpResponseStatusToVector (status : HttpResponseStatus) : Except Halt Text :=
  convert (Nat.repr status.toInt).toList

/-- What `sendResponse` writes for one header. -/
def headerLine (headerPair : Text × Text) : Except Halt Text := do
  let headerKey ← convert headerPair.1
  let headerValue ← convert headerPair.2
  pure (headerKey ++ headerSeparator ++ headerValue ++ newLine)

/-- What `sendResponse` writes for the headers, in the order of the map. -/
def headerLines : StringMap → Except Halt Text
  | [] => .ok []
  | headerPair :: headerMap => do
    let line ← headerLine convert headerPair
    let lines ← headerLines headerMap
    pure (line ++ lines)

/-- `sendResponse`, with `convert` for `convertStringToBytes`. -/
def sendResponseWith (response : HttpResponse) (responseData : Text) :
    Except Halt (HttpResponse × Option Text) := do
  let sentVersion := if response.version = .UNKNOWN then .HTTP_11 else response.version
  let version ← tableAt versionMap sentVersion
  let status ← convertHttpResponseStatusToVector convert response.status
  let message ← tableAt statusMessageMap response.status
  let headers ← headerLines convert response.headerMap
  let bytes := version ++ [' '] ++ status ++ message ++ newLine ++ headers ++ responseData
  pure ({ response with version := sentVersion }, if response.privateT then some bytes else none)

end

/-- `sendResponse`. -/
def sendResponse : HttpResponse → Text → Except Halt (HttpResponse × Option Text) :=
  sendResponseWith convertStringToBytes

/-- `header`. A header that is there stays. -/
def header (response : HttpResponse) (key value : Text) : HttpResponse :=
  { response with headerMap := SortedAssoc.emplace key value response.headerMap }

/-- `getHeader`. -/
def getHeader (response : HttpResponse) (key : Text) : Text :=
  (response.headerMap.lookup key).getD []

/-- `removeHeader`. -/
def removeHeader (response : HttpResponse) (key : Text) : HttpResponse :=
  { response with headerMap := SortedAssoc.erase key response.headerMap }

/-- `clearHeaders`. -/
def clearHeaders (response : HttpResponse) : HttpResponse := { response with headerMap := [] }

/-- `status`, with a status of the enumeration. -/
def setStatus (response : HttpResponse) (status : HttpResponseStatus) : HttpResponse :=
  { response with status := status }

/-- `send`, without a content. -/
def sendEmpty (response : HttpResponse) : Except Halt (HttpResponse × Option Text) :=
  sendResponse response []

/-- `_headerMap["content-type"] = contentType`. -/
def setContentType (response : HttpResponse) (contentType : Text) : HttpResponse :=
  { response with
    headerMap := SortedAssoc.insert "content-type".toList contentType response.headerMap }

/-- `send`, for bytes. -/
def send (response : HttpResponse) (content contentType : Text) :
    Except Halt (HttpResponse × Option Text) :=
  sendResponse (response.setContentType contentType) content

/-- `send`, for a string. -/
def sendString (response : HttpResponse) (content contentType : Text) :
    Except Halt (HttpResponse × Option Text) := do
  let data ← convertStringToBytes content
  sendResponse (response.setContentType contentType) data

/-- `sendJson`. -/
def sendJson (response : HttpResponse) (map : Variant) :
    Except Halt (HttpResponse × Option Text) := do
  let jsonData ← convertStringToBytes (JsonGenerator.generate map false)
  sendResponse response jsonData

end HttpResponse

end Brutils
