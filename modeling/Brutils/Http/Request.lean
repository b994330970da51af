import Brutils.Lib.SortedAssoc
import Brutils.StringUtils
import Mathlib.Data.List.Lex

/-!
# `Brutils.Http.Request`: the `HttpRequest` class

An `HttpRequest` is its members, and the setters of `HttpRequest_private` are functions that
return the changed request. A `std::map` is written as its pairs in iteration order. A lookup
with `at` is `none` where it throws `std::out_of_range`.
-/

set_option autoImplicit false

namespace Brutils

/-- `HttpMethod`. -/
inductive HttpMethod
  | GET
  | HEAD
  | POST
  | PUT
  | PATCH
  | DELETE
  | CONNECT
  | OPTIONS
  | TRACE
  | UNKNOWN_METHOD
  deriving DecidableEq, Repr

/-- `HttpVersion`. -/
inductive HttpVersion
  | HTTP_10
  | HTTP_11
  | HTTP_20
  | HTTP_30
  | UNKNOWN
  deriving DecidableEq, Repr

/-- `std::map<std::string, std::string>`, in iteration order. -/
abbrev StringMap := List (Text × Text)

/-- A map gets the empty key once. -/
theorem emplace_nil {m : StringMap} (h : m = [] ∨ m = [([], [])]) :
    SortedAssoc.emplace [] [] m = [([], [])] := by
  rcases h with rfl | rfl
  · rfl
  · rfl

/-- The members of an `HttpRequest`, as its constructor leaves them. -/
structure HttpRequest where
  method : HttpMethod := .UNKNOWN_METHOD
  version : HttpVersion := .UNKNOWN
  path : Text := []
  query : StringMap := []
  rawBody : Text := []
  headers : StringMap := []
  deriving DecidableEq

namespace HttpRequest

/-- `header`. -/
def header (request : HttpRequest) (key : Text) : Option Text :=
  request.headers.lookup (toLower key)

/-- `headerMap`. -/
def headerMap (request : HttpRequest) : StringMap := request.headers

/-- `query`, with a key. -/
def queryAt (request : HttpRequest) (key : Text) : Option Text :=
  request.query.lookup (toLower key)

/-- `queryMap`. -/
def queryMap (request : HttpRequest) : StringMap := request.query

/-- `setMethod`. -/
def setMethod (request : HttpRequest) (method : HttpMethod) : HttpRequest :=
  { request with method := method }

/-- `setVersion`. -/
def setVersion (request : HttpRequest) (version : HttpVersion) : HttpRequest :=
  { request with version := version }

/-- `setPath`. -/
def setPath (request : HttpRequest) (path : Text) : HttpRequest :=
  { request with path := path }

/-- `setQuery`. -/
def setQuery (request : HttpRequest) (query : StringMap) : HttpRequest :=
  { request with query := query }

/-- `setRawBody`. -/
def setRawBody (request : HttpRequest) (rawBody : Text) : HttpRequest :=
  { request with rawBody := rawBody }

/-- `insertHeader`. -/
def insertHeader (request : HttpRequest) (key value : Text) : HttpRequest :=
  { request with headers := SortedAssoc.emplace (toLower key) (toLower value) request.headers }

end HttpRequest

end Brutils
