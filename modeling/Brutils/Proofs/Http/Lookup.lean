import Brutils.Proofs.Http.HeaderLines
import Brutils.Proofs.Http.RequestLine
import Mathlib.Data.List.Dedup

/-!
# `Brutils.Proofs.Http.Lookup`: headers and query parameters by name

`toLower` returns the empty string, so every header goes under the empty key, and every lookup
is one of the empty key. The first header decides what is there, and its value is empty as well
(`insertHeaders_headers`). A query comes to the same, because its strings are those of
`getString` (`parseQuery_queryMap`), and there they also have to fit.

So a lookup gives what it should exactly where an empty value is meant and no second name could
be told from the first: `found_by_name_iff` for headers and `query_found_iff` for a query.
-/

set_option autoImplicit false

namespace Brutils.Proofs.Http

open Brutils.RequestParser

/-! ### Headers -/

/-- A text in lower case. -/
def lower (text : Text) : Text := text.map Char.toLower

/-- A new request after some calls of `insertHeader`. -/
def insertHeaders (pairs : List (Text × Text)) : HttpRequest :=
  pairs.foldl (fun request pair => request.insertHeader pair.1 pair.2) {}

/-- The first pair with a name, in any letter case. -/
def firstNamed (key : Text) (pairs : List (Text × Text)) : Option (Text × Text) :=
  pairs.find? fun pair => lower pair.1 = lower key

/-- `header` finds the first value under a name, in lower case, and no other, whatever the letter
case of the names is. `headerMap` has one entry for each name. -/
structure FoundByName (pairs : List (Text × Text)) (key : Text) : Prop where
  found : ∀ pair ∈ firstNamed key pairs, (insertHeaders pairs).header key = some (lower pair.2)
  absent : (∀ pair ∈ pairs, lower pair.1 ≠ lower key) → (insertHeaders pairs).header key = none
  classes : (insertHeaders pairs).headerMap.length
    = (pairs.map fun pair => lower pair.1).dedup.length

section
variable {pairs : List (Text × Text)} {key : Text}

/-- The first pair has the name, whatever comes behind it. -/
theorem firstNamed_cons {first : Text × Text} (hkey : lower first.1 = lower key) :
    firstNamed key (first :: pairs) = some first :=
  List.find?_cons_of_pos (decide_eq_true hkey)

/-- Whatever is inserted, the empty key and the empty value go in. -/
theorem insertHeader_empty (request : HttpRequest) (key value : Text) :
    request.insertHeader key value = request.insertHeader [] [] := by
  simp only [HttpRequest.insertHeader, toLower_eq_nil]

/-- Insertions leave one header. -/
theorem foldl_insertHeader {request : HttpRequest} (h : request.headers = [([], [])]) :
    (pairs.foldl (fun request pair => request.insertHeader pair.1 pair.2) request).headers
      = [([], [])] := by
  induction pairs generalizing request with
  | nil => exact h
  | cons pair pairs ih =>
    rw [List.foldl_cons]
    refine ih ?_
    rw [insertHeader_empty, insertHeader_eq (Or.inr h)]

/-- The headers after some insertions. -/
theorem insertHeaders_headers (pairs : List (Text × Text)) :
    (insertHeaders pairs).headers = if pairs = [] then [] else [([], [])] := by
  cases pairs with
  | nil => rfl
  | cons pair pairs =>
    rw [if_neg (List.cons_ne_nil _ _), insertHeaders, List.foldl_cons]
    refine foldl_insertHeader ?_
    rw [insertHeader_empty, insertHeader_eq (Or.inl rfl)]

/-- Every lookup finds the empty value, if anything has been inserted. -/
theorem insertHeaders_header (pairs : List (Text × Text)) (key : Text) :
    (insertHeaders pairs).header key = if pairs = [] then none else some [] := by
  rw [HttpRequest.header, toLower_eq_nil, insertHeaders_headers]
  split
  · rfl
  · rfl

/-- A list with one value up to repetition. -/
theorem dedup_length_one_iff {α : Type} [DecidableEq α] {l : List α} {x : α} (hx : x ∈ l) :
    l.dedup.length = 1 ↔ ∀ y ∈ l, y = x := by
  constructor
  · intro hlength y hy
    obtain ⟨z, hz⟩ := List.length_eq_one_iff.mp hlength
    have hmem : ∀ w ∈ l, w = z := fun w hw => by
      have hw' := List.mem_dedup.mpr hw
      rw [hz] at hw'
      exact List.mem_singleton.mp hw'
    rw [hmem y hy, hmem x hx]
  · intro hall
    have hreplicate := List.eq_replicate_of_mem hall
    have hlength := (List.length_pos_of_mem hx).ne'
    rw [hreplicate, List.replicate_dedup hlength]
    rfl

/-- Headers are found by name exactly if there are none, or if all names are the one that is looked
up and its first value is empty. -/
theorem found_by_name_iff (pairs : List (Text × Text)) (key : Text) :
    FoundByName pairs key ↔
      ∀ first ∈ pairs.head?, first.2 = [] ∧ ∀ pair ∈ pairs, lower pair.1 = lower key := by
  cases pairs with
  | nil => exact iff_of_true ⟨nofun, fun _ => rfl, rfl⟩ nofun
  | cons first rest =>
    have hheader := insertHeaders_header (first :: rest) key
    have hmap := insertHeaders_headers (first :: rest)
    rw [if_neg (List.cons_ne_nil _ _)] at hheader hmap
    have hfirst : lower first.1 ∈ (first :: rest).map fun pair => lower pair.1 :=
      List.mem_map_of_mem List.mem_cons_self
    have hclasses := dedup_length_one_iff hfirst
    rw [List.forall_mem_map] at hclasses
    constructor
    · rintro ⟨hfound, habsent, hcount⟩ first' ⟨⟩
      rw [HttpRequest.headerMap, hmap] at hcount
      have hall := hclasses.mp hcount.symm
      -- something is found, so the name is there
      have hkey : lower first.1 = lower key := by
        by_contra hne
        have hnone := habsent fun pair hpair heq => hne ((hall pair hpair).symm.trans heq)
        rw [hheader] at hnone
        cases hnone
      have hvalue := hfound first (firstNamed_cons hkey)
      rw [hheader] at hvalue
      exact ⟨List.map_eq_nil_iff.mp (Option.some.inj hvalue).symm,
        fun pair hpair => (hall pair hpair).trans hkey⟩
    · intro h
      obtain ⟨hvalue, hall⟩ := h first rfl
      have hkey := hall first List.mem_cons_self
      refine ⟨fun pair hpair => ?_, fun habsent => ?_, ?_⟩
      · rw [firstNamed_cons hkey] at hpair
        cases hpair
        rw [hheader, hvalue]
        rfl
      · exact absurd hkey (habsent first List.mem_cons_self)
      · rw [HttpRequest.headerMap, hmap]
        exact (hclasses.mpr fun pair hpair => (hall pair hpair).trans hkey.symm).symm

/-- A header with a value: the lookup gives the empty string. -/
theorem value_not_found : ¬FoundByName [("Host".toList, "x".toList)] "host".toList := by
  intro h
  have hvalue := h.found ("Host".toList, "x".toList) (by decide)
  exact absurd hvalue (by decide)

end

/-! ### Query parameters -/

/-- `query` gives the value of each parameter, and `queryMap` has one entry for each. -/
structure QueryFound (pairs : List QueryPair) (request : HttpRequest) : Prop where
  found : ∀ pair ∈ pairs, request.queryAt pair.key = some pair.value
  length_eq : request.queryMap.length = pairs.length

section
variable {buffer : Text} {pos endPos : Nat} {pairs : List QueryPair}

/-- A pair has at least its `=`. -/
theorem pair_bytes_ne_nil (pair : QueryPair) : pair.bytes ≠ [] := by
  rw [QueryPair.bytes]
  split
  · exact pair.key_ne_nil
  · simp

/-- Only a query without pairs is empty. -/
theorem queryBytes_eq_nil_iff : queryBytes pairs = [] ↔ pairs = [] := by
  constructor
  · intro hnil
    cases pairs with
    | nil => rfl
    | cons pair pairs =>
      have hflatten : ∀ text ∈ List.intersperse ['&'] ((pair :: pairs).map QueryPair.bytes),
          text = [] := List.flatten_eq_nil_iff.mp hnil
      refine absurd (hflatten pair.bytes ?_) (pair_bytes_ne_nil pair)
      cases pairs with
      | nil => exact List.mem_cons_self
      | cons pair' pairs => exact List.mem_cons_self
  · rintro rfl
    rfl

/-- The strings for a pair are its key and its value. -/
theorem pieceStrings_bytes (pair : QueryPair) : pieceStrings pair.bytes = [pair.key, pair.value] := by
  have hkey : '=' ∉ pair.key := fun hmem => pair.key_freeOf '=' hmem (by simp)
  rw [pieceStrings, queryKey, queryValue, QueryPair.bytes]
  split
  · rename_i hbare
    rw [takeWhile_ne_of_not_mem hkey, dropWhile_ne_of_not_mem hkey, pair.bare_value hbare]
    rfl
  · rw [takeWhile_ne hkey, dropWhile_ne hkey, List.tail_cons]

/-- The strings for one pair. -/
theorem queryStrings_singleton (pair : QueryPair) :
    queryStrings (queryBytes [pair]) = [pair.key, pair.value] := by
  have hfree : '&' ∉ pair.bytes := by
    rw [QueryPair.bytes]
    have hkey : '&' ∉ pair.key := fun hmem => pair.key_freeOf '&' hmem (by simp)
    split
    · exact hkey
    · intro hmem
      rcases List.mem_append.mp hmem with hmem | hmem
      · exact hkey hmem
      · exact pair.value_freeOf '&' ((List.mem_cons.mp hmem).resolve_left (by decide)) (by simp)
  have hbytes : queryBytes [pair] = pair.bytes := List.append_nil _
  rw [hbytes, queryStrings_last (pair_bytes_ne_nil pair) hfree, pieceStrings_bytes]

section
variable [StandardLibrary]

/-- What `parseQuery` makes of the bytes of some pairs, if their strings fit. -/
theorem parseQuery_queryMap (h : Spans buffer pos endPos (queryBytes pairs))
    (request : HttpRequest) :
    (parseQuery buffer pos endPos request).map (fun result => result.2.2.queryMap)
      = if Fit (queryStrings (queryBytes pairs)) then some (if pairs = [] then [] else [([], [])])
        else none := by
  have hlength : (queryBytes pairs).length ≤ endPos - pos := by
    rw [h.endPos_eq]
    omega
  rw [parseQuery, queryLoop_result (endPos - pos) h hlength (Or.inl rfl)]
  split
  · exact congrArg some (if_congr queryBytes_eq_nil_iff rfl rfl)
  · rfl

/-- `parseQuery` returns, and its request has the parameters. -/
def QueryParsed (buffer : Text) (pos endPos : Nat) (pairs : List QueryPair)
    (request : HttpRequest) : Prop :=
  ∃ result ∈ parseQuery buffer pos endPos request, QueryFound pairs result.2.2

/-- Every parameter of a query is found exactly if there is at most one, it has no value, and an empty
string has the memory for its key. Whether the keys differ makes no difference. -/
theorem query_found_iff (h : Spans buffer pos endPos (queryBytes pairs))
    (request : HttpRequest) : QueryParsed buffer pos endPos pairs request ↔
      pairs.length ≤ 1 ∧ ∀ pair ∈ pairs, pair.value = [] ∧
        pair.key.length ≤ StandardLibrary.emptyCapacity := by
  have hmap := parseQuery_queryMap h request
  cases pairs with
  | nil =>
    rw [show queryBytes [] = [] from rfl, queryStrings_nil, if_pos fit_nil, if_pos rfl] at hmap
    obtain ⟨result, hresult, hmap⟩ := Option.map_eq_some_iff.mp hmap
    exact iff_of_true ⟨result, hresult, nofun, congrArg List.length hmap⟩ ⟨Nat.zero_le 1, nofun⟩
  | cons pair rest =>
    rw [if_neg (List.cons_ne_nil _ _)] at hmap
    -- whatever is parsed, the map has one entry, and its key is empty
    have hfound : ∀ result ∈ parseQuery buffer pos endPos request,
        result.2.2.query = [([], [])] := by
      intro result hresult
      rw [Option.mem_def.mp hresult] at hmap
      split at hmap
      · exact Option.some.inj hmap
      · cases hmap
    constructor
    · rintro ⟨result, hresult, hvalues, hlength⟩
      have hquery := hfound result hresult
      rw [HttpRequest.queryMap, hquery] at hlength
      -- an entry for each pair: so there is one pair
      obtain rfl := List.length_eq_zero_iff.mp (Nat.succ.inj hlength).symm
      have hvalue := hvalues pair List.mem_cons_self
      rw [HttpRequest.queryAt, toLower_eq_nil, hquery] at hvalue
      have hvalue : pair.value = [] := (Option.some.inj hvalue).symm
      have hfit : Fit [pair.key, pair.value] := by
        by_contra hfit
        rw [queryStrings_singleton, if_neg hfit, Option.mem_def.mp hresult] at hmap
        cases hmap
      refine ⟨le_refl 1, fun pair' hpair' => ?_⟩
      rw [List.mem_singleton.mp hpair']
      exact ⟨hvalue, (fit_pair.mp hfit).1⟩
    · rintro ⟨hlength, hvalues⟩
      obtain rfl := List.length_eq_zero_iff.mp (Nat.le_zero.mp (Nat.le_of_succ_le_succ hlength))
      obtain ⟨hvalue, hkey⟩ := hvalues pair List.mem_cons_self
      have hfit : Fit [pair.key, pair.value] := by
        rw [hvalue]
        exact fit_pair_nil.mpr hkey
      rw [queryStrings_singleton, if_pos hfit] at hmap
      obtain ⟨result, hresult, hquery⟩ := Option.map_eq_some_iff.mp hmap
      refine ⟨result, hresult, fun pair' hpair' => ?_, congrArg List.length hquery⟩
      rw [HttpRequest.queryAt, toLower_eq_nil, hfound result hresult, List.mem_singleton.mp hpair',
        hvalue]
      rfl

end

/-- One parameter without a value. -/
def barePair : QueryPair := ⟨"a".toList, [], true, by decide, by decide, by decide, fun _ => rfl⟩

/-- One parameter with a value. -/
def pairWithValue : QueryPair :=
  ⟨"a".toList, "b".toList, false, by decide, by decide, by decide,
    fun h => absurd h Bool.false_ne_true⟩

section
open Libstdcxx

/-- The parameter without a value is found. -/
theorem query_found_bare : QueryParsed "a".toList 0 1 [barePair] {} := by
  have hspans : Spans "a".toList 0 1 (queryBytes [barePair]) := ⟨rfl, by decide⟩
  exact (query_found_iff hspans {}).mpr ⟨by decide, by decide⟩

/-- The lookup of the one with a value gives the empty string. -/
theorem query_value_not_found :
    ¬QueryParsed (queryBytes [pairWithValue]) 0 3 [pairWithValue] {} := by
  rintro ⟨result, hresult, hfound, -⟩
  have hcall : parseQuery (queryBytes [pairWithValue]) 0 3 {} =
      some (true, 4, { query := [([], [])] }) := by decide
  cases (Option.mem_def.mp hresult).symm.trans hcall
  exact absurd (hfound pairWithValue List.mem_cons_self) (by decide)

end

end

end Brutils.Proofs.Http
