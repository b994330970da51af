import Brutils.Http.Message
import Brutils.Proofs.Http.Ranges

/-!
# `Brutils.Proofs.Http.RequestLine`: which request lines are accepted

`parsePathAndQuery` finds the space behind the URI and does not step over it. The only thing
that does so is the loop of `parseQuery`, which steps over the character behind the last pair.
After an empty query and after an `&` there is no last pair, and without a query there is no
loop (`queryLoop_pos`). Then `parseVersion` reads a space first, and the line is rejected.

Before that, `getString` has written the path and the keys and values of the query into empty strings.
Where the memory of one does not hold what is written, the parser does not get to the version
(`parseRequestLine_overrun`).

So a request line is accepted exactly if its strings fit, it is well formed, and it has a query that
is not empty and does not end in `&` (`parseRequestLine_true_iff`). `request_line_accepted_iff` says
for which lines this makes no difference.
-/

set_option autoImplicit false

namespace Brutils.Proofs.Http

open Brutils.RequestParser

/-! ### The tables -/

/-- The names of the methods differ, so that looking one up is to find its pair. -/
theorem methodMap_lookup_iff {name : Text} {method : HttpMethod} :
    methodMap.lookup name = some method ↔ (name, method) ∈ methodMap := by
  refine ⟨fun h => ?_, fun h => ?_⟩
  · obtain ⟨l₁, l₂, hmap, -⟩ := List.lookup_eq_some_iff.mp h
    rw [hmap]
    exact List.mem_append_right _ List.mem_cons_self
  · have hall : ∀ p ∈ methodMap, methodMap.lookup p.1 = some p.2 := by decide
    exact hall _ h

/-- The names of the versions differ, so that looking one up is to find its pair. -/
theorem versionMap_lookup_iff {name : Text} {version : HttpVersion} :
    versionMap.lookup name = some version ↔ (name, version) ∈ versionMap := by
  refine ⟨fun h => ?_, fun h => ?_⟩
  · obtain ⟨l₁, l₂, hmap, -⟩ := List.lookup_eq_some_iff.mp h
    rw [hmap]
    exact List.mem_append_right _ List.mem_cons_self
  · have hall : ∀ p ∈ versionMap, versionMap.lookup p.1 = some p.2 := by decide
    exact hall _ h

/-- No method has a space in its name. -/
theorem space_not_mem_method {method : Text × HttpMethod} (h : method ∈ methodMap) :
    ' ' ∉ method.1 := by
  have hall : ∀ p ∈ methodMap, ' ' ∉ p.1 := by decide
  exact hall _ h

/-- No version begins with a space. -/
theorem versionMap_lookup_space (text : Text) : versionMap.lookup (' ' :: text) = none := by
  simp [versionMap, List.lookup_cons]

/-! ### The cursor in the request line -/

/-- The loop of `parseQuery` comes to the end of a query and not behind it. -/
def StopsAtEnd (query : Text) : Prop := query = [] ∨ query.getLast? = some '&'

instance (query : Text) : Decidable (StopsAtEnd query) :=
  inferInstanceAs (Decidable (query = [] ∨ query.getLast? = some '&'))

/-- The empty query ends where it begins. -/
theorem stopsAtEnd_nil : StopsAtEnd [] := Or.inl rfl

/-- Only what is behind the last `&` matters. -/
theorem stopsAtEnd_append (front back : Text) :
    StopsAtEnd (front ++ '&' :: back) ↔ StopsAtEnd back := by
  rw [StopsAtEnd, StopsAtEnd, List.getLast?_append]
  cases back with
  | nil => simp
  | cons c back => simp

/-! ### The strings of a query -/

section
variable {text front : Text}

/-- A query without `&` is one piece. -/
theorem queryPieces_last (hne : text ≠ []) (h : '&' ∉ text) : queryPieces text = [text] := by
  rw [queryPieces, List.splitOn_eq_singleton h]
  refine if_neg ?_
  show some text ≠ some []
  exact fun heq => hne (Option.some.inj heq)

/-- What stands before the first `&` is a piece, whatever follows. -/
theorem queryPieces_cons (h : '&' ∉ front) (back : Text) :
    queryPieces (front ++ '&' :: back) = front :: queryPieces back := by
  have hne : back.splitOn '&' ≠ [] := List.splitOn_ne_nil _ _
  rw [queryPieces, List.splitOn_append_cons_self_of_not_mem h, queryPieces]
  cases hsplit : back.splitOn '&' with
  | nil => exact absurd hsplit hne
  | cons piece pieces =>
    show (if (front :: piece :: pieces).getLast? = some [] then _ else _) = _
    rw [List.getLast?_cons_cons, List.dropLast_cons_cons]
    show (if (piece :: pieces).getLast? = some [] then _ else _) =
      front :: (if (piece :: pieces).getLast? = some [] then _ else _)
    rw [← apply_ite (List.cons front)]

/-- The strings of an empty query: there are none. -/
theorem queryStrings_nil : queryStrings [] = [] := rfl

/-- The strings of a query with one piece. -/
theorem queryStrings_last (hne : text ≠ []) (h : '&' ∉ text) :
    queryStrings text = pieceStrings text := by
  rw [queryStrings, queryPieces_last hne h, List.flatMap_singleton]

/-- The strings of the first piece come first. -/
theorem queryStrings_cons (h : '&' ∉ front) (back : Text) :
    queryStrings (front ++ '&' :: back) = pieceStrings front ++ queryStrings back := by
  rw [queryStrings, queryPieces_cons h, List.flatMap_cons, queryStrings]

end

section
variable [StandardLibrary] {buffer text : Text} {pos endPos : Nat} (request : HttpRequest)

/-- A pass of the loop of `parseQuery`. The strings that `getString` returns are empty, and it returns
them if they fit. -/
theorem addPair_eq {query : StringMap} (hquery : query = [] ∨ query = [([], [])])
    (h : Spans buffer pos endPos text) :
    addPair buffer pos query endPos = if Fit (pieceStrings text) then some [([], [])] else none := by
  have hempty := emplace_nil hquery
  rw [pieceStrings, queryKey, queryValue]
  rcases split_at '=' text with hnone | ⟨key, value, rfl, hkey⟩
  · rw [takeWhile_ne_of_not_mem hnone, dropWhile_ne_of_not_mem hnone, List.tail_nil,
      if_congr fit_pair_nil rfl rfl]
    simp only [addPair, find_eq_endPos h hnone, if_true, getString_spans h]
    split
    · exact congrArg some hempty
    · rfl
  · have hend := h.behind.pos_le
    rw [takeWhile_ne hkey, dropWhile_ne hkey, List.tail_cons]
    simp only [addPair, find_eq h hkey, getString_spans h.left, getString_spans h.behind]
    rw [if_neg (by omega), if_congr fit_pair rfl rfl]
    by_cases hkeyFits : key.length ≤ StandardLibrary.emptyCapacity
    · rw [if_pos hkeyFits, if_congr (and_iff_right hkeyFits) rfl rfl]
      split
      · exact congrArg some hempty
      · rfl
    · have hpair : ¬(key.length ≤ StandardLibrary.emptyCapacity ∧
          value.length ≤ StandardLibrary.emptyCapacity) := fun h => hkeyFits h.1
      rw [if_neg hkeyFits, if_neg hpair]
      rfl

/-- The loop of `parseQuery`: where it leaves the cursor, and what it makes of a query. All keys and
values are empty, so there is one pair, unless the query is empty. If one of the strings does not
fit, the loop does not end. -/
theorem queryLoop_result (fuel : Nat) (h : Spans buffer pos endPos text)
    (hfuel : text.length ≤ fuel) {query : StringMap} (hquery : query = [] ∨ query = [([], [])]) :
    queryLoop buffer endPos fuel pos query =
      if Fit (queryStrings text) then
        some (if StopsAtEnd text then endPos else endPos + 1,
          if text = [] then query else [([], [])])
      else none := by
  induction fuel generalizing pos text query with
  | zero =>
    obtain rfl := List.eq_nil_of_length_eq_zero (Nat.le_zero.mp hfuel)
    rw [queryStrings_nil, if_pos fit_nil, if_pos stopsAtEnd_nil, if_pos rfl, queryLoop, h.endPos_eq]
    rfl
  | succ fuel ih =>
    have hend := h.endPos_eq
    rw [queryLoop]
    by_cases hnil : text = []
    · subst hnil
      rw [if_neg (by rw [hend]; exact lt_irrefl _), queryStrings_nil, if_pos fit_nil,
        if_pos stopsAtEnd_nil, if_pos rfl, hend]
      rfl
    · have hlength : 0 < text.length := List.length_pos_iff.mpr hnil
      rw [if_pos (by omega), if_neg hnil]
      simp only
      rcases split_at '&' text with hnone | ⟨front, back, rfl, hfront⟩
      · -- the last pair: the loop steps over the character behind the query
        have hopen : ¬StopsAtEnd text := by
          rintro (hempty | hlast)
          · exact hnil hempty
          · exact hnone (List.mem_of_getLast? hlast)
        rw [find_eq_endPos h hnone, if_neg hopen, addPair_eq hquery h, queryStrings_last hnil hnone]
        split
        · cases fuel with
          | zero => rfl
          | succ fuel =>
            show queryLoop buffer endPos (fuel + 1) (endPos + 1) [([], [])] = _
            rw [queryLoop, if_neg (by omega)]
        · rfl
      · -- a pair with `&` behind it, and the rest
        rw [List.length_append, List.length_cons] at hfuel
        rw [find_eq h hfront, addPair_eq hquery h.left, queryStrings_cons hfront,
          if_congr fit_append rfl rfl, if_congr (stopsAtEnd_append front back) rfl rfl]
        by_cases hfit : Fit (pieceStrings front)
        · rw [if_pos hfit, if_congr (and_iff_right hfit) rfl rfl]
          show queryLoop buffer endPos fuel (pos + front.length + 1) [([], [])] = _
          rw [ih h.behind (by omega) (Or.inr rfl), ite_self]
        · rw [if_neg hfit, if_neg fun h => hfit h.1]
          rfl

omit [StandardLibrary] in
/-- `parseMethod` fails where it is, or takes the name of a method and the space behind it. -/
theorem parseMethod_cases (h : Spans buffer pos endPos text) :
    parseMethod buffer pos endPos request = (false, pos, request) ∨
    ∃ method ∈ methodMap, ∃ back, text = method.1 ++ ' ' :: back ∧
      parseMethod buffer pos endPos request
        = (true, pos + method.1.length + 1, request.setMethod method.2) := by
  rw [parseMethod]
  rcases split_at ' ' text with hnone | ⟨front, back, rfl, hfront⟩
  · rw [find_eq_endPos h hnone, if_pos rfl]
    exact Or.inl rfl
  · have hend := h.behind.pos_le
    rw [find_eq h hfront, if_neg (by omega), h.left.slice]
    cases hlookup : methodMap.lookup front with
    | none => exact Or.inl rfl
    | some method =>
      exact Or.inr ⟨(front, method), methodMap_lookup_iff.mp hlookup, back, rfl, rfl⟩

omit [StandardLibrary] in
/-- `parseMethod` of the name of a method and a space. -/
theorem parseMethod_eq {method : Text × HttpMethod} (hmethod : method ∈ methodMap) {back : Text}
    (h : Spans buffer pos endPos (method.1 ++ ' ' :: back)) :
    parseMethod buffer pos endPos request
      = (true, pos + method.1.length + 1, request.setMethod method.2) := by
  have hend := h.behind.pos_le
  rw [parseMethod, find_eq h (space_not_mem_method hmethod), if_neg (by omega), h.left.slice,
    methodMap_lookup_iff.mpr hmethod]

/-- `parsePath` takes the whole range, unless it is empty. -/
theorem parsePath_eq (h : Spans buffer pos endPos text) :
    parsePath buffer pos endPos request =
      if text = [] then some (false, pos, request)
      else if text.length ≤ StandardLibrary.emptyCapacity then
        some (true, endPos, request.setPath [])
      else none := by
  have hend := h.endPos_eq
  rw [parsePath, getString_spans h]
  by_cases hnil : text = []
  · subst hnil
    rw [if_pos (show endPos ≤ pos from hend.le), if_pos rfl]
  · have hlength := List.length_pos_iff.mpr hnil
    rw [if_neg (by omega), if_neg hnil]
    split
    · rfl
    · rfl

/-- Without a query the cursor stops at the space behind the URI. -/
theorem parsePathAndQuery_path {uri back : Text} (huri : ' ' ∉ uri) (hpath : '?' ∉ uri)
    (h : Spans buffer pos endPos (uri ++ ' ' :: back)) :
    parsePathAndQuery buffer pos endPos request =
      if Fit (uriStrings uri) then
        some (true, pos + uri.length, if uri = [] then request else request.setPath [])
      else none := by
  have hend := h.behind.pos_le
  have hstrings : Fit (uriStrings uri) ↔ uri.length ≤ StandardLibrary.emptyCapacity := by
    rw [uriStrings, cut, if_neg hpath, fit_cons]
    exact and_iff_left fit_nil
  simp only [parsePathAndQuery, find_eq h huri, find_eq_endPos h.left hpath, if_true,
    parsePath_eq _ h.left]
  rw [if_neg (by omega), if_congr hstrings rfl rfl]
  by_cases hnil : uri = []
  · subst hnil
    rw [if_pos rfl, if_pos (show ([] : Text).length ≤ _ from Nat.zero_le _), if_pos rfl]
    rfl
  · rw [if_neg hnil, if_neg hnil]
    split
    · rfl
    · rfl

/-- With a query and no path, `parsePathAndQuery` fails where it is. -/
theorem parsePathAndQuery_no_path {query back : Text} (hquery : ' ' ∉ query)
    (h : Spans buffer pos endPos ('?' :: query ++ ' ' :: back)) :
    parsePathAndQuery buffer pos endPos request = some (false, pos, request) := by
  have huri : ' ' ∉ '?' :: query := List.not_mem_cons_of_ne_of_not_mem (by decide) hquery
  have hend := h.behind.pos_le
  have hmark : Spans buffer pos (pos + ('?' :: query).length) ([] ++ '?' :: query) := h.left
  have huriEnd := hmark.behind.pos_le
  rw [List.length_nil, Nat.add_zero] at huriEnd
  have hempty : parsePath buffer pos pos request = some (false, pos, request) :=
    if_pos (le_refl pos)
  simp only [parsePathAndQuery, find_eq h huri, find_eq hmark List.not_mem_nil, List.length_nil,
    Nat.add_zero, hempty]
  rw [if_neg (by omega), if_neg (by omega)]
  rfl

/-- With a path and a query the cursor stops at the space behind the URI, or steps over it. -/
theorem parsePathAndQuery_query {path query back : Text} (hne : path ≠ [])
    (hpath : FreeOf [' ', '?'] path) (hquery : ' ' ∉ query)
    (h : Spans buffer pos endPos ((path ++ '?' :: query) ++ ' ' :: back)) :
    parsePathAndQuery buffer pos endPos request =
      if Fit (uriStrings (path ++ '?' :: query)) then
        some (true, pos + (path ++ '?' :: query).length + (if StopsAtEnd query then 0 else 1),
          (request.setPath []).setQuery (if query = [] then [] else [([], [])]))
      else none := by
  have huri : ' ' ∉ path ++ '?' :: query := by
    intro hmem
    rcases List.mem_append.mp hmem with hmem | hmem
    · exact hpath ' ' hmem (by simp)
    · exact hquery ((List.mem_cons.mp hmem).resolve_left (by decide))
  have hmark : '?' ∉ path := fun hmem => hpath '?' hmem (by simp)
  have hstrings : Fit (uriStrings (path ++ '?' :: query)) ↔
      path.length ≤ StandardLibrary.emptyCapacity ∧ Fit (queryStrings query) := by
    rw [uriStrings, cut_append hmark]
    simp only [if_neg hne, fit_cons]
  have hend := h.behind.pos_le
  have huriEnd := h.left.behind.pos_le
  have hlength : (path ++ '?' :: query).length = path.length + (query.length + 1) := by
    rw [List.length_append, List.length_cons]
  -- the loop runs over the query, from behind the `?`
  have hloop := queryLoop_result (pos + (path ++ '?' :: query).length - (pos + path.length + 1))
    h.left.behind (by omega) (Or.inl rfl)
  simp only [parsePathAndQuery, find_eq h huri, find_eq h.left hmark, parsePath_eq _ h.left.left,
    if_neg hne]
  rw [if_neg (by omega), if_neg (by omega), if_congr hstrings rfl rfl]
  by_cases hfit : path.length ≤ StandardLibrary.emptyCapacity
  · rw [if_pos hfit, if_congr (and_iff_right hfit) rfl rfl]
    show parseQuery buffer (pos + path.length + 1) _ (request.setPath []) = _
    rw [parseQuery, hloop]
    by_cases hquery : Fit (queryStrings query)
    · rw [if_pos hquery, if_pos hquery]
      by_cases hstop : StopsAtEnd query
      · rw [if_pos hstop, if_pos hstop]
        rfl
      · rw [if_neg hstop, if_neg hstop]
        rfl
    · rw [if_neg hquery, if_neg hquery]
      rfl
  · rw [if_neg hfit, if_neg fun h => hfit h.1]
    rfl

/-- Where `parsePathAndQuery` leaves the cursor. It is behind the space only if there is a path
and a query that the loop steps over. -/
theorem parsePathAndQuery_cases {uri back : Text} (huri : ' ' ∉ uri) (hfit : Fit (uriStrings uri))
    (h : Spans buffer pos endPos (uri ++ ' ' :: back)) :
    parsePathAndQuery buffer pos endPos request = some (false, pos, request) ∨
    (∃ request', parsePathAndQuery buffer pos endPos request
      = some (true, pos + uri.length, request')) ∨
    ∃ path query request', uri = path ++ '?' :: query ∧ path ≠ [] ∧ FreeOf [' ', '?'] path ∧
      FreeOf [' '] query ∧ ¬StopsAtEnd query ∧
      parsePathAndQuery buffer pos endPos request
        = some (true, pos + uri.length + 1, request') := by
  rcases split_at '?' uri with hnone | ⟨path, query, rfl, hmark⟩
  · have hcall := parsePathAndQuery_path request huri hnone h
    rw [if_pos hfit] at hcall
    exact Or.inr (Or.inl ⟨_, hcall⟩)
  · have hquery : ' ' ∉ query := fun hmem =>
      huri (List.mem_append_right _ (List.mem_cons_of_mem _ hmem))
    by_cases hne : path = []
    · subst hne
      exact Or.inl (parsePathAndQuery_no_path request hquery h)
    · have hpath : FreeOf [' ', '?'] path := by
        intro c hc hmem
        rcases List.mem_pair.mp hmem with rfl | rfl
        · exact huri (List.mem_append_left _ hc)
        · exact hmark hc
      have hcall := parsePathAndQuery_query request hne hpath hquery h
      rw [if_pos hfit] at hcall
      split at hcall
      · exact Or.inr (Or.inl ⟨_, hcall⟩)
      · rename_i hopen
        refine Or.inr (Or.inr ⟨path, query, _, rfl, hne, hpath, ?_, hopen, hcall⟩)
        intro c hc hmem
        rw [List.mem_singleton.mp hmem] at hc
        exact hquery hc

/-- A string that does not fit: `parsePathAndQuery` does not return. -/
theorem parsePathAndQuery_overrun {uri back : Text} (huri : ' ' ∉ uri)
    (hfit : ¬Fit (uriStrings uri)) (h : Spans buffer pos endPos (uri ++ ' ' :: back)) :
    parsePathAndQuery buffer pos endPos request = none := by
  rcases split_at '?' uri with hnone | ⟨path, query, rfl, hmark⟩
  · rw [parsePathAndQuery_path request huri hnone h, if_neg hfit]
  · have hne : path ≠ [] := by
      rintro rfl
      rw [uriStrings, cut_append hmark] at hfit
      exact hfit fit_nil
    have hquery : ' ' ∉ query := fun hmem =>
      huri (List.mem_append_right _ (List.mem_cons_of_mem _ hmem))
    have hpath : FreeOf [' ', '?'] path := by
      intro c hc hmem
      rcases List.mem_pair.mp hmem with rfl | rfl
      · exact huri (List.mem_append_left _ hc)
      · exact hmark hc
    rw [parsePathAndQuery_query request hne hpath hquery h, if_neg hfit]

/-- `parsePathAndQuery` without a space in the range. -/
theorem parsePathAndQuery_no_space (h : Spans buffer pos endPos text) (htext : ' ' ∉ text) :
    parsePathAndQuery buffer pos endPos request = some (false, pos, request) := by
  simp only [parsePathAndQuery, find_eq_endPos h htext, if_true]

omit [StandardLibrary] in
/-- `parseVersion` takes the whole range if it holds the name of a version. -/
theorem parseVersion_eq {version : Text × HttpVersion} (hversion : version ∈ versionMap)
    (h : Spans buffer pos endPos version.1) :
    parseVersion buffer pos endPos request = (true, endPos, request.setVersion version.2) := by
  rw [parseVersion, h.slice, versionMap_lookup_iff.mpr hversion]

omit [StandardLibrary] in
/-- Otherwise it fails where it is. -/
theorem parseVersion_cases (h : Spans buffer pos endPos text) :
    parseVersion buffer pos endPos request = (false, pos, request) ∨
      ∃ version ∈ versionMap, text = version.1 := by
  rw [parseVersion, h.slice]
  cases hlookup : versionMap.lookup text with
  | none => exact Or.inl rfl
  | some version => exact Or.inr ⟨(text, version), versionMap_lookup_iff.mp hlookup, rfl⟩

end

/-! ### The request line -/

/-- The line has a query, and the loop of `parseQuery` steps over the space behind it. -/
def HasOpenQuery (line : RequestLine) : Prop := ∃ query ∈ line.query, ¬StopsAtEnd query

/-- A well-formed request line that is readable. -/
def AcceptedText (text : Text) : Prop := ∃ line : RequestLine, line.text = text ∧ HasOpenQuery line

/-- A well-formed request line is not empty. -/
theorem text_ne_nil (line : RequestLine) : line.text ≠ [] := by
  rw [RequestLine.text]
  simp

/-- The part between the spaces has no space. -/
theorem space_not_mem_uri (line : RequestLine) : ' ' ∉ line.uri := by
  intro hmem
  rw [RequestLine.uri] at hmem
  rcases List.mem_append.mp hmem with hpath | hquery
  · exact line.path_freeOf ' ' hpath (by simp)
  · cases hq : line.query with
    | none =>
      rw [hq] at hquery
      exact List.not_mem_nil hquery
    | some query =>
      rw [hq] at hquery
      refine line.query_freeOf query hq ' ' ?_ List.mem_cons_self
      exact (List.mem_cons.mp hquery).resolve_left (by decide)

/-- The strings for a line that begins with a method and a part between two spaces. -/
theorem lineStrings_eq {method : Text × HttpMethod} (hmethod : method ∈ methodMap) {uri : Text}
    (huri : ' ' ∉ uri) (back : Text) :
    lineStrings (method.1 ++ ' ' :: (uri ++ ' ' :: back)) = uriStrings uri := by
  rw [lineStrings, cut_append (space_not_mem_method hmethod)]
  simp only [methodMap_lookup_iff.mpr hmethod, cut_append huri]
  rfl

/-- The request after a request line that is readable. -/
def RequestLine.read (line : RequestLine) (request : HttpRequest) : HttpRequest :=
  { request with
    method := line.method.2
    version := line.version.2
    path := []
    query := [([], [])] }

section
variable [StandardLibrary] {buffer text : Text} {pos : Nat} (request : HttpRequest)

/-- A request line that is readable and whose strings fit is accepted. The cursor steps over two
characters behind it. -/
theorem parseRequestLine_accepted {line : RequestLine} (hopen : HasOpenQuery line)
    (hfit : Fit (lineStrings line.text)) (h : LineAt buffer pos line.text) :
    parseRequestLine buffer pos buffer.length request = some (true,
      pos + line.text.length + newLine.length, RequestLine.read line request, []) := by
  rw [RequestLine.text, lineStrings_eq line.method_mem (space_not_mem_uri line)] at hfit
  obtain ⟨query, hquery, hopen⟩ := hopen
  have huri : line.uri = line.path ++ '?' :: query := by
    rw [RequestLine.uri, Option.mem_def.mp hquery]
  have hspans : Spans buffer pos (pos + line.text.length)
      (line.method.1 ++ ' ' :: ((line.path ++ '?' :: query) ++ ' ' :: line.version.1)) := by
    rw [← huri]
    exact h.spans
  have hpos : pos ≠ buffer.length := by
    cases htext : line.text with
    | nil => exact absurd htext (text_ne_nil line)
    | cons c back =>
      have hspans' := h.spans
      rw [htext] at hspans'
      exact hspans'.pos_lt.ne
  have hcall := parsePathAndQuery_query (request.setMethod line.method.2)
    line.path_ne_nil line.path_freeOf
    (fun hmem => line.query_freeOf query hquery ' ' hmem List.mem_cons_self) hspans.behind
  rw [← huri, if_pos hfit, huri, if_neg hopen, if_neg fun hnil => hopen (Or.inl hnil)] at hcall
  simp only [parseRequestLine, if_neg hpos, h.lineEnd, parseMethod_eq request line.method_mem hspans,
    hcall, Option.bind_eq_bind, Option.bind_some,
    parseVersion_eq _ line.version_mem hspans.behind.behind]
  rfl

/-- A line with a string that does not fit: `parseRequestLine` does not return. -/
theorem parseRequestLine_overrun (hfit : ¬Fit (lineStrings text)) (h : LineAt buffer pos text) :
    parseRequestLine buffer pos buffer.length request = none := by
  have hpos : pos ≠ buffer.length := by
    rintro rfl
    have hnil := h.spans.holds.length_le
    rw [List.length_drop, Nat.sub_self, Nat.le_zero, List.length_eq_zero_iff] at hnil
    subst hnil
    exact hfit fit_nil
  have hmethod := parseMethod_cases request h.spans
  rw [lineStrings] at hfit
  rcases split_at ' ' text with hnone | ⟨front, back, rfl, hfront⟩
  · rw [cut, if_neg hnone] at hfit
    exact absurd fit_nil hfit
  · simp only [cut_append hfront] at hfit
    cases hlookup : methodMap.lookup front with
    | none =>
      rw [if_pos hlookup] at hfit
      exact absurd fit_nil hfit
    | some method =>
      rw [if_neg (by rw [hlookup]; exact Option.some_ne_none method)] at hfit
      have hcall := parseMethod_eq request (methodMap_lookup_iff.mp hlookup) h.spans
      rcases split_at ' ' back with hnone | ⟨uri, version, rfl, huri⟩
      · rw [cut, if_neg hnone] at hfit
        exact absurd fit_nil hfit
      · simp only [cut_append huri] at hfit
        simp only [parseRequestLine, if_neg hpos, h.lineEnd, hcall,
          parsePathAndQuery_overrun _ huri hfit h.spans.behind]
        rfl

/-- If the strings of a line fit, it is rejected with the cursor left in it, or it is well formed and
readable. -/
theorem parseRequestLine_cases (hfit : Fit (lineStrings text)) (h : LineAt buffer pos text) :
    (∃ pos' request' errors, parseRequestLine buffer pos buffer.length request
        = some (false, pos', request', errors) ∧ pos' ≤ pos + text.length) ∨ AcceptedText text := by
  rw [parseRequestLine]
  by_cases hpos : pos = buffer.length
  · rw [if_pos hpos]
    exact Or.inl ⟨pos, request, [], rfl, Nat.le_add_right _ _⟩
  · rw [if_neg hpos]
    simp only [h.lineEnd]
    rcases parseMethod_cases request h.spans with hcall | ⟨method, hmethod, back, rfl, hcall⟩
    · simp only [hcall]
      exact Or.inl ⟨_, _, _, rfl, Nat.le_add_right _ _⟩
    · simp only [hcall]
      have hback := h.spans.behind
      rcases split_at ' ' back with hnone | ⟨uri, version, rfl, huri⟩
      · rw [parsePathAndQuery_no_space _ hback hnone]
        exact Or.inl ⟨_, _, _, rfl, hback.pos_le⟩
      · have hversion := hback.behind
        rw [lineStrings_eq hmethod huri] at hfit
        -- the stage of the URI is rejected, or ends at the space, or one behind it
        rcases parsePathAndQuery_cases (request.setMethod method.2) huri hfit hback with
          hcall | ⟨request', hcall⟩ |
          ⟨path, query, request', rfl, hne, hpath, hquery, hopen, hcall⟩
        · rw [hcall]
          exact Or.inl ⟨_, _, _, rfl, hback.pos_le⟩
        · -- the cursor is at the space, and no version begins with one
          simp only [hcall, Option.bind_eq_bind, Option.bind_some]
          rcases parseVersion_cases request' hback.right with hcall' | ⟨v, hv, heq⟩
          · simp only [hcall']
            exact Or.inl ⟨_, _, _, rfl, hback.right.pos_le⟩
          · have hlookup := versionMap_lookup_iff.mpr hv
            rw [← heq, versionMap_lookup_space] at hlookup
            cases hlookup
        · simp only [hcall, Option.bind_eq_bind, Option.bind_some]
          rcases parseVersion_cases request' hversion with hcall' | ⟨v, hv, rfl⟩
          · simp only [hcall']
            exact Or.inl ⟨_, _, _, rfl, hversion.pos_le⟩
          · refine Or.inr ⟨⟨method, path, some query, v, hmethod, hv, hne, hpath, ?_⟩, rfl, query,
              rfl, hopen⟩
            rintro query' ⟨⟩
            exact hquery

/-- A line is accepted exactly if its strings fit and it is a well-formed request line that is
readable. -/
theorem parseRequestLine_true_iff (h : LineAt buffer pos text) :
    (∃ pos' request' errors, parseRequestLine buffer pos buffer.length request
      = some (true, pos', request', errors)) ↔ Fit (lineStrings text) ∧ AcceptedText text := by
  constructor
  · rintro ⟨pos', request', errors, htrue⟩
    by_cases hfit : Fit (lineStrings text)
    · rcases parseRequestLine_cases request hfit h with ⟨_, _, _, hcall, -⟩ | haccepted
      · rw [hcall] at htrue
        cases htrue
      · exact ⟨hfit, haccepted⟩
    · rw [parseRequestLine_overrun request hfit h] at htrue
      cases htrue
  · rintro ⟨hfit, line, rfl, hopen⟩
    exact ⟨_, _, _, parseRequestLine_accepted request hopen hfit h⟩

end

/-- The query of a request line can be told from its text. -/
theorem query_unique {line line' : RequestLine} (h : line.text = line'.text) :
    line.query = line'.query := by
  obtain ⟨-, hback⟩ := first_unique (space_not_mem_method line.method_mem)
    (space_not_mem_method line'.method_mem) h
  obtain ⟨huri, -⟩ := first_unique (space_not_mem_uri line) (space_not_mem_uri line') hback
  have hmark : ∀ line : RequestLine, '?' ∉ line.path := fun line hmem =>
    line.path_freeOf '?' hmem (by simp)
  rw [RequestLine.uri, RequestLine.uri] at huri
  cases hq : line.query with
  | none =>
    cases hq' : line'.query with
    | none => rfl
    | some query' =>
      rw [hq, hq'] at huri
      refine absurd ?_ (hmark line)
      rw [← List.append_nil line.path, huri]
      exact List.mem_append_right _ List.mem_cons_self
  | some query =>
    cases hq' : line'.query with
    | none =>
      rw [hq, hq'] at huri
      refine absurd ?_ (hmark line')
      rw [← List.append_nil line'.path, ← huri]
      exact List.mem_append_right _ List.mem_cons_self
    | some query' =>
      rw [hq, hq'] at huri
      rw [(first_unique (hmark line) (hmark line') huri).2]

section
variable [StandardLibrary]

/-- In front of a line end `parseRequestLine` returns, the line is accepted exactly if it is well
formed, and if it is accepted, the cursor is behind the line end and the request has the method and
the version of the line. -/
def AcceptedExactly (text rest : Text) (request : HttpRequest) : Prop :=
  let buffer := text ++ newLine ++ rest
  ∃ accepted pos request' errors,
    parseRequestLine buffer 0 buffer.length request = some (accepted, pos, request', errors) ∧
    (accepted = true ↔ ∃ line : RequestLine, line.text = text) ∧
    (accepted = true → pos = (text ++ newLine).length ∧ ∃ line : RequestLine,
      line.text = text ∧ request'.method = line.method.2 ∧ request'.version = line.version.2)

/-- This is so exactly for the lines whose strings fit and that are not well formed or have a query
that is not empty and does not end in `&`. -/
theorem request_line_accepted_iff {text : Text} (htext : FreeOf newLine text) (rest : Text)
    (request : HttpRequest) :
    AcceptedExactly text rest request ↔
      Fit (lineStrings text) ∧ ∀ line : RequestLine, line.text = text → HasOpenQuery line := by
  have hline : LineAt (text ++ newLine ++ rest) 0 text := by
    rw [List.append_assoc]
    exact lineAt_append [] _ htext List.mem_cons_self
  constructor
  · rintro ⟨accepted, pos, request', errors, hcall, haccepted, -⟩
    have hfit : Fit (lineStrings text) := by
      by_contra hfit
      rw [parseRequestLine_overrun request hfit hline] at hcall
      cases hcall
    refine ⟨hfit, fun line hline' => ?_⟩
    obtain rfl := haccepted.mpr ⟨line, hline'⟩
    obtain ⟨-, line', heq, query, hquery, hopen⟩ :=
      (parseRequestLine_true_iff request hline).mp ⟨pos, request', errors, hcall⟩
    refine ⟨query, ?_, hopen⟩
    rw [query_unique (hline'.trans heq.symm)]
    exact hquery
  · rintro ⟨hfit, hopen⟩
    by_cases hformed : ∃ line : RequestLine, line.text = text
    · obtain ⟨line, rfl⟩ := hformed
      refine ⟨_, _, _, _, parseRequestLine_accepted request (hopen line rfl) hfit hline,
        ⟨fun _ => ⟨line, rfl⟩, fun _ => rfl⟩, fun _ => ⟨?_, line, rfl, rfl, rfl⟩⟩
      rw [List.length_append, Nat.zero_add]
    · rcases parseRequestLine_cases request hfit hline with
        ⟨pos, request', errors, hcall, -⟩ | ⟨line, heq, -⟩
      · exact ⟨false, pos, request', errors, hcall,
          ⟨nofun, fun hline => absurd hline hformed⟩, nofun⟩
      · exact absurd ⟨line, heq⟩ hformed

end

/-- `GET` is a method. -/
theorem get_mem_methodMap : ("GET".toList, HttpMethod.GET) ∈ methodMap := by decide

/-- `HTTP/1.1` is a version. -/
theorem http11_mem_versionMap : ("HTTP/1.1".toList, HttpVersion.HTTP_11) ∈ versionMap := by
  decide

/-- A request line with a query. -/
def queryLine : RequestLine where
  method := ("GET".toList, .GET)
  path := "/".toList
  query := some "b".toList
  version := ("HTTP/1.1".toList, .HTTP_11)
  method_mem := get_mem_methodMap
  version_mem := http11_mem_versionMap
  path_ne_nil := by decide
  path_freeOf := by decide
  query_freeOf := by rintro query ⟨⟩; decide

/-- A request line without a query. -/
def plainLine : RequestLine := { queryLine with query := none, query_freeOf := nofun }

section
open Libstdcxx

/-- The result for the line with a query. -/
theorem request_line_accepted_iff_query : AcceptedExactly queryLine.text [] {} := by
  refine (request_line_accepted_iff (by decide) [] {}).mpr ⟨by decide, fun line htext => ?_⟩
  rw [HasOpenQuery, query_unique htext]
  exact ⟨"b".toList, rfl, by decide⟩

/-- The other line is well formed, and rejected. -/
theorem plain_line_rejected : ¬AcceptedExactly "GET / HTTP/1.1".toList [] {} := by
  rintro ⟨accepted, pos, request', errors, hcall, haccepted, -⟩
  have hfalse : parseRequestLine ("GET / HTTP/1.1".toList ++ newLine ++ []) 0 16 {} =
      some (false, 5, { method := .GET }, []) := by decide
  obtain rfl := haccepted.mpr ⟨plainLine, by decide⟩
  cases hcall.symm.trans hfalse

end

end Brutils.Proofs.Http
