import Brutils.Proofs.Http.HeaderBlock
import Brutils.Proofs.Http.RequestLine

/-!
# `Brutils.Proofs.Http.QueryRanges`: the ranges that the pairs of a query are made of

`queryLoopBy` is the loop of `parseQuery` with a parameter for what it does with the ranges of a
pair, as `headerLoopBy` is for `parseHeader`. With strings made of the ranges it is the loop of
the code (`queryLoop_eq`), and with a list of the ranges it tells which pairs there are. The query
is what the pairs make of an empty one (`queryLoopBy_foldlM`).

The pieces of a query are what stands between its `&`, and nothing behind the last `&` is no
piece. `PairOf` says which ranges belong to a piece, and `PairsOf` says this for pieces that
follow each other. The induction `queryLoopBy_pairs` is on the fuel. A pass takes the text up to
the first `&`, or the whole text, and the cursor goes one character further in both cases. So
behind a last piece without an `&` it is past the end, where the distance is negative and the
loop stops.

The ranges are the right ones for every query. The strings are made with `getString`, so the loop
ends exactly if an empty string has the memory for each of them (`parseQuery_ranges_iff`).
-/

set_option autoImplicit false

namespace Brutils.Proofs.Http

open Brutils.RequestParser

/-- The ranges of one pass of the loop of `parseQuery`. A pair without `=` has no value range. -/
structure QueryPair where
  keyPos : Nat
  keyEnd : Nat
  value : Option (Nat × Nat)
  deriving DecidableEq

/-- What the pass does with the query, if its strings can be made. -/
def QueryPair.insert [StandardLibrary] (buffer : Text) (query : StringMap) (pair : QueryPair) :
    Option StringMap := do
  let key ← getString buffer pair.keyPos pair.keyEnd
  let value ← pair.value.elim (some []) fun range => getString buffer range.1 range.2
  pure (SortedAssoc.emplace key value query)

/-- The ranges of the pass from `pos`. -/
def rangesOf (buffer : Text) (pos pairEndPos : Nat) : QueryPair :=
  let keyEndPos := find '=' buffer pos pairEndPos
  if keyEndPos = pairEndPos then ⟨pos, pairEndPos, none⟩
  else ⟨pos, keyEndPos, some (keyEndPos + 1, pairEndPos)⟩

/-- The loop of `parseQuery`, with a parameter for what a pass does with its ranges. -/
def queryLoopBy {ρ : Type} (insert : ρ → QueryPair → Option ρ) (buffer : Text) (endPos : Nat) :
    Nat → Nat → ρ → Option (Nat × ρ)
  | 0, pos, acc => some (pos, acc)
  | fuel + 1, pos, acc =>
    if pos < endPos then do
      let pairEndPos := find '&' buffer pos endPos
      let acc ← insert acc (rangesOf buffer pos pairEndPos)
      queryLoopBy insert buffer endPos fuel (pairEndPos + 1) acc
    else some (pos, acc)

/-- One pair more. -/
def recordPair (pairs : List QueryPair) (pair : QueryPair) : Option (List QueryPair) :=
  some (pairs ++ [pair])

/-- The ranges for a piece at `pos`. -/
structure PairOf (buffer : Text) (pos : Nat) (piece : Text) (pair : QueryPair) : Prop where
  keyPos_eq : pair.keyPos = pos
  key : Spans buffer pair.keyPos pair.keyEnd (queryKey piece)
  no_value : '=' ∉ piece → pair.value = none
  value : '=' ∈ piece → ∃ valueEnd, pair.value = some (pair.keyEnd + 1, valueEnd) ∧
    Spans buffer (pair.keyEnd + 1) valueEnd (queryValue piece)

/-- The ranges for pieces of which the first is at `pos`, with one character behind each. -/
inductive PairsOf (buffer : Text) : Nat → List Text → List QueryPair → Prop
  | nil (pos : Nat) : PairsOf buffer pos [] []
  | cons {pos : Nat} {piece : Text} {pieces : List Text} {pair : QueryPair}
      {pairs : List QueryPair} (hpair : PairOf buffer pos piece pair)
      (hpairs : PairsOf buffer (pos + piece.length + 1) pieces pairs) :
      PairsOf buffer pos (piece :: pieces) (pair :: pairs)

/-! ### The ranges and the query -/

section
variable [StandardLibrary] (buffer : Text) (endPos : Nat)

/-- A pass of the loop makes strings of its ranges and emplaces them. -/
theorem addPair_eq_insert (pos : Nat) (query : StringMap) (pairEndPos : Nat) :
    addPair buffer pos query pairEndPos =
      QueryPair.insert buffer query (rangesOf buffer pos pairEndPos) := by
  rw [addPair, rangesOf]
  split
  · rfl
  · rfl

/-- The loop of `parseQuery`. -/
theorem queryLoop_eq (fuel pos : Nat) (query : StringMap) :
    queryLoop buffer endPos fuel pos query =
      queryLoopBy (QueryPair.insert buffer) buffer endPos fuel pos query := by
  induction fuel generalizing pos query with
  | zero => rfl
  | succ fuel ih => simp only [queryLoop, queryLoopBy, ih, addPair_eq_insert]

omit [StandardLibrary] in
/-- The loop makes of a query what the pairs make of it that it would add to a list. It does not
return if one of them does not. -/
theorem queryLoopBy_foldlM {ρ : Type} (insert : ρ → QueryPair → Option ρ) (acc : ρ) (fuel pos : Nat)
    (pairs : List QueryPair) :
    (pairs.foldlM insert acc).bind (queryLoopBy insert buffer endPos fuel pos) =
      (queryLoopBy recordPair buffer endPos fuel pos pairs).bind fun result =>
        (result.2.foldlM insert acc).map fun acc => (result.1, acc) := by
  induction fuel generalizing pos pairs with
  | zero =>
    simp only [queryLoopBy]
    exact Option.map_eq_bind.symm
  | succ fuel ih =>
    simp only [queryLoopBy]
    split
    · simp only [recordPair, Option.bind_eq_bind, Option.bind_some, ← ih, List.foldlM_append,
        List.foldlM_cons, List.foldlM_nil, Option.bind_assoc, Option.pure_def]
    · exact Option.map_eq_bind.symm

/-- The loop of `parseQuery` in terms of its pairs. -/
theorem queryLoop_eq_pairs (fuel pos : Nat) :
    queryLoop buffer endPos fuel pos [] =
      (queryLoopBy recordPair buffer endPos fuel pos []).bind fun result =>
        (result.2.foldlM (QueryPair.insert buffer) []).map fun query => (result.1, query) := by
  rw [queryLoop_eq]
  exact queryLoopBy_foldlM buffer endPos (QueryPair.insert buffer) [] fuel pos []

end

/-! ### One piece -/

section
variable {buffer text piece : Text} {pos endPos : Nat}

/-- The ranges for a piece. -/
theorem rangesOf_pairOf (h : Spans buffer pos endPos piece) :
    PairOf buffer pos piece (rangesOf buffer pos endPos) := by
  rcases split_at '=' piece with hnone | ⟨key, value, rfl, hkey⟩
  · -- no `=`: the search comes to the end of the piece
    have hranges : rangesOf buffer pos endPos = ⟨pos, endPos, none⟩ :=
      if_pos (find_eq_endPos h hnone)
    have hwhole : queryKey piece = piece := takeWhile_ne_of_not_mem hnone
    rw [hranges]
    refine ⟨rfl, ?_, fun _ => rfl, fun hmem => absurd hmem hnone⟩
    rw [hwhole]
    exact h
  · have hend := h.behind.pos_le
    have hfind : find '=' buffer pos endPos = pos + key.length := find_eq h hkey
    have hranges : rangesOf buffer pos endPos =
        ⟨pos, pos + key.length, some (pos + key.length + 1, endPos)⟩ := by
      rw [rangesOf, hfind]
      exact if_neg (by omega)
    have hkeyText : queryKey (key ++ '=' :: value) = key := takeWhile_ne hkey value
    have hvalueText : queryValue (key ++ '=' :: value) = value := by
      rw [queryValue, dropWhile_ne hkey, List.tail_cons]
    rw [hranges]
    refine ⟨rfl, ?_, ?_, fun _ => ⟨endPos, rfl, ?_⟩⟩
    · rw [hkeyText]
      exact h.left
    · intro hnone
      exact absurd (List.mem_append_right _ List.mem_cons_self) hnone
    · rw [hvalueText]
      exact h.behind

/-- A pass goes to the next `&`, or to the end. -/
theorem queryLoopBy_pass {pairEndPos : Nat} (hpos : pos < endPos)
    (hfind : find '&' buffer pos endPos = pairEndPos) (fuel : Nat) (pairs : List QueryPair) :
    queryLoopBy recordPair buffer endPos (fuel + 1) pos pairs =
      queryLoopBy recordPair buffer endPos fuel (pairEndPos + 1)
        (pairs ++ [rangesOf buffer pos pairEndPos]) := by
  rw [queryLoopBy, if_pos hpos, hfind]
  rfl

/-- From the end on there is no pass. -/
theorem queryLoopBy_end (hpos : endPos ≤ pos) (fuel : Nat) (pairs : List QueryPair) :
    queryLoopBy recordPair buffer endPos fuel pos pairs = some (pos, pairs) := by
  cases fuel with
  | zero => rfl
  | succ fuel => exact if_neg (by omega)

/-! ### The query -/

/-- The induction on the size of the range: the loop ends with the pairs of all pieces, however
many passes are left. -/
theorem queryLoopBy_pairs (size : Nat) (h : Spans buffer pos endPos text)
    (hsize : text.length ≤ size) :
    ∃ pairs, PairsOf buffer pos (queryPieces text) pairs ∧ ∀ fuel earlier, size ≤ fuel →
      queryLoopBy recordPair buffer endPos fuel pos earlier =
        some (if StopsAtEnd text then endPos else endPos + 1, earlier ++ pairs) := by
  induction size generalizing pos text with
  | zero =>
    obtain rfl := List.eq_nil_of_length_eq_zero (Nat.le_zero.mp hsize)
    have hend : endPos = pos := h.endPos_eq
    refine ⟨[], PairsOf.nil pos, fun fuel earlier _ => ?_⟩
    rw [queryLoopBy_end (by omega), if_pos stopsAtEnd_nil, List.append_nil, hend]
  | succ size ih =>
    have hend := h.endPos_eq
    by_cases hnil : text = []
    · subst hnil
      obtain ⟨pairs, hpairs, hloop⟩ := ih h (Nat.zero_le _)
      exact ⟨pairs, hpairs, fun fuel earlier hfuel => hloop fuel earlier (by omega)⟩
    · have hlength : 0 < text.length := List.length_pos_iff.mpr hnil
      rcases split_at '&' text with hnone | ⟨front, back, rfl, hfront⟩
      · -- the last piece: the cursor goes past the end
        have hopen : ¬StopsAtEnd text := by
          rintro (hempty | hlast)
          · exact hnil hempty
          · exact hnone (List.mem_of_getLast? hlast)
        refine ⟨[rangesOf buffer pos endPos], ?_, fun fuel earlier hfuel => ?_⟩
        · rw [queryPieces_last hnil hnone]
          exact PairsOf.cons (rangesOf_pairOf h) (PairsOf.nil _)
        · obtain ⟨fuel, rfl⟩ := Nat.exists_eq_add_one.mpr (show 0 < fuel by omega)
          rw [queryLoopBy_pass (by omega) (find_eq_endPos h hnone), queryLoopBy_end (by omega),
            if_neg hopen]
      · -- a piece, the `&` behind it, and the rest
        rw [List.length_append, List.length_cons] at hsize
        obtain ⟨pairs, hpairs, hloop⟩ := ih h.behind (by omega)
        refine ⟨rangesOf buffer pos (pos + front.length) :: pairs, ?_, fun fuel earlier hfuel => ?_⟩
        · rw [queryPieces_cons hfront]
          exact PairsOf.cons (rangesOf_pairOf h.left) hpairs
        · obtain ⟨fuel, rfl⟩ := Nat.exists_eq_add_one.mpr (show 0 < fuel by omega)
          rw [queryLoopBy_pass (by omega) (find_eq h hfront), hloop _ _ (by omega),
            if_congr (stopsAtEnd_append front back) rfl rfl, List.append_assoc]
          rfl

/-! ### The strings -/

variable [StandardLibrary]

/-- The ranges for a piece make an empty pair, if the strings for the piece fit. -/
theorem PairOf.insert_eq {pair : QueryPair} (h : PairOf buffer pos piece pair) (query : StringMap) :
    QueryPair.insert buffer query pair =
      if Fit (pieceStrings piece) then some (SortedAssoc.emplace [] [] query) else none := by
  rw [QueryPair.insert, getString_spans h.key, pieceStrings]
  by_cases hmem : '=' ∈ piece
  · obtain ⟨valueEnd, hvalue, hspans⟩ := h.value hmem
    rw [hvalue, if_congr fit_pair rfl rfl]
    simp only [Option.elim_some, getString_spans hspans]
    by_cases hkey : (queryKey piece).length ≤ StandardLibrary.emptyCapacity
    · rw [if_pos hkey, if_congr (and_iff_right hkey) rfl rfl]
      split
      · rfl
      · rfl
    · have hpair : ¬((queryKey piece).length ≤ StandardLibrary.emptyCapacity ∧
          (queryValue piece).length ≤ StandardLibrary.emptyCapacity) := fun h => hkey h.1
      rw [if_neg hkey, if_neg hpair]
      rfl
  · have hnil : queryValue piece = [] := by
      rw [queryValue, dropWhile_ne_of_not_mem hmem, List.tail_nil]
    rw [h.no_value hmem, hnil, if_congr fit_pair_nil rfl rfl]
    split
    · rfl
    · rfl

/-- The strings for some pieces can be made if those for each of them fit. -/
theorem PairsOf.foldlM_iff {pieces : List Text} {pairs : List QueryPair}
    (h : PairsOf buffer pos pieces pairs) (query : StringMap) :
    (∃ query', pairs.foldlM (QueryPair.insert buffer) query = some query') ↔
      Fit (pieces.flatMap pieceStrings) := by
  induction h generalizing query with
  | nil pos => exact iff_of_true ⟨query, rfl⟩ fit_nil
  | @cons pos piece pieces pair pairs hpair hpairs ih =>
    rw [List.foldlM_cons, hpair.insert_eq, List.flatMap_cons, fit_append]
    by_cases hfit : Fit (pieceStrings piece)
    · rw [if_pos hfit, and_iff_right hfit]
      exact ih _
    · rw [if_neg hfit]
      exact iff_of_false (fun ⟨_, h⟩ => nomatch h) fun h => hfit h.1

/-- The loop of `parseQuery` ends on a range of `_buffer`, and the same way however many passes it
may make beyond the size of the range. It takes the ranges of the pieces of what the range holds, in
their order, and the query is what their strings make of an empty one. The cursor is one character
behind the range if that is not empty and does not end in `&`. -/
def RangesHandled (buffer : Text) (pos endPos : Nat) (request : HttpRequest) : Prop :=
  ∃ pairs finalPos query,
    (∀ fuel, endPos - pos ≤ fuel →
      queryLoop buffer endPos fuel pos [] = some (finalPos, query) ∧
      queryLoopBy recordPair buffer endPos fuel pos [] = some (finalPos, pairs)) ∧
    pairs.foldlM (QueryPair.insert buffer) [] = some query ∧
    parseQuery buffer pos endPos request = some (true, finalPos, request.setQuery query) ∧
    PairsOf buffer pos (queryPieces (slice buffer pos endPos)) pairs ∧
    finalPos = if slice buffer pos endPos ≠ [] ∧ (slice buffer pos endPos).getLast? ≠ some '&'
      then endPos + 1 else endPos

/-- This is so exactly if an empty string has the memory for each key and each value. It makes no
difference what is before and behind the range. -/
theorem parseQuery_ranges_iff (hpos : pos ≤ endPos) (hend : endPos ≤ buffer.length)
    (request : HttpRequest) :
    RangesHandled buffer pos endPos request ↔ Fit (queryStrings (slice buffer pos endPos)) := by
  have hspans := spans_slice hpos hend
  have hlength := hspans.endPos_eq
  obtain ⟨pairs, hpairs, hloop⟩ := queryLoopBy_pairs (endPos - pos) hspans (by omega)
  have hrun := fun fuel hfuel => hloop fuel [] hfuel
  rw [queryStrings, ← hpairs.foldlM_iff []]
  constructor
  · rintro ⟨_, _, query, hloops, hfold, -⟩
    have hsame := (hrun _ (Nat.le_refl _)).symm.trans (hloops _ (Nat.le_refl _)).2
    cases hsame
    exact ⟨query, hfold⟩
  · rintro ⟨query, hfold⟩
    have hquery : ∀ fuel, endPos - pos ≤ fuel → queryLoop buffer endPos fuel pos [] =
        some (if StopsAtEnd (slice buffer pos endPos) then endPos else endPos + 1, query) := by
      intro fuel hfuel
      rw [queryLoop_eq_pairs, hrun fuel hfuel, List.nil_append, Option.bind_some, hfold]
      rfl
    refine ⟨pairs, _, query, fun fuel hfuel => ⟨hquery fuel hfuel, hrun fuel hfuel⟩, hfold, ?_,
      hpairs, ?_⟩
    · rw [parseQuery, hquery _ (Nat.le_refl _)]
      rfl
    · by_cases hstop : StopsAtEnd (slice buffer pos endPos)
      · rw [if_pos hstop, if_neg]
        rintro ⟨hne, hlast⟩
        exact hstop.elim hne hlast
      · rw [if_neg hstop, if_pos (not_or.mp hstop)]

end

section
open Libstdcxx

/-- A pair with a second `=`, an empty piece, a piece without `=`, and an `&` at the end. -/
theorem parseQuery_ranges_four : RangesHandled "?a==b&&c&".toList 1 9 {} :=
  (parseQuery_ranges_iff (show 1 ≤ 9 by decide) (by decide) {}).mpr (by decide)

/-- A key of 40 characters: `getString` writes behind the memory of its string. -/
theorem long_key_overruns : ¬RangesHandled (List.replicate 40 'k') 0 40 {} := by
  rintro ⟨_, _, _, -, -, hcall, -⟩
  have hnone : parseQuery (List.replicate 40 'k') 0 40 {} = none := by decide
  cases hcall.symm.trans hnone

end

example : queryLoopBy recordPair "?a==b&&c&".toList 9 8 1 [] =
    some (9, [⟨1, 2, some (3, 5)⟩, ⟨6, 6, none⟩, ⟨7, 8, none⟩]) := by decide

end Brutils.Proofs.Http
