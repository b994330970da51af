import Mathlib.Order.Lattice
import Mathlib.Data.List.Basic
import Mathlib.Tactic.Tauto

/-!
# Sorted association lists

An ordered map as a list of key and value pairs in increasing key order, for use inside an
inductive type, where a structure with an order proof cannot stand. `SortedAssoc.insert`
is the assignment `m[k] = v`, `emplace` leaves a value that is there, and `erase` takes a key out.
`Sorted` is the order invariant, which all three keep. `lookup_insert`, `lookup_emplace` and
`lookup_erase` say what is under a key afterwards, and `lookup_foldl_insert` what is there after
several assignments.
`insert_append` and `foldl_insert` are the facts a decoder needs: a key above every present key
goes to the end, and so do the pairs of a sorted list.
-/

set_option autoImplicit false

namespace SortedAssoc

variable {K V : Type*}

/-- Every key is below each later key. -/
def Sorted [LT K] (m : List (K × V)) : Prop := m.Pairwise fun a b => a.1 < b.1

/-- The first pair decides about its key. -/
theorem lookup_cons [BEq K] [LawfulBEq K] [DecidableEq K] (e : K × V) (m : List (K × V)) (x : K) :
    (e :: m).lookup x = if x = e.1 then some e.2 else m.lookup x := by
  obtain ⟨key, value⟩ := e
  by_cases hx : x = key
  · simp [hx]
  · have hbeq : (x == key) = false := beq_false_of_ne hx
    simp only [List.lookup_cons, hbeq, if_neg hx]

section
variable [LT K] [DecidableLT K] [DecidableEq K]

instance (m : List (K × V)) : Decidable (Sorted m) := by
  unfold Sorted
  infer_instance

/-- The assignment `m[k] = v`: replace the value under `k`, or add the pair at its place. -/
def insert (k : K) (v : V) : List (K × V) → List (K × V)
  | [] => [(k, v)]
  | e :: m =>
    if k < e.1 then (k, v) :: e :: m
    else if k = e.1 then (k, v) :: m
    else e :: insert k v m

/-- `m.emplace(k, v)`: add the pair at its place, unless there is a value under `k`. -/
def emplace (k : K) (v : V) (m : List (K × V)) : List (K × V) :=
  if k ∈ m.map Prod.fst then m else insert k v m

/-- `m.erase(k)`. -/
def erase (k : K) (m : List (K × V)) : List (K × V) := m.filter fun e => e.1 ≠ k

/-- The pairs after an assignment are the assigned one and old ones. -/
theorem mem_of_mem_insert {k : K} {v : V} {m : List (K × V)} {e : K × V}
    (h : e ∈ insert k v m) : e = (k, v) ∨ e ∈ m := by
  induction m with
  | nil => exact Or.inl (List.mem_singleton.mp h)
  | cons e' m ih =>
    unfold insert at h
    split at h
    · exact List.mem_cons.mp h
    · split at h
      · -- the pair under the same key is gone
        exact (List.mem_cons.mp h).imp_right (List.mem_cons_of_mem e')
      · rcases List.mem_cons.mp h with rfl | htail
        · exact Or.inr List.mem_cons_self
        · exact (ih htail).imp_right (List.mem_cons_of_mem e')

/-- The keys after an assignment are the old keys and the assigned one. -/
theorem mem_keys_insert (k : K) (v : V) (m : List (K × V)) (x : K) :
    x ∈ (insert k v m).map Prod.fst ↔ x = k ∨ x ∈ m.map Prod.fst := by
  induction m with
  | nil => simp [insert]
  | cons e m ih =>
    unfold insert
    split
    · simp
    · split
      · rename_i hk
        subst hk
        simp
      · simp only [List.map_cons, List.mem_cons, ih]
        tauto

end

section
variable [LT K] [DecidableLT K] [BEq K] [LawfulBEq K] [DecidableEq K]

/-- The value under a key after an assignment. -/
theorem lookup_insert (k : K) (v : V) (m : List (K × V)) (x : K) :
    (insert k v m).lookup x = if x = k then some v else m.lookup x := by
  induction m with
  | nil => exact lookup_cons (k, v) [] x
  | cons e m ih =>
    unfold insert
    split
    · exact lookup_cons (k, v) (e :: m) x
    · split
      · -- the new pair hides the key of the old one
        rename_i hk
        rw [lookup_cons, lookup_cons, ← hk]
        split <;> rfl
      · rename_i hne
        rw [lookup_cons, lookup_cons, ih]
        by_cases hx : x = e.1
        · have hxk : x ≠ k := fun h => hne (h.symm.trans hx)
          rw [if_pos hx, if_pos hx, if_neg hxk]
        · rw [if_neg hx, if_neg hx]

omit [LT K] [DecidableLT K] in
/-- There is a value under the keys, and under nothing else. -/
theorem isSome_lookup (m : List (K × V)) (x : K) : (m.lookup x).isSome ↔ x ∈ m.map Prod.fst := by
  induction m with
  | nil => simp
  | cons e m ih =>
    rw [lookup_cons, List.map_cons, List.mem_cons]
    split
    · rename_i hx
      exact iff_of_true rfl (Or.inl hx)
    · rename_i hx
      rw [ih, or_iff_right hx]

/-- The value under a key after an `emplace`: one that is there stays. -/
theorem lookup_emplace (k : K) (v : V) (m : List (K × V)) (x : K) :
    (emplace k v m).lookup x = if x = k then some ((m.lookup k).getD v) else m.lookup x := by
  unfold emplace
  split
  · rename_i hmem
    obtain ⟨value, hvalue⟩ := Option.isSome_iff_exists.mp ((isSome_lookup m k).mpr hmem)
    split
    · rename_i hx
      rw [hx, hvalue]
      rfl
    · rfl
  · rename_i hmem
    have hnone : m.lookup k = none :=
      Option.not_isSome_iff_eq_none.mp (mt (isSome_lookup m k).mp hmem)
    rw [lookup_insert, hnone]
    rfl

omit [LT K] [DecidableLT K] in
/-- The value under a key after a key has been taken out. -/
theorem lookup_erase (k : K) (m : List (K × V)) (x : K) :
    (erase k m).lookup x = if x = k then none else m.lookup x := by
  induction m with
  | nil => simp [erase]
  | cons e m ih =>
    unfold erase at ih ⊢
    by_cases he : e.1 = k
    · rw [List.filter_cons_of_neg (by simp [he]), ih, lookup_cons]
      split
      · rfl
      · rename_i hx
        rw [if_neg (he ▸ hx)]
    · rw [List.filter_cons_of_pos (by simp [he]), lookup_cons, ih, lookup_cons]
      by_cases hx : x = e.1
      · rw [if_pos hx, if_pos hx, if_neg (hx ▸ he)]
      · rw [if_neg hx, if_neg hx]

/-- After assigning some pairs one after another, the value under a key is its last one. -/
theorem lookup_foldl_insert (m es : List (K × V)) (x : K) :
    (es.foldl (fun m e => insert e.1 e.2 m) m).lookup x = (es.reverse.lookup x).or (m.lookup x) := by
  induction es generalizing m with
  | nil => simp
  | cons e es ih =>
    rw [List.foldl_cons, ih, lookup_insert, List.reverse_cons, List.lookup_append, Option.or_assoc,
      lookup_cons]
    split <;> simp

end

section
variable [LinearOrder K] [DecidableLT K] [DecidableEq K]

/-- An assignment keeps the keys in increasing order. -/
theorem sorted_insert (k : K) (v : V) (m : List (K × V)) (h : Sorted m) :
    Sorted (insert k v m) := by
  induction m with
  | nil => simp [insert, Sorted]
  | cons e m ih =>
    obtain ⟨he, hm⟩ := List.pairwise_cons.mp h
    unfold insert
    split
    · rename_i hlt
      refine List.pairwise_cons.mpr ⟨fun b hb => ?_, h⟩
      rcases List.mem_cons.mp hb with rfl | hb
      · exact hlt
      · exact lt_trans hlt (he b hb)
    · split
      · rename_i hk
        subst hk
        exact List.pairwise_cons.mpr ⟨he, hm⟩
      · rename_i hge hne
        refine List.pairwise_cons.mpr ⟨fun b hb => ?_, ih hm⟩
        have hkey : b.1 ∈ (insert k v m).map Prod.fst := List.mem_map_of_mem hb
        rcases (mem_keys_insert k v m b.1).mp hkey with hbk | hbm
        · rw [hbk]
          exact lt_of_le_of_ne (not_lt.mp hge) (Ne.symm hne)
        · obtain ⟨b', hb', hb'eq⟩ := List.mem_map.mp hbm
          rw [← hb'eq]
          exact he b' hb'

/-- So do several. -/
theorem sorted_foldl_insert (m es : List (K × V)) (h : Sorted m) :
    Sorted (es.foldl (fun m e => insert e.1 e.2 m) m) := by
  induction es generalizing m with
  | nil => exact h
  | cons e es ih => exact ih _ (sorted_insert e.1 e.2 m h)

/-- Putting in a pair where there is none keeps the order. -/
theorem sorted_emplace (k : K) (v : V) (m : List (K × V)) (h : Sorted m) :
    Sorted (emplace k v m) := by
  unfold emplace
  split
  · exact h
  · exact sorted_insert k v m h

omit [DecidableLT K] in
/-- Taking out a key keeps the order. -/
theorem sorted_erase (k : K) (m : List (K × V)) (h : Sorted m) : Sorted (erase k m) :=
  h.filter _

end

section
variable [Preorder K] [DecidableLT K] [DecidableEq K]

/-- A key above every present key is added at the end. -/
theorem insert_append (k : K) (v : V) (m : List (K × V)) (h : ∀ e ∈ m, e.1 < k) :
    insert k v m = m ++ [(k, v)] := by
  induction m with
  | nil => rfl
  | cons e m ih =>
    have he : e.1 < k := h e List.mem_cons_self
    rw [insert, if_neg (lt_asymm he), if_neg (ne_of_gt he),
      ih fun b hb => h b (List.mem_cons_of_mem e hb)]
    rfl

/-- Assigning the pairs of a sorted list one after another adds them at the end. -/
theorem foldl_insert (m es : List (K × V)) (h : Sorted (m ++ es)) :
    es.foldl (fun m e => insert e.1 e.2 m) m = m ++ es := by
  induction es generalizing m with
  | nil => simp
  | cons e es ih =>
    have hbelow : ∀ b ∈ m, b.1 < e.1 :=
      fun b hb => (List.pairwise_append.mp h).2.2 b hb e List.mem_cons_self
    rw [List.foldl_cons, insert_append e.1 e.2 m hbelow, ih (m ++ [e]) (by simpa using h),
      List.append_assoc, List.singleton_append]

end

end SortedAssoc
