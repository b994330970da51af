import Mathlib.Data.List.Infix

/-!
# Items with a separator between them and a bracket at the end

`write` puts the texts of some items one after another, with `sep` between two of them and
`close` after the last one. `tail` is the text after an item: it begins with `sep` or with
`close`.

* `length_le_write` and `mul_length_le_write` bound the items by their text.
* `exists_body` is for writers that put `sep` after each item and take the last one off again.
* `write_unique` says when the items can be told from the text: each of them can be told before
  the texts that may follow an item (`Settled`), and no text begins with `sep` and with `close`.
-/

set_option autoImplicit false

namespace ItemList

section
variable {α β : Type*} (code : α → List β) (sep close : List β)

/-- The text after an item. -/
def tail : List α → List β
  | [] => close
  | a :: as => sep ++ (code a ++ tail as)

/-- The text of the items, and of what closes them. -/
def write : List α → List β
  | [] => close
  | a :: as => code a ++ tail code sep close as

/-- Behind the last item comes the end. -/
@[simp] theorem tail_nil : tail code sep close [] = close := rfl

/-- Before another item comes a separator. -/
@[simp] theorem tail_cons (a : α) (as : List α) :
    tail code sep close (a :: as) = sep ++ write code sep close (a :: as) := rfl

/-- Without items only the end is written. -/
@[simp] theorem write_nil : write code sep close [] = close := rfl

/-- An item is written, and what comes behind it. -/
@[simp] theorem write_cons (a : α) (as : List α) :
    write code sep close (a :: as) = code a ++ tail code sep close as := rfl

/-- One more `sep` behind the last item, in place of `close`. -/
theorem exists_body (a : α) (as : List α) :
    ∃ body, (a :: as).flatMap (fun a => code a ++ sep) = body ++ sep ∧
      ∀ close, write code sep close (a :: as) = body ++ close := by
  induction as generalizing a with
  | nil => exact ⟨code a, by simp, fun close => rfl⟩
  | cons b as ih =>
    obtain ⟨body, hflat, hwrite⟩ := ih b
    refine ⟨code a ++ sep ++ body, ?_, fun close => ?_⟩
    · rw [List.flatMap_cons, hflat]
      simp
    · rw [write_cons, tail_cons, hwrite]
      simp

/-- The items are part of the text. -/
theorem length_le_write {a : α} {as : List α} (h : a ∈ as) :
    (code a).length ≤ (write code sep close as).length := by
  induction as with
  | nil => exact absurd h List.not_mem_nil
  | cons b as ih =>
    rw [write_cons, List.length_append]
    rcases List.mem_cons.mp h with rfl | h
    · exact Nat.le_add_right _ _
    · cases as with
      | nil => exact absurd h List.not_mem_nil
      | cons c as =>
        have hle := ih h
        rw [tail_cons, List.length_append]
        omega

/-- Items of at least `k` characters each. -/
theorem mul_length_le_write {k : Nat} {as : List α} (h : ∀ a ∈ as, k ≤ (code a).length) :
    k * as.length ≤ (write code sep close as).length := by
  induction as with
  | nil => simp
  | cons a as ih =>
    have hfirst := h a List.mem_cons_self
    have hle := ih fun b hb => h b (List.mem_cons_of_mem a hb)
    have htail : k * as.length ≤ (tail code sep close as).length := by
      cases as with
      | nil => simp
      | cons b as =>
        rw [tail_cons, List.length_append]
        omega
    rw [write_cons, List.length_append, List.length_cons, Nat.mul_succ]
    omega

end

/-! ### Telling the items from the text -/

section
variable {α β : Type*} {code : α → List β} {sep close : List β} {D : α → Prop}
  {F : List β → Prop} {r r' : List β}

/-- Before the texts in `F`, only `a` has the text it has, among the items in `D`. -/
def Settled (code : α → List β) (D : α → Prop) (F : List β → Prop) (a : α) : Prop :=
  ∀ b r r', D b → F r → F r' → code a ++ r = code b ++ r' → a = b ∧ r = r'

/-- Behind an item both texts go on with a separator, or both end. With `hapart` the one is not
taken for the other, and the items that follow are equal by induction. -/
theorem tail_unique (hapart : ∀ s, sep <+: s → ¬close <+: s) (as bs : List α)
    (hr : ∀ as, (∀ a ∈ as, D a) → F (tail code sep close as ++ r))
    (hr' : ∀ as, (∀ a ∈ as, D a) → F (tail code sep close as ++ r'))
    (has : ∀ a ∈ as, D a ∧ Settled code D F a) (hbs : ∀ b ∈ bs, D b)
    (h : tail code sep close as ++ r = tail code sep close bs ++ r') : as = bs ∧ r = r' := by
  induction as generalizing bs with
  | nil =>
    cases bs with
    | nil => exact ⟨rfl, List.append_cancel_left h⟩
    | cons b bs =>
      -- the same text would begin with `sep` and with `close`
      refine absurd (List.prefix_append close r) (hapart _ ?_)
      rw [← tail_nil code sep close, h, tail_cons, List.append_assoc]
      exact List.prefix_append sep _
  | cons a as ih =>
    cases bs with
    | nil =>
      refine absurd (List.prefix_append close r') (hapart _ ?_)
      rw [← tail_nil code sep close, ← h, tail_cons, List.append_assoc]
      exact List.prefix_append sep _
    | cons b bs =>
      have has' : ∀ a ∈ as, D a ∧ Settled code D F a :=
        fun a ha => has a (List.mem_cons_of_mem _ ha)
      have hbs' : ∀ b ∈ bs, D b := fun b hb => hbs b (List.mem_cons_of_mem _ hb)
      simp only [tail_cons, write_cons, List.append_assoc] at h
      obtain ⟨rfl, hrest⟩ := (has a List.mem_cons_self).2 b _ _ (hbs b List.mem_cons_self)
        (hr as fun a ha => (has' a ha).1) (hr' bs hbs') (List.append_cancel_left h)
      obtain ⟨rfl, hr⟩ := ih bs has' hbs' hrest
      exact ⟨rfl, hr⟩

/-- The items can be told from the text, when no item begins like `close`. -/
theorem write_unique (hapart : ∀ s, sep <+: s → ¬close <+: s)
    (hclose : ∀ a, D a → ∀ s, ¬close <+: code a ++ s) (as bs : List α)
    (hr : ∀ as, (∀ a ∈ as, D a) → F (tail code sep close as ++ r))
    (hr' : ∀ as, (∀ a ∈ as, D a) → F (tail code sep close as ++ r'))
    (has : ∀ a ∈ as, D a ∧ Settled code D F a) (hbs : ∀ b ∈ bs, D b)
    (h : write code sep close as ++ r = write code sep close bs ++ r') : as = bs ∧ r = r' := by
  cases as with
  | nil =>
    cases bs with
    | nil => exact ⟨rfl, List.append_cancel_left h⟩
    | cons b bs =>
      refine absurd (List.prefix_append close r) ?_
      rw [← write_nil code sep close, h, write_cons, List.append_assoc]
      exact hclose b (hbs b List.mem_cons_self) _
  | cons a as =>
    cases bs with
    | nil =>
      refine absurd (List.prefix_append close r') ?_
      rw [← write_nil code sep close, ← h, write_cons, List.append_assoc]
      exact hclose a (has a List.mem_cons_self).1 _
    | cons b bs =>
      -- with a separator in front, this is about two tails
      refine tail_unique hapart (a :: as) (b :: bs) hr hr' has hbs ?_
      rw [tail_cons, tail_cons, List.append_assoc, List.append_assoc, h]

end

end ItemList
