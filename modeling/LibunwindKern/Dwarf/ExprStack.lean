import LibunwindKern.Dwarf.Expr

/-!
# The stack operators of location expressions

DWARF describes an operator by what it does to a stack of words. `stackSpec` is that
description for the operators without operands: a partial function on lists, the top entry
first, which is undefined where the stack is not deep enough, and for a zero divisor, a
shift by the word size or more and the one quotient that does not fit a word.

The evaluator keeps the stack in an array of 64 entries. `StackIs s xs` says that the array
of the state `s` holds the list `xs`. The macros `pop`, `push` and `pick` then do what they
do to a list (`pop_spec`, `push_spec`, `pick_spec`), and an operator is composed of them.

Two things are not as DWARF describes them. The operators `le`, `ge`, `lt` and `gt` compare
the top entry with the second one, and not the other way round. And on a full stack the four
operators whose code pushes before it has popped fail; for `dup` and `over` this is the
limit of the stack, but `neg` and `not` need no room.

* `execOp_meets_stackSpec_iff`: when an operator leaves the stack DWARF specifies.
-/

namespace LibunwindKern

open CProg ByteMem Eval

/-! ### What DWARF says -/

/-- The two-operand operations, on the second entry and the top entry. -/
def binarySpec (op : DwOp) (second top : Word) : Option Word :=
  match op with
  | .and => some (second &&& top)
  | .div =>
    if top = 0 ∨ (top = BitVec.allOnes 64 ∧ second = BitVec.intMin 64) then none
    else some (second.sdiv top)
  | .minus => some (second - top)
  | .mod => if top = 0 then none else some (second % top)
  | .mul => some (second * top)
  | .or => some (second ||| top)
  | .plus => some (second + top)
  | .shl => if top.toNat < 64 then some (second <<< top.toNat) else none
  | .shr => if top.toNat < 64 then some (second >>> top.toNat) else none
  | .shra => if top.toNat < 64 then some (second.sshiftRight top.toNat) else none
  | .xor => some (second ^^^ top)
  | .eq => some (if second = top then 1 else 0)
  | .ge => some (if top.toInt ≤ second.toInt then 1 else 0)
  | .gt => some (if top.toInt < second.toInt then 1 else 0)
  | .le => some (if second.toInt ≤ top.toInt then 1 else 0)
  | .lt => some (if second.toInt < top.toInt then 1 else 0)
  | .ne => some (if second ≠ top then 1 else 0)
  | _ => none

/-- The operations without operands, as DWARF describes them. -/
def stackSpec (op : DwOp) (stack : List Word) : Option (List Word) :=
  match op, stack with
  | .dup, x :: xs => some (x :: x :: xs)
  | .drop, _ :: xs => some xs
  | .over, x :: y :: xs => some (y :: x :: y :: xs)
  | .swap, x :: y :: xs => some (y :: x :: xs)
  -- the top entry becomes the third one
  | .rot, x :: y :: z :: xs => some (y :: z :: x :: xs)
  | .abs, x :: xs => some (BitVec.ofInt 64 |x.toInt| :: xs)
  | .neg, x :: xs => some (BitVec.ofInt 64 (-x.toInt) :: xs)
  | .not, x :: xs => some (~~~x :: xs)
  | op, top :: second :: xs => (binarySpec op second top).map (· :: xs)
  | _, _ => none

/-- The comparisons that are not symmetric. -/
def isOrdering : DwOp → Bool
  | .le | .ge | .lt | .gt => true
  | _ => false

/-- The operations whose code pushes before it has popped. -/
def pushesFirst : DwOp → Bool
  | .dup | .over | .neg | .not => true
  | _ => false

/-! ### The stack of the evaluator -/

/-- The array holds this list, the top entry first. -/
structure StackIs (s : ExprState) (xs : List Word) : Prop where
  depth : s.tos.toNat = xs.length
  le : xs.length ≤ maxExprStackSize
  entries : ∀ i : Fin maxExprStackSize, i.val < xs.length → s.stack i = xs.reverse[i.val]?

/-- Two states that differ at most in the stack. -/
structure SameButStack (s s' : ExprState) : Prop where
  addr : s'.addr = s.addr
  operand1 : s'.operand1 = s.operand1
  operand2 : s'.operand2 = s.operand2
  lga : s'.lga = s.lga
  fetched : s'.fetched = s.fetched

theorem SameButStack.refl (s : ExprState) : SameButStack s s := ⟨rfl, rfl, rfl, rfl, rfl⟩

theorem SameButStack.trans {s t u : ExprState} (h : SameButStack s t) (h' : SameButStack t u) :
    SameButStack s u :=
  ⟨h'.1.trans h.1, h'.2.trans h.2, h'.3.trans h.3, h'.4.trans h.4, h'.5.trans h.5⟩

section

variable {s s' : ExprState} {x y z v : Word} {xs ys : List Word}

/-- A state holds one list. -/
theorem StackIs.unique (h : StackIs s xs) (h' : StackIs s ys) : xs = ys := by
  have hlen : xs.length = ys.length := h.depth.symm.trans h'.depth
  apply List.reverse_injective
  apply List.ext_getElem?
  intro i
  by_cases hi : i < xs.length
  · have hi' : i < maxExprStackSize := Nat.lt_of_lt_of_le hi h.le
    rw [← h.entries ⟨i, hi'⟩ hi, ← h'.entries ⟨i, hi'⟩ (hlen ▸ hi)]
  · rw [List.getElem?_eq_none (by rw [List.length_reverse]; omega),
      List.getElem?_eq_none (by rw [List.length_reverse]; omega)]

/-- The index of an entry below the top. -/
private theorem toNat_tos_sub {t n : BitVec 32} {k : ℕ} (ht : t.toNat = k) (hn : n.toNat ≤ k) :
    (t - n).toNat = k - n.toNat := by
  rw [BitVec.toNat_sub]
  have := t.isLt
  omega

/-- Reading an entry changes nothing. -/
theorem entry_keeps (index : BitVec 32) : Act.Keeps id (entry index) := by
  refine Act.Keeps.get.bind fun s => ?_
  split
  · split
    · exact Act.Keeps.pure _
    · exact Act.Keeps.lift _
  · exact Act.Keeps.fail _

/-- Reading an entry that has been pushed. -/
theorem entry_spec (h : StackIs s xs) {index : BitVec 32} (hi : index.toNat < xs.length)
    (hv : xs.reverse[index.toNat]? = some v) : entry index s = (.ok v, s) := by
  have hlt : index.toNat < maxExprStackSize := Nat.lt_of_lt_of_le hi h.le
  unfold entry
  rw [Act.get_bind, dif_pos hlt, h.entries ⟨index.toNat, hlt⟩ hi, hv]
  rfl

theorem pop_spec (h : StackIs s (x :: xs)) :
    ∃ s', pop s = (.ok x, s') ∧ StackIs s' xs ∧ SameButStack s s' := by
  have hdepth : s.tos.toNat = xs.length + 1 := h.depth
  have hone : (1 : BitVec 32).toNat = 1 := rfl
  have htop : (s.tos - 1).toNat = xs.length := toNat_tos_sub hdepth (by rw [hone]; omega)
  have hentry : entry (s.tos - 1) s = (.ok x, s) := by
    refine entry_spec h (by rw [htop, List.length_cons]; omega) ?_
    rw [htop, List.reverse_cons, List.getElem?_append_right (by rw [List.length_reverse])]
    simp
  refine ⟨{ s with tos := s.tos - 1 }, ?_, ⟨htop, ?_, ?_⟩, ⟨rfl, rfl, rfl, rfl, rfl⟩⟩
  · unfold pop
    rw [Act.get_bind, Act.bind_of_ok hentry]
    rfl
  · have := h.le
    rw [List.length_cons] at this
    omega
  · intro i hi
    have hcons := h.entries i (by rw [List.length_cons]; omega)
    rw [List.reverse_cons, List.getElem?_append_left (by rw [List.length_reverse]; exact hi)]
      at hcons
    exact hcons

theorem push_spec (h : StackIs s xs) (hroom : xs.length < maxExprStackSize) (v : Word) :
    ∃ s', push v s = (.ok (), s') ∧ StackIs s' (v :: xs) ∧ SameButStack s s' := by
  have hlt : s.tos.toNat < maxExprStackSize := by rw [h.depth]; exact hroom
  have hone : (1 : BitVec 32).toNat = 1 := rfl
  refine ⟨{ s with stack := Function.update s.stack ⟨_, hlt⟩ (some v), tos := s.tos + 1 }, ?_,
    ⟨?_, hroom, ?_⟩, ⟨rfl, rfl, rfl, rfl, rfl⟩⟩
  · unfold push
    rw [Act.get_bind, dif_pos hlt]
    rfl
  · change (s.tos + 1).toNat = _
    have hdepth := h.depth
    unfold maxExprStackSize at hroom
    rw [BitVec.toNat_add, hone, List.length_cons]
    omega
  · intro i hi
    change Function.update s.stack ⟨_, hlt⟩ (some v) i = _
    rw [List.reverse_cons]
    by_cases htop : i.val = xs.length
    · -- the new entry
      have heq : i = ⟨s.tos.toNat, hlt⟩ := Fin.ext (htop.trans h.depth.symm)
      rw [heq, Function.update_self]
      change some v = (xs.reverse ++ [v])[s.tos.toNat]?
      rw [h.depth, List.getElem?_append_right (by rw [List.length_reverse])]
      simp
    · have hlt' : i.val < xs.length := by
        rw [List.length_cons] at hi
        omega
      have hne : i ≠ ⟨s.tos.toNat, hlt⟩ := fun heq =>
        htop ((congrArg Fin.val heq).trans h.depth)
      rw [Function.update_of_ne hne, h.entries i hlt',
        List.getElem?_append_left (by rw [List.length_reverse]; exact hlt')]

theorem push_full (h : StackIs s xs) (hfull : xs.length = maxExprStackSize) (v : Word) :
    push v s = (.err .einval, s) := by
  have hnot : ¬ s.tos.toNat < maxExprStackSize := by rw [h.depth, hfull]; exact Nat.lt_irrefl _
  unfold push
  rw [Act.get_bind, dif_neg hnot]
  rfl

theorem pop_empty (h : StackIs s []) : pop s = (.err .einval, s) := by
  have htos : s.tos = 0 := BitVec.eq_of_toNat_eq h.depth
  have hentry : entry (0 - 1) s = (.err .einval, s) := by
    -- `0 - 1` is the largest index
    unfold entry
    rw [Act.get_bind, dif_neg (by decide)]
    rfl
  unfold pop
  rw [Act.get_bind, htos, Act.bind_of_err hentry]

/-- The index of `pick`, for a number that fits. -/
theorem toNat_pick_index (h : StackIs s xs) {n : Word} (hn : n.toNat < 2 ^ 31) :
    (n.toNat < xs.length →
        (s.tos - 1 - n.setWidth 32).toNat = xs.length - 1 - n.toNat) ∧
      (xs.length ≤ n.toNat → ¬(s.tos - 1 - n.setWidth 32).toNat < maxExprStackSize) := by
  have hdepth := h.depth
  have hle := h.le
  have hone : (1 : BitVec 32).toNat = 1 := rfl
  have hnarrow : (n.setWidth 32).toNat = n.toNat := by
    rw [BitVec.toNat_setWidth, Nat.mod_eq_of_lt (by omega)]
  unfold maxExprStackSize at hle ⊢
  constructor
  · intro hlt
    rw [BitVec.toNat_sub, BitVec.toNat_sub, hnarrow, hone]
    omega
  · intro hge
    rw [BitVec.toNat_sub, BitVec.toNat_sub, hnarrow, hone]
    omega

/-- `pick` on an entry that there is. -/
theorem pick_spec (h : StackIs s xs) {n : Word} (hn : n.toNat < 2 ^ 31) {val : Word}
    (hval : xs[n.toNat]? = some val) : Eval.pick n s = (.ok val, s) := by
  have hlt : n.toNat < xs.length := (List.getElem?_eq_some_iff.1 hval).1
  have hindex := (toNat_pick_index h hn).1 hlt
  unfold Eval.pick
  rw [Act.get_bind]
  refine entry_spec h (by rw [hindex]; omega) ?_
  rw [hindex, List.getElem?_reverse (by omega), ← hval]
  congr 1
  omega

theorem pick_refused (h : StackIs s xs) {n : Word} (hn : n.toNat < 2 ^ 31)
    (hge : xs.length ≤ n.toNat) : Eval.pick n s = (.err .einval, s) := by
  unfold Eval.pick entry
  rw [Act.get_bind, Act.get_bind, dif_neg ((toNat_pick_index h hn).2 hge)]
  rfl

/-! ### The operators of the evaluator -/

/-- An operator leaves this stack, and nothing else has changed. -/
def Leaves (x : Eval Unit) (s : ExprState) (ys : List Word) : Prop :=
  ∃ s', x s = (.ok (), s') ∧ StackIs s' ys ∧ SameButStack s s'

/-- Replacing the top entry needs no room. -/
theorem leaves_unary (h : StackIs s (x :: xs)) (f : Word → Word) :
    Leaves (unary f) s (f x :: xs) := by
  obtain ⟨s₁, hpop, h₁, hsame₁⟩ := pop_spec h
  have hroom : xs.length < maxExprStackSize := h.le
  obtain ⟨s₂, hpush, h₂, hsame₂⟩ := push_spec h₁ hroom (f x)
  refine ⟨s₂, ?_, h₂, hsame₁.trans hsame₂⟩
  unfold unary
  rw [Act.bind_of_ok hpop, hpush]

theorem leaves_binary (h : StackIs s (x :: y :: xs)) {f : Word → Word → Res UnwError Word}
    (hf : f x y = .ok v) : Leaves (binary f) s (v :: xs) := by
  obtain ⟨s₁, hpop₁, h₁, hsame₁⟩ := pop_spec h
  obtain ⟨s₂, hpop₂, h₂, hsame₂⟩ := pop_spec h₁
  have hroom : xs.length < maxExprStackSize := h₁.le
  obtain ⟨s₃, hpush, h₃, hsame₃⟩ := push_spec h₂ hroom v
  refine ⟨s₃, ?_, h₃, (hsame₁.trans hsame₂).trans hsame₃⟩
  unfold binary
  rw [Act.bind_of_ok hpop₁, Act.bind_of_ok hpop₂, hf, Act.lift_ok_bind, hpush]

theorem leaves_relational (h : StackIs s (x :: y :: xs)) (r : Word → Word → Bool) :
    Leaves (relational r) s ((if r x y then 1 else 0) :: xs) :=
  leaves_binary h rfl

theorem leaves_swap (h : StackIs s (x :: y :: xs)) :
    Leaves (pop >>= fun tmp1 => pop >>= fun tmp2 => push tmp1 >>= fun _ => push tmp2) s
      (y :: x :: xs) := by
  obtain ⟨s₁, hpop₁, h₁, hsame₁⟩ := pop_spec h
  obtain ⟨s₂, hpop₂, h₂, hsame₂⟩ := pop_spec h₁
  have hle := h.le
  simp only [List.length_cons] at hle
  obtain ⟨s₃, hpush₁, h₃, hsame₃⟩ := push_spec h₂ (by omega) x
  obtain ⟨s₄, hpush₂, h₄, hsame₄⟩ := push_spec h₃ (by rw [List.length_cons]; omega) y
  refine ⟨s₄, ?_, h₄, ((hsame₁.trans hsame₂).trans hsame₃).trans hsame₄⟩
  rw [Act.bind_of_ok hpop₁, Act.bind_of_ok hpop₂, Act.bind_of_ok hpush₁, hpush₂]

theorem leaves_rot (h : StackIs s (x :: y :: z :: xs)) :
    Leaves (pop >>= fun tmp1 => pop >>= fun tmp2 => pop >>= fun tmp3 => push tmp1 >>= fun _ =>
      push tmp3 >>= fun _ => push tmp2) s (y :: z :: x :: xs) := by
  obtain ⟨s₁, hpop₁, h₁, hsame₁⟩ := pop_spec h
  obtain ⟨s₂, hpop₂, h₂, hsame₂⟩ := pop_spec h₁
  obtain ⟨s₃, hpop₃, h₃, hsame₃⟩ := pop_spec h₂
  have hle := h.le
  simp only [List.length_cons] at hle
  obtain ⟨s₄, hpush₁, h₄, hsame₄⟩ := push_spec h₃ (by omega) x
  obtain ⟨s₅, hpush₂, h₅, hsame₅⟩ := push_spec h₄ (by rw [List.length_cons]; omega) z
  obtain ⟨s₆, hpush₃, h₆, hsame₆⟩ := push_spec h₅ (by simp only [List.length_cons]; omega) y
  refine ⟨s₆, ?_, h₆, ((((hsame₁.trans hsame₂).trans hsame₃).trans hsame₄).trans hsame₅).trans
    hsame₆⟩
  rw [Act.bind_of_ok hpop₁, Act.bind_of_ok hpop₂, Act.bind_of_ok hpop₃, Act.bind_of_ok hpush₁,
    Act.bind_of_ok hpush₂, hpush₃]

/-- An operator leaves one stack. -/
theorem Leaves.iff_eq {op : Eval Unit} (h : Leaves op s xs) : Leaves op s ys ↔ xs = ys := by
  constructor
  · rintro ⟨s₂, hrun₂, h₂, -⟩
    obtain ⟨s₁, hrun₁, h₁, -⟩ := h
    rw [hrun₁] at hrun₂
    cases hrun₂
    exact h₁.unique h₂
  · rintro rfl
    exact h

/-- An operator that fails leaves no stack. -/
theorem not_leaves_of_err {op : Eval Unit} {e : UnwError} (h : op s = (.err e, s')) :
    ¬ Leaves op s ys := by
  rintro ⟨s₁, hrun, -⟩
  rw [h] at hrun
  cases hrun

theorem leaves_drop (h : StackIs s (x :: xs)) : Leaves (pop >>= fun _ => pure ()) s xs := by
  obtain ⟨s₁, hpop, h₁, hsame⟩ := pop_spec h
  exact ⟨s₁, Act.bind_of_ok hpop, h₁, hsame⟩

/-- `dup` and `over` push a copy, if there is room. -/
theorem leaves_copy_iff (h : StackIs s xs) {n : Word} (hpick : Eval.pick n s = (.ok v, s)) :
    Leaves (Eval.pick n >>= push) s (v :: xs) ↔ xs.length < maxExprStackSize := by
  constructor
  · intro hleaves
    by_contra hfull
    have hle := h.le
    have herr : (Eval.pick n >>= push) s = (.err .einval, s) := by
      rw [Act.bind_of_ok hpick]
      exact push_full h (by omega) v
    exact not_leaves_of_err herr hleaves
  · intro hroom
    obtain ⟨s₁, hpush, h₁, hsame⟩ := push_spec h hroom v
    exact ⟨s₁, by rw [Act.bind_of_ok hpick, hpush], h₁, hsame⟩

/-- `neg` and `not` fail on a full stack. -/
theorem leaves_pushOfPop_iff (h : StackIs s (x :: xs)) (f : Word → Word) :
    Leaves (pushOfPop f) s (f x :: xs) ↔ (x :: xs).length < maxExprStackSize := by
  have hdepth := h.depth
  unfold Leaves pushOfPop
  rw [Act.get_bind]
  by_cases hroom : (x :: xs).length < maxExprStackSize
  · rw [if_pos (by rw [hdepth]; exact hroom)]
    exact ⟨fun _ => hroom, fun _ => leaves_unary h f⟩
  · rw [if_neg (by rw [hdepth]; exact hroom)]
    exact ⟨fun hleaves => absurd hleaves (not_leaves_of_err rfl), fun hlt => absurd hlt hroom⟩

private theorem abs_eq (x : Word) :
    BitVec.ofInt 64 |x.toInt| = if x.msb then -x else x := by
  have hmsb : x.msb = true ↔ x.toInt < 0 := by
    rw [BitVec.msb_eq_toInt, decide_eq_true_iff]
  by_cases hneg : x.toInt < 0
  · rw [if_pos (hmsb.2 hneg), abs_of_neg hneg, BitVec.ofInt_neg, BitVec.ofInt_toInt]
  · rw [if_neg (fun h => hneg (hmsb.1 h)), abs_of_nonneg (by omega), BitVec.ofInt_toInt]

/-- A stack with an entry for a unary operator. -/
private theorem exists_of_unary {op : DwOp} (hspec : stackSpec op xs = some ys) :
    ∃ x r, xs = x :: r := by
  cases xs with
  | nil => cases op <;> cases hspec
  | cons x r => exact ⟨x, r, rfl⟩

/-- The operators whose code replaces the two top entries by a value that DWARF gives
too. -/
private theorem leaves_of_binary {op : DwOp} {f : Word → Word → Res UnwError Word}
    (h : StackIs s xs) (hspec : stackSpec op xs = some ys)
    (hop : ∀ top second r, stackSpec op (top :: second :: r) =
      (binarySpec op second top).map (· :: r))
    (hshort : ∀ x, stackSpec op [x] = none)
    (hf : ∀ top second v, binarySpec op second top = some v → f top second = .ok v) :
    Leaves (binary f) s ys := by
  obtain ⟨x, r, rfl⟩ := exists_of_unary hspec
  cases r with
  | nil =>
    rw [hshort] at hspec
    cases hspec
  | cons y r =>
    rw [hop] at hspec
    obtain ⟨v, hv, rfl⟩ := Option.map_eq_some_iff.1 hspec
    exact leaves_binary h (hf x y v hv)

/-- The shifts, by less than the width of a word. -/
private theorem leaves_of_shift {op : DwOp} {f : Word → ℕ → Word} (h : StackIs s xs)
    (hspec : stackSpec op xs = some ys)
    (hop : ∀ top second r, stackSpec op (top :: second :: r) =
      (binarySpec op second top).map (· :: r))
    (hshort : ∀ x, stackSpec op [x] = none)
    (hval : ∀ top second, binarySpec op second top =
      if top.toNat < 64 then some (f second top.toNat) else none) :
    Leaves (shift f) s ys := by
  refine leaves_of_binary h hspec hop hshort fun top second v hv => ?_
  rw [hval] at hv
  obtain ⟨hlt, hshifted⟩ := Option.ite_none_right_eq_some.1 hv
  cases hshifted
  exact if_pos hlt

/-- **The operators that are as DWARF describes them.** -/
theorem leaves_of_spec {op : DwOp} (h : StackIs s xs) (hspec : stackSpec op xs = some ys)
    (hord : isOrdering op = false) (hfirst : pushesFirst op = false) (vd : Validator) (m : Mem)
    (c : Cursor) : Leaves (execStackOp vd m c op s.operand1 s.operand2) s ys := by
  cases op
  case drop =>
    obtain ⟨x, r, rfl⟩ := exists_of_unary hspec
    cases hspec
    exact leaves_drop h
  case abs =>
    obtain ⟨x, r, rfl⟩ := exists_of_unary hspec
    cases hspec
    rw [abs_eq]
    exact leaves_unary h fun tmp1 => if tmp1.msb then -tmp1 else tmp1
  case swap =>
    obtain ⟨x, r, rfl⟩ := exists_of_unary hspec
    cases r with
    | nil => cases hspec
    | cons y r =>
      cases hspec
      exact leaves_swap h
  case rot =>
    obtain ⟨x, r, rfl⟩ := exists_of_unary hspec
    cases r with
    | nil => cases hspec
    | cons y r =>
      cases r with
      | nil => cases hspec
      | cons z r =>
        cases hspec
        exact leaves_rot h
  case and =>
    refine leaves_of_binary h hspec (fun _ _ _ => rfl) (fun _ => rfl) fun top second v hv => ?_
    cases hv
    rw [BitVec.and_comm]
  case or =>
    refine leaves_of_binary h hspec (fun _ _ _ => rfl) (fun _ => rfl) fun top second v hv => ?_
    cases hv
    rw [BitVec.or_comm]
  case plus =>
    refine leaves_of_binary h hspec (fun _ _ _ => rfl) (fun _ => rfl) fun top second v hv => ?_
    cases hv
    rw [BitVec.add_comm]
  case xor =>
    refine leaves_of_binary h hspec (fun _ _ _ => rfl) (fun _ => rfl) fun top second v hv => ?_
    cases hv
    rw [BitVec.xor_comm]
  case minus =>
    refine leaves_of_binary h hspec (fun _ _ _ => rfl) (fun _ => rfl) fun top second v hv => ?_
    cases hv
    rfl
  case div =>
    refine leaves_of_binary h hspec (fun _ _ _ => rfl) (fun _ => rfl) fun top second v hv => ?_
    simp only [binarySpec] at hv
    unfold Eval.sdiv
    split at hv
    · cases hv
    · next hok =>
      obtain ⟨hzero, hmin⟩ := not_or.1 hok
      cases hv
      rw [if_neg hzero, if_neg hmin]
  case mod =>
    refine leaves_of_binary h hspec (fun _ _ _ => rfl) (fun _ => rfl) fun top second v hv => ?_
    simp only [binarySpec] at hv
    split at hv
    · cases hv
    · next hzero =>
      cases hv
      rw [if_neg hzero]
  case mul =>
    refine leaves_of_binary h hspec (fun _ _ _ => rfl) (fun _ => rfl) fun top second v hv => ?_
    cases hv
    split
    · next hzero => simp [hzero]
    · rfl
  case shl => exact leaves_of_shift h hspec (fun _ _ _ => rfl) (fun _ => rfl) fun _ _ => rfl
  case shr => exact leaves_of_shift h hspec (fun _ _ _ => rfl) (fun _ => rfl) fun _ _ => rfl
  case shra => exact leaves_of_shift h hspec (fun _ _ _ => rfl) (fun _ => rfl) fun _ _ => rfl
  case eq =>
    refine leaves_of_binary h hspec (fun _ _ _ => rfl) (fun _ => rfl) fun top second v hv => ?_
    cases hv
    by_cases heq : top = second
    · simp [heq]
    · simp [heq, Ne.symm heq]
  case ne =>
    refine leaves_of_binary h hspec (fun _ _ _ => rfl) (fun _ => rfl) fun top second v hv => ?_
    cases hv
    by_cases heq : top = second
    · simp [heq]
    · simp [heq, Ne.symm heq]
  all_goals first
    | exact absurd hord (by decide)
    | exact absurd hfirst (by decide)
    | (obtain ⟨x, r, rfl⟩ := exists_of_unary hspec
       cases r <;> cases hspec)

/-- The orderings compare the top entry with the second one. -/
theorem leaves_ordering_iff {op : DwOp} (hord : isOrdering op = true) (h : StackIs s xs)
    (hspec : stackSpec op xs = some ys) (vd : Validator) (m : Mem) (c : Cursor) :
    Leaves (execStackOp vd m c op s.operand1 s.operand2) s ys ↔ xs.head? = xs.tail.head? := by
  obtain ⟨x, r, rfl⟩ := exists_of_unary hspec
  have hbool : ∀ {p q : Prop} [Decidable p] [Decidable q] {r : List Word},
      ((if p then (1 : Word) else 0) :: r = (if q then (1 : Word) else 0) :: r) ↔ (p ↔ q) := by
    intro p q _ _ r
    by_cases hp : p <;> by_cases hq : q <;> simp [hp, hq]
  have hint : ∀ {a b : Word}, a.toInt = b.toInt ↔ a = b := BitVec.toInt_inj
  cases r with
  | nil => cases op <;> first | exact absurd hord (by decide) | cases hspec
  | cons y r =>
    have hhead : (x :: y :: r).head? = (x :: y :: r).tail.head? ↔ x = y := by simp
    rw [hhead]
    cases op
    case le =>
      cases hspec
      refine (leaves_relational h fun tmp1 tmp2 => tmp1.sle tmp2).iff_eq.trans ?_
      rw [BitVec.sle_eq_decide, hbool, decide_eq_true_iff, ← hint]
      omega
    case ge =>
      cases hspec
      refine (leaves_relational h fun tmp1 tmp2 => tmp2.sle tmp1).iff_eq.trans ?_
      rw [BitVec.sle_eq_decide, hbool, decide_eq_true_iff, ← hint]
      omega
    case lt =>
      cases hspec
      refine (leaves_relational h fun tmp1 tmp2 => tmp1.slt tmp2).iff_eq.trans ?_
      rw [BitVec.slt_eq_decide, hbool, decide_eq_true_iff, ← hint]
      omega
    case gt =>
      cases hspec
      refine (leaves_relational h fun tmp1 tmp2 => tmp2.slt tmp1).iff_eq.trans ?_
      rw [BitVec.slt_eq_decide, hbool, decide_eq_true_iff, ← hint]
      omega
    all_goals simp [isOrdering] at hord

/-- The operators that push first need room, whether they leave more entries or not. -/
theorem leaves_pushesFirst_iff {op : DwOp} (hfirst : pushesFirst op = true) (h : StackIs s xs)
    (hspec : stackSpec op xs = some ys) (vd : Validator) (m : Mem) (c : Cursor) :
    Leaves (execStackOp vd m c op s.operand1 s.operand2) s ys ↔ xs.length < maxExprStackSize := by
  obtain ⟨x, r, rfl⟩ := exists_of_unary hspec
  cases op
  case dup =>
    cases hspec
    exact leaves_copy_iff h (pick_spec h (by decide) rfl)
  case «over» =>
    cases r with
    | nil => cases hspec
    | cons y r =>
      cases hspec
      exact leaves_copy_iff h (pick_spec h (by decide) rfl)
  case neg =>
    cases hspec
    rw [BitVec.ofInt_neg, BitVec.ofInt_toInt]
    exact leaves_pushOfPop_iff h fun tmp1 => -tmp1
  case not =>
    cases hspec
    exact leaves_pushOfPop_iff h fun tmp1 => ~~~tmp1
  all_goals simp [pushesFirst] at hfirst

/-- An operation without operands is one case of the `switch`. -/
private theorem execOp_iff {op : DwOp} (hspec : stackSpec op xs = some ys) (vd : Validator)
    (m : Mem) (c : Cursor) :
    (∃ s', execOp vd m c op s = (.ok none, s') ∧ StackIs s' ys ∧ SameButStack s s') ↔
      Leaves (execStackOp vd m c op s.operand1 s.operand2) s ys := by
  have hexec : execOp vd m c op s =
      (execStackOp vd m c op s.operand1 s.operand2 >>= fun _ => pure none) s := by
    cases op
    case reg n =>
      obtain ⟨x, r, rfl⟩ := exists_of_unary hspec
      cases r <;> cases hspec
    case regx =>
      obtain ⟨x, r, rfl⟩ := exists_of_unary hspec
      cases r <;> cases hspec
    all_goals rfl
  rw [hexec]
  constructor
  · rintro ⟨s', hrun, hstack, hsame⟩
    obtain ⟨⟨⟩, s₁, hop, hret⟩ := Act.bind_eq_ok hrun
    cases hret
    exact ⟨_, hop, hstack, hsame⟩
  · rintro ⟨s', hop, hstack, hsame⟩
    exact ⟨s', Act.bind_of_ok hop, hstack, hsame⟩

/-- **When an operator leaves the stack DWARF specifies.** For every operation without
operands and every stack on which DWARF defines it. -/
theorem execOp_meets_stackSpec_iff (vd : Validator) (m : Mem) (c : Cursor) (op : DwOp)
    (s : ExprState) (xs ys : List Word) (h : StackIs s xs)
    (hspec : stackSpec op xs = some ys) :
    (∃ s', execOp vd m c op s = (.ok none, s') ∧ StackIs s' ys ∧ SameButStack s s') ↔
      (isOrdering op = true → xs.head? = xs.tail.head?) ∧
      (pushesFirst op = true → xs.length < maxExprStackSize) := by
  rw [execOp_iff hspec]
  by_cases hord : isOrdering op = true
  · have hfirst : pushesFirst op = false := by
      cases op <;> first | exact absurd hord (by decide) | rfl
    rw [leaves_ordering_iff hord h hspec]
    exact ⟨fun heq => ⟨fun _ => heq, fun hp => absurd hp (by simp [hfirst])⟩,
      fun hcond => hcond.1 hord⟩
  · by_cases hfirst : pushesFirst op = true
    · rw [leaves_pushesFirst_iff hfirst h hspec]
      exact ⟨fun hlt => ⟨fun ho => absurd ho hord, fun _ => hlt⟩, fun hcond => hcond.2 hfirst⟩
    · have hleaves := leaves_of_spec h hspec (Bool.eq_false_of_not_eq_true hord)
        (Bool.eq_false_of_not_eq_true hfirst) vd m c
      exact ⟨fun _ => ⟨fun ho => absurd ho hord, fun hp => absurd hp hfirst⟩, fun _ => hleaves⟩

end

/-- A state with this stack. -/
def ExprState.ofStack (xs : List Word) : ExprState :=
  ⟨0, fun i => xs.reverse[i.val]?, BitVec.ofNat 32 xs.length, 0, 0, Lga.empty, []⟩

theorem stackIs_ofStack {xs : List Word} (h : xs.length ≤ maxExprStackSize) :
    StackIs (.ofStack xs) xs := by
  refine ⟨?_, h, fun _ _ => rfl⟩
  unfold maxExprStackSize at h
  change (BitVec.ofNat 32 xs.length).toNat = xs.length
  rw [BitVec.toNat_ofNat]
  omega

/-- A cursor in which nothing is set. -/
def zeroCursor : Cursor where
  cfa := 0
  ip := 0
  argsSize := 0
  retAddrColumn := 0
  ehArgs _ := 0
  ehValidMask := 0
  loc _ := 0
  stashFrames := false
  usePrevInstr := false
  piValid := false
  piIsDynamic := false
  pi := .zero
  frameInfo := ⟨0, .other, false, false, 0, 0, 0⟩
  sigcontextFormat := .none
  sigcontextAddr := 0
  validate := false
  uc := 0

/-- `3 - 5`, with `5` on top. -/
theorem execOp_minus_of_five_three :
    stackSpec .minus [5, 3] = some [-2] ∧
      ∃ s', execOp msyncValidate (fun _ => 0) zeroCursor .minus (.ofStack [5, 3]) =
        (.ok none, s') ∧ StackIs s' [-2] ∧ SameButStack (.ofStack [5, 3]) s' := by
  have hspec : stackSpec .minus [5, 3] = some [-2] := by decide
  refine ⟨hspec, (execOp_meets_stackSpec_iff msyncValidate (fun _ => 0) zeroCursor .minus
    (.ofStack [5, 3]) [5, 3] [-2] (stackIs_ofStack (by decide)) hspec).2 ⟨?_, ?_⟩⟩
  · exact fun hord => absurd hord (by decide)
  · exact fun hfirst => absurd hfirst (by decide)

/-- `3 ≥ 5` is false, and the evaluator pushes `1`. -/
theorem execOp_ge_of_five_three :
    StackIs (.ofStack [5, 3]) [5, 3] ∧ stackSpec .ge [5, 3] = some [0] ∧
      ∃ s', execOp msyncValidate (fun _ => 0) zeroCursor .ge (.ofStack [5, 3]) = (.ok none, s') ∧
        StackIs s' [1] ∧ ¬ StackIs s' [0] := by
  have hstack : StackIs (.ofStack [5, 3]) [5, 3] := stackIs_ofStack (by decide)
  obtain ⟨s', hrun, hleft, -⟩ := leaves_relational hstack fun tmp1 tmp2 => tmp2.sle tmp1
  have hone : (if (3 : Word).sle 5 then (1 : Word) else 0) = 1 := by decide
  rw [hone] at hleft
  refine ⟨hstack, by decide, s', ?_, hleft, ?_⟩
  · change ((relational fun tmp1 tmp2 => tmp2.sle tmp1) >>= fun _ => pure none)
      (.ofStack [5, 3]) = _
    rw [Act.bind_of_ok hrun, Act.pure_apply]
  intro hzero
  have hlist := hleft.unique hzero
  exact absurd hlist (by decide)

end LibunwindKern
