import LibunwindKern.Dwarf.PointerDecode
import LibunwindKern.Dwarf.ExprFraming

/-!
# Location expressions as trees

A producer of location expressions thinks in terms of trees: constants, registers, memory, operators,
names for intermediate values, and conditions. `ExprTree` is that language. `ExprTree.value` is what a
tree means, and `ExprTree.code` is its postfix encoding, in which a name is an entry of the stack and
a condition is made of `DW_OP_bra` and `DW_OP_skip`.

The evaluator has room for 64 entries, and `ExprTree.height` is how many of them are in use at most.
It depends on the values, since only one branch of a condition is evaluated.

* `Computes` says what a piece of code does to the stack, and `Computes.seq` puts two pieces one
  behind the other.
* `code_computes`: the code of a tree pushes its value, and leaves what was on the stack.
* `dwarfEvalExpr_tree`: the value of the expression is the value of the tree if the stack is large
  enough, and it is refused otherwise.
-/

namespace LibunwindKern

open CProg ByteMem Leb128 Eval

/-! ### Trees -/

/-- The operators that replace the value of a tree. -/
inductive UnaryOp where
  | deref | abs | neg | not | plusUconst (n : Word)
  deriving DecidableEq, Repr

/-- The operators on two trees. -/
inductive BinaryOp where
  | and | div | minus | mod | mul | or | plus | shl | shr | shra | xor
  | eq | ge | gt | le | lt | ne
  deriving DecidableEq, Repr

/-- Expression trees. -/
inductive ExprTree where
  | const (val : Word)
  /-- An entry of the stack that the tree is evaluated on. -/
  | entry (n : Byte)
  /-- The contents of a register plus an offset. -/
  | reg (n : Fin 32) (offset : Word)
  | unary (op : UnaryOp) (e : ExprTree)
  /-- The second tree is evaluated above the value of the first. -/
  | binary (op : BinaryOp) (e₁ e₂ : ExprTree)
  /-- The value of the first tree is an entry for the second. -/
  | letIn (e body : ExprTree)
  | cond (test ifTrue ifFalse : ExprTree)
  deriving DecidableEq, Repr

/-- The opcode of an operator. -/
def BinaryOp.opcode : BinaryOp → Byte
  | and => 0x1a
  | div => 0x1b
  | minus => 0x1c
  | mod => 0x1d
  | mul => 0x1e
  | or => 0x21
  | plus => 0x22
  | shl => 0x24
  | shr => 0x25
  | shra => 0x26
  | xor => 0x27
  | eq => 0x29
  | ge => 0x2a
  | gt => 0x2b
  | le => 0x2c
  | lt => 0x2d
  | ne => 0x2e

/-- The operator on two values. Division by zero gives zero. An ordering is one of the second value
and the first one. -/
def BinaryOp.apply (op : BinaryOp) (x y : Word) : Option Word :=
  match op with
  | and => some (x &&& y)
  | div =>
    if y = 0 then some 0
    else if y = BitVec.allOnes 64 ∧ x = BitVec.intMin 64 then none
    else some (x.sdiv y)
  | minus => some (x - y)
  | mod => some (if y = 0 then 0 else x % y)
  | mul => some (x * y)
  | or => some (x ||| y)
  | plus => some (x + y)
  | shl => if y.toNat < 64 then some (x <<< y.toNat) else none
  | shr => if y.toNat < 64 then some (x >>> y.toNat) else none
  | shra => if y.toNat < 64 then some (x.sshiftRight y.toNat) else none
  | xor => some (x ^^^ y)
  | eq => some (if x = y then 1 else 0)
  | ge => some (if x.sle y then 1 else 0)
  | gt => some (if x.slt y then 1 else 0)
  | le => some (if y.sle x then 1 else 0)
  | lt => some (if y.slt x then 1 else 0)
  | ne => some (if x ≠ y then 1 else 0)

/-- The operator on a value. -/
def UnaryOp.apply (m : Mem) (op : UnaryOp) (x : Word) : Word :=
  match op with
  | deref => load64 m x
  | abs => if x.msb then -x else x
  | neg => -x
  | not => ~~~x
  | plusUconst n => x + n

/-- The operators that look for room before they pop. -/
def UnaryOp.pushesFirst : UnaryOp → Bool
  | neg | not => true
  | _ => false

/-- The code of an operator. -/
def UnaryOp.code : UnaryOp → List Byte
  | deref => [0x06]
  | abs => [0x19]
  | neg => [0x1f]
  | not => [0x20]
  | plusUconst n => 0x23 :: ulebBytes 9 n.toNat

namespace ExprTree

/-- The code of a branch. -/
def branchCode (opcode : Byte) (len : ℕ) : List Byte := opcode :: leBytes 2 len

/-- The code of a tree. -/
def code : ExprTree → List Byte
  | const val => 0x0e :: leBytes 8 val.toNat
  | entry n => [0x15, n]
  | reg n offset => (0x70 + BitVec.ofNat 8 n) :: slebBytes 9 offset.toInt
  | unary op e => e.code ++ op.code
  | binary op e₁ e₂ => e₁.code ++ (e₂.code ++ [op.opcode])
  -- `DW_OP_swap`, `DW_OP_drop`
  | letIn e body => e.code ++ (body.code ++ [0x16, 0x13])
  | cond test ifTrue ifFalse =>
    test.code ++ (branchCode 0x28 (ifFalse.code.length + 3) ++
      (ifFalse.code ++ (branchCode 0x2f ifTrue.code.length ++ ifTrue.code)))

/-- The branches of the tree are short enough for their offsets. -/
def Short : ExprTree → Prop
  | const _ | entry _ | reg _ _ => True
  | unary _ e => e.Short
  | binary _ e₁ e₂ => e₁.Short ∧ e₂.Short
  | letIn e body => e.Short ∧ body.Short
  | cond test ifTrue ifFalse =>
    test.Short ∧ ifTrue.Short ∧ ifFalse.Short ∧ ifTrue.code.length < 2 ^ 15 ∧
      ifFalse.code.length + 3 < 2 ^ 15

section

variable (m : Mem) (regs : Fin 32 → Option Word)

/-- The value of a tree on a stack. -/
def value : List Word → ExprTree → Option Word
  | _, const val => some val
  | stack, entry n => stack[n.toNat]?
  | _, reg n offset => (regs n).map (· + offset)
  | stack, unary op e => (value stack e).map (op.apply m)
  | stack, binary op e₁ e₂ => do
    let x ← value stack e₁
    let y ← value (x :: stack) e₂
    op.apply x y
  | stack, letIn e body => do
    let x ← value stack e
    value (x :: stack) body
  | stack, cond test ifTrue ifFalse => do
    let x ← value stack test
    if x ≠ 0 then value stack ifTrue else value stack ifFalse

/-- The height that the stack needs. -/
def height : List Word → ExprTree → ℕ
  | stack, const _ | stack, entry _ | stack, reg _ _ => stack.length + 1
  | stack, unary op e => max (height stack e) (if op.pushesFirst then stack.length + 2 else 0)
  | stack, binary _ e₁ e₂ =>
    max (height stack e₁) (((value m regs stack e₁).map fun x => height (x :: stack) e₂).getD 0)
  | stack, letIn e body =>
    max (height stack e) (((value m regs stack e).map fun x => height (x :: stack) body).getD 0)
  | stack, cond test ifTrue ifFalse =>
    max (height stack test) (((value m regs stack test).map fun x =>
      if x ≠ 0 then height stack ifTrue else height stack ifFalse).getD 0)

end

end ExprTree

/-! ### Pieces of code -/

section Code

variable (v : Validator) (m : Mem) (c : Cursor) (e : Word)

/-- In at most `n` turns the evaluator gets from one state to the other. -/
def Gets (n : ℕ) (s t : ExprState) : Prop :=
  ∃ k ≤ n, ∀ fuel, Act.iter (evalTurn v m c e) (k + fuel) () s =
    Act.iter (evalTurn v m c e) fuel () t

/-- In at most `n` turns the evaluator refuses the expression. -/
def Refuses (n : ℕ) (s : ExprState) : Prop :=
  ∃ k ≤ n, ∃ t, ∀ fuel, Act.iter (evalTurn v m c e) (k + fuel) () s = (.err .einval, t)

/-- The code from `a` to `b` takes at most `n` turns. It makes `ys` of the stack `xs` if there is
room, and is refused otherwise. -/
def Computes (a b : Word) (n : ℕ) (xs : List Word) (room : Prop) (ys : List Word) : Prop :=
  ∀ s : ExprState, s.addr = a → StackIs s xs →
    (room → ∃ t, Gets v m c e n s t ∧ t.addr = b ∧ StackIs t ys) ∧ (¬room → Refuses v m c e n s)

end Code

section Pieces

variable {v : Validator} {m : Mem} {c : Cursor} {e : Word} {a b d : Word} {n k : ℕ}
  {xs ys zs : List Word} {p q : Prop} {s t u : ExprState}

theorem Gets.trans (h : Gets v m c e n s t) (h' : Gets v m c e k t u) :
    Gets v m c e (n + k) s u := by
  obtain ⟨i, hi, hrun⟩ := h
  obtain ⟨j, hj, hrun'⟩ := h'
  exact ⟨i + j, Nat.add_le_add hi hj, fun fuel => by rw [Nat.add_assoc, hrun, hrun']⟩

theorem Gets.refuses (h : Gets v m c e n s t) (h' : Refuses v m c e k t) :
    Refuses v m c e (n + k) s := by
  obtain ⟨i, hi, hrun⟩ := h
  obtain ⟨j, hj, u, hrun'⟩ := h'
  exact ⟨i + j, Nat.add_le_add hi hj, u, fun fuel => by rw [Nat.add_assoc, hrun, hrun']⟩

theorem Refuses.mono (h : Refuses v m c e n s) (hle : n ≤ k) : Refuses v m c e k s := by
  obtain ⟨i, hi, hrun⟩ := h
  exact ⟨i, Nat.le_trans hi hle, hrun⟩

/-- **One piece behind the other.** -/
theorem Computes.seq (h : Computes v m c e a b n xs p ys)
    (h' : p → Computes v m c e b d k ys q zs) :
    Computes v m c e a d (n + k) xs (p ∧ q) zs := by
  intro s ha hs
  obtain ⟨hfirst, hstop⟩ := h s ha hs
  by_cases hp : p
  · obtain ⟨t, hgets, hb, ht⟩ := hfirst hp
    obtain ⟨hsecond, hstop'⟩ := h' hp t hb ht
    refine ⟨fun hpq => ?_, fun hpq => hgets.refuses (hstop' fun hq => hpq ⟨hp, hq⟩)⟩
    obtain ⟨u, hgets', hd, hu⟩ := hsecond hpq.2
    exact ⟨u, hgets.trans hgets', hd, hu⟩
  · exact ⟨fun hpq => absurd hpq.1 hp, fun _ => (hstop hp).mono (Nat.le_add_right n k)⟩

theorem Computes.congr (h : Computes v m c e a b n xs p ys) (hle : n ≤ k) (hb : b = d)
    (hiff : p ↔ q) : Computes v m c e a d k xs q ys := by
  subst hb
  intro s ha hs
  obtain ⟨hroom, hstop⟩ := h s ha hs
  refine ⟨fun hq => ?_, fun hq => (hstop (mt hiff.1 hq)).mono hle⟩
  obtain ⟨t, ⟨i, hi, hrun⟩, hb, ht⟩ := hroom (hiff.2 hq)
  exact ⟨t, ⟨i, Nat.le_trans hi hle, hrun⟩, hb, ht⟩

/-- **One instruction.** `P` is what is known of the operand. -/
theorem computes_instr (op : DwOp) (width : ℕ) (P : Word → Prop) (hlt : a < e)
    (hop : DwOp.ofByte (m a) = some op)
    (hread : ∀ s : ExprState, s.addr = a + 1 → ∃ o, P o ∧
      readOperands m op s = (.ok (), { s with addr := past s.addr width, operand1 := o }))
    (hexec : ∀ s, execOp v m c op s =
      (execStackOp v m c op s.operand1 s.operand2 >>= fun _ => pure none) s)
    (hdo : ∀ s : ExprState, s.addr = past a (width + 1) → StackIs s xs → P s.operand1 →
      (p → ∃ t, execStackOp v m c op s.operand1 s.operand2 s = (.ok (), t) ∧ t.addr = b ∧
        StackIs t ys) ∧
      (¬p → ∃ t, execStackOp v m c op s.operand1 s.operand2 s = (.err .einval, t))) :
    Computes v m c e a b 1 xs p ys := by
  intro s ha hs
  obtain ⟨o, ho, hoperands⟩ := hread s.pastOpcode (by rw [← ha]; rfl)
  have hturn : evalTurn v m c e () s =
      (readOperands m op >>= fun _ => execOp v m c op >>= afterOp) s.pastOpcode := by
    rw [evalTurn_of_lt (ha ▸ hlt), ha, hop]
  rw [Act.bind_of_ok hoperands] at hturn
  obtain ⟨hroom, hstop⟩ := hdo
    { s.pastOpcode with addr := past s.pastOpcode.addr width, operand1 := o }
    (by rw [← past_succ, ← ha]; rfl) (hs.of_same rfl rfl) ho
  constructor
  · intro hp
    obtain ⟨t, hrun, hb, ht⟩ := hroom hp
    have hgo : evalTurn v m c e () s = (.ok (.inl ()), t) := by
      rw [hturn, Act.bind_of_ok ((hexec _).trans (Act.bind_of_ok hrun))]
      rfl
    exact ⟨t, ⟨1, le_rfl, fun fuel => by rw [Nat.add_comm, Act.iter_of_inl fuel hgo]⟩, hb, ht⟩
  · intro hp
    obtain ⟨t, hrun⟩ := hstop hp
    have hend : evalTurn v m c e () s = (.err .einval, t) := by
      rw [hturn, Act.bind_of_err ((hexec _).trans (Act.bind_of_err hrun))]
    refine ⟨1, le_rfl, t, fun fuel => ?_⟩
    rw [Nat.add_comm, Act.iter, Act.bind_of_err hend]

/-- An instruction without operands. -/
theorem computes_plain (op : DwOp) (hlt : a < e) (hop : DwOp.ofByte (m a) = some op)
    (hnone : operands op = [])
    (hexec : ∀ s, execOp v m c op s =
      (execStackOp v m c op s.operand1 s.operand2 >>= fun _ => pure none) s)
    (hdo : ∀ s : ExprState, StackIs s xs →
      (p → Leaves (execStackOp v m c op s.operand1 s.operand2) s ys) ∧
      (¬p → ∃ t, execStackOp v m c op s.operand1 s.operand2 s = (.err .einval, t))) :
    Computes v m c e a (past a 1) 1 xs p ys := by
  refine computes_instr op 0 (fun _ => True) hlt hop (fun s _ => ⟨s.operand1, trivial, ?_⟩)
    hexec fun s ha hs _ => ⟨fun hp => ?_, (hdo s hs).2⟩
  · unfold readOperands
    rw [hnone, past_zero]
    rfl
  · obtain ⟨t, hrun, ht, hsame⟩ := (hdo s hs).1 hp
    exact ⟨t, hrun, hsame.addr.trans ha, ht⟩

/-- An instruction with one operand. -/
theorem computes_operand (op : DwOp) {type : OperandType} {width : ℕ} {val : Word} (hlt : a < e)
    (hop : DwOp.ofByte (m a) = some op) (hone : operands op = [type])
    (hread : readOperand m type (a + 1) = (.ok val, past (a + 1) width))
    (hexec : ∀ s, execOp v m c op s =
      (execStackOp v m c op s.operand1 s.operand2 >>= fun _ => pure none) s)
    (hdo : ∀ s : ExprState, s.addr = past a (width + 1) → StackIs s xs → s.operand1 = val →
      (p → ∃ t, execStackOp v m c op s.operand1 s.operand2 s = (.ok (), t) ∧ t.addr = b ∧
        StackIs t ys) ∧
      (¬p → ∃ t, execStackOp v m c op s.operand1 s.operand2 s = (.err .einval, t))) :
    Computes v m c e a b 1 xs p ys := by
  refine computes_instr op width (· = val) hlt hop (fun s ha => ⟨val, rfl, ?_⟩) hexec hdo
  rw [← ha] at hread
  unfold readOperands
  rw [hone]
  dsimp only
  rw [Act.bind_of_ok (onAddr_eq hread)]
  rfl

/-! ### The operators -/

/-- Push a value, if there is room. -/
theorem push_or_refuse (h : StackIs s xs) (val : Word) :
    (xs.length + 1 ≤ maxExprStackSize → ∃ t, push val s = (.ok (), t) ∧ t.addr = s.addr ∧
      StackIs t (val :: xs)) ∧
    (¬xs.length + 1 ≤ maxExprStackSize → push val s = (.err .einval, s)) := by
  refine ⟨fun hroom => ?_, fun hfull => ?_⟩
  · obtain ⟨t, hrun, ht, hsame⟩ := push_spec h hroom val
    exact ⟨t, hrun, hsame.addr, ht⟩
  · exact push_full h (Nat.le_antisymm h.le (Nat.le_of_lt_succ (Nat.lt_of_not_le hfull))) val

/-- **The operators on two values.** -/
theorem binaryOp_spec (op : BinaryOp) : ∃ dwOp f, DwOp.ofByte op.opcode = some dwOp ∧
    operands dwOp = [] ∧
    (∀ s, execOp v m c dwOp s =
      (execStackOp v m c dwOp s.operand1 s.operand2 >>= fun _ => pure none) s) ∧
    (∀ o₁ o₂, execStackOp v m c dwOp o₁ o₂ = Eval.binary f) ∧
    ∀ x y val, op.apply x y = some val → f y x = .ok val := by
  have hshift : ∀ {y val w : Word}, (if y.toNat < 64 then some w else none) = some val →
      (if y.toNat < 64 then (.ok w : Res UnwError Word) else .undefined) = .ok val := by
    intro y val w h
    obtain ⟨hlt, hval⟩ := Option.ite_none_right_eq_some.1 h
    rw [if_pos hlt, Option.some.inj hval]
  cases op with
  | and =>
    refine ⟨.and, _, rfl, rfl, fun _ => rfl, fun _ _ => rfl, fun x y val h => ?_⟩
    cases h
    rw [BitVec.and_comm]
  | div =>
    refine ⟨.div, _, rfl, rfl, fun _ => rfl, fun _ _ => rfl, fun x y val h => ?_⟩
    simp only [BinaryOp.apply] at h
    unfold Eval.sdiv
    split_ifs at h with hzero hmin
    · cases h
      rw [if_pos hzero, hzero]
    · cases h
      rw [if_neg hzero, if_neg hmin]
  | minus =>
    refine ⟨.minus, _, rfl, rfl, fun _ => rfl, fun _ _ => rfl, fun x y val h => ?_⟩
    cases h
    rfl
  | mod =>
    refine ⟨.mod, _, rfl, rfl, fun _ => rfl, fun _ _ => rfl, fun x y val h => ?_⟩
    cases h
    by_cases hzero : y = 0
    · rw [if_pos hzero, if_pos hzero, hzero]
    · rw [if_neg hzero, if_neg hzero]
  | mul =>
    refine ⟨.mul, _, rfl, rfl, fun _ => rfl, fun _ _ => rfl, fun x y val h => ?_⟩
    cases h
    by_cases hzero : y = 0
    · simp [hzero]
    · rw [if_neg hzero]
  | or =>
    refine ⟨.or, _, rfl, rfl, fun _ => rfl, fun _ _ => rfl, fun x y val h => ?_⟩
    cases h
    rw [BitVec.or_comm]
  | plus =>
    refine ⟨.plus, _, rfl, rfl, fun _ => rfl, fun _ _ => rfl, fun x y val h => ?_⟩
    cases h
    rw [BitVec.add_comm]
  | xor =>
    refine ⟨.xor, _, rfl, rfl, fun _ => rfl, fun _ _ => rfl, fun x y val h => ?_⟩
    cases h
    rw [BitVec.xor_comm]
  | shl => exact ⟨.shl, _, rfl, rfl, fun _ => rfl, fun _ _ => rfl, fun x y val h => hshift h⟩
  | shr => exact ⟨.shr, _, rfl, rfl, fun _ => rfl, fun _ _ => rfl, fun x y val h => hshift h⟩
  | shra => exact ⟨.shra, _, rfl, rfl, fun _ => rfl, fun _ _ => rfl, fun x y val h => hshift h⟩
  | eq =>
    refine ⟨.eq, _, rfl, rfl, fun _ => rfl, fun _ _ => rfl, fun x y val h => ?_⟩
    cases h
    by_cases heq : x = y
    · simp [heq]
    · simp [heq, Ne.symm heq]
  | ne =>
    refine ⟨.ne, _, rfl, rfl, fun _ => rfl, fun _ _ => rfl, fun x y val h => ?_⟩
    cases h
    by_cases heq : x = y
    · simp [heq]
    · simp [heq, Ne.symm heq]
  | ge =>
    refine ⟨.ge, _, rfl, rfl, fun _ => rfl, fun _ _ => rfl, fun x y val h => ?_⟩
    cases h
    rfl
  | gt =>
    refine ⟨.gt, _, rfl, rfl, fun _ => rfl, fun _ _ => rfl, fun x y val h => ?_⟩
    cases h
    rfl
  | le =>
    refine ⟨.le, _, rfl, rfl, fun _ => rfl, fun _ _ => rfl, fun x y val h => ?_⟩
    cases h
    rfl
  | lt =>
    refine ⟨.lt, _, rfl, rfl, fun _ => rfl, fun _ _ => rfl, fun x y val h => ?_⟩
    cases h
    rfl

theorem Leaves.result {x : Eval Unit} (h : Leaves x s ys) (ha : s.addr = a) :
    ∃ t, x s = (.ok (), t) ∧ t.addr = a ∧ StackIs t ys := by
  obtain ⟨t, hrun, ht, hsame⟩ := h
  exact ⟨t, hrun, hsame.addr.trans ha, ht⟩

theorem computes_binary {x y val : Word} (op : BinaryOp) (h : BytesAt m a [op.opcode]) (hlt : a < e)
    (hval : op.apply x y = some val) :
    Computes v m c e a (past a 1) 1 (y :: x :: xs) True (val :: xs) := by
  obtain ⟨dwOp, f, hop, hnone, hexec, hrun, hf⟩ := binaryOp_spec (v := v) (m := m) (c := c) op
  refine computes_plain dwOp hlt (h.1 ▸ hop) hnone hexec fun s hs =>
    ⟨fun _ => ?_, fun hp => absurd trivial hp⟩
  rw [hrun]
  exact leaves_binary hs (hf x y val hval)

theorem pushOfPop_full {x : Word} (h : StackIs s (x :: xs)) (hfull : ¬xs.length + 2 ≤ maxExprStackSize)
    (f : Word → Word) : pushOfPop f s = (.err .einval, s) := by
  have hdepth : s.tos.toNat = xs.length + 1 := h.depth
  unfold pushOfPop
  rw [Act.get_bind, if_neg (by omega)]
  rfl

theorem computes_unary {x : Word} (op : UnaryOp) (h : BytesAt m a op.code) (hlt : a < e) :
    Computes v m c e a (past a op.code.length) 1 (x :: xs)
      ((if op.pushesFirst then xs.length + 2 else 0) ≤ maxExprStackSize) (op.apply m x :: xs) := by
  have hfits : ¬0 ≤ maxExprStackSize → ∀ {q : Prop}, q := fun hp => absurd (Nat.zero_le _) hp
  cases op with
  | deref =>
    exact computes_plain .deref hlt (by rw [h.1]; rfl) rfl (fun _ => rfl) fun s hs =>
      ⟨fun _ => leaves_unary hs fun x => load64 m x, fun hp => hfits hp⟩
  | abs =>
    exact computes_plain .abs hlt (by rw [h.1]; rfl) rfl (fun _ => rfl) fun s hs =>
      ⟨fun _ => leaves_unary hs fun x => if x.msb then -x else x, fun hp => hfits hp⟩
  | neg =>
    exact computes_plain .neg hlt (by rw [h.1]; rfl) rfl (fun _ => rfl) fun s hs =>
      ⟨(leaves_pushOfPop_iff hs fun x => -x).2, fun hp => ⟨s, pushOfPop_full hs hp _⟩⟩
  | not =>
    exact computes_plain .not hlt (by rw [h.1]; rfl) rfl (fun _ => rfl) fun s hs =>
      ⟨(leaves_pushOfPop_iff hs fun x => ~~~x).2, fun hp => ⟨s, pushOfPop_full hs hp _⟩⟩
  | plusUconst n =>
    have hread : readOperand m .uleb128 (a + 1) =
        (.ok n, past (a + 1) (ulebBytes 9 n.toNat).length) := by
      have hn : n.toNat < 128 ^ 10 := Nat.lt_of_lt_of_le n.isLt (by decide)
      exact dwarfReadUleb128_of_ulebAt
        ⟨_, uleb_ulebBytes hn, rfl, ulebBytes_length_le 9 _, h.2⟩
    refine computes_operand .plusUconst hlt (by rw [h.1]; rfl) rfl hread (fun _ => rfl)
      fun s ha hs ho => ⟨fun _ => ?_, fun hp => hfits hp⟩
    rw [ho]
    exact (leaves_unary hs fun x => x + n).result ha

/-! ### The leaves of a tree -/

theorem computes_const {val : Word} (h : BytesAt m a (0x0e :: leBytes 8 val.toNat)) (hlt : a < e) :
    Computes v m c e a (past a 9) 1 xs (xs.length + 1 ≤ maxExprStackSize) (val :: xs) := by
  have hread : readOperand m .val64 (a + 1) = (.ok val, past (a + 1) 8) := by
    rw [← load64_leBytes h.2]
    rfl
  refine computes_operand .const8u hlt (by rw [h.1]; rfl) rfl hread (fun _ => rfl)
    fun s ha hs ho => ?_
  obtain ⟨hroom, hfull⟩ := push_or_refuse hs val
  rw [ho, ← ha]
  exact ⟨hroom, fun hp => ⟨s, hfull hp⟩⟩

theorem computes_entry {n : Byte} {val : Word} (h : BytesAt m a [0x15, n]) (hlt : a < e)
    (hval : xs[n.toNat]? = some val) :
    Computes v m c e a (past a 2) 1 xs (xs.length + 1 ≤ maxExprStackSize) (val :: xs) := by
  have hread : readOperand m .val8 (a + 1) = (.ok (n.setWidth 64), past (a + 1) 1) := by
    rw [← h.2.1]
    rfl
  have hn : (n.setWidth 64).toNat = n.toNat := by
    rw [BitVec.toNat_setWidth]
    have := n.isLt
    omega
  refine computes_operand .pick hlt (by rw [h.1]; rfl) rfl hread (fun _ => rfl)
    fun s ha hs ho => ?_
  have hpick : Eval.pick (n.setWidth 64) s = (.ok val, s) := by
    refine pick_spec hs (Nat.lt_of_lt_of_le (hn ▸ n.isLt) (by decide)) ?_
    rw [hn]
    exact hval
  obtain ⟨hroom, hfull⟩ := push_or_refuse hs val
  have hrun : execStackOp v m c .pick s.operand1 s.operand2 s = push val s := by
    rw [ho]
    exact Act.bind_of_ok hpick
  rw [hrun, ← ha]
  exact ⟨hroom, fun hp => ⟨s, hfull hp⟩⟩

/-- The registers hold these values, and they can be read. -/
def Readable (v : Validator) (m : Mem) (c : Cursor) (regs : Fin 32 → Option Word) : Prop :=
  ∀ n val, regs n = some val → n.val < dwarfNumPreservedRegs ∧
    ∀ g, ∃ g', unwGetReg v m c n.val g = (.ok val, g')

theorem computes_reg {regs : Fin 32 → Option Word} (hregs : Readable v m c regs) {n : Fin 32}
    {offset val : Word} (h : BytesAt m a ((0x70 + BitVec.ofNat 8 n) :: slebBytes 9 offset.toInt))
    (hlt : a < e) (hval : regs n = some val) :
    Computes v m c e a (past a ((slebBytes 9 offset.toInt).length + 1)) 1 xs
      (xs.length + 1 ≤ maxExprStackSize) ((val + offset) :: xs) := by
  have hop : ∀ n : Fin 32, DwOp.ofByte (0x70 + BitVec.ofNat 8 n) = some (.breg n) := by decide
  have hread : readOperand m .sleb128 (a + 1) =
      (.ok offset, past (a + 1) (slebBytes 9 offset.toInt).length) :=
    dwarfReadSleb128_of_slebAt ⟨_, sleb_word offset, rfl, slebBytes_length_le 9 _, h.2⟩
  obtain ⟨hn, hget⟩ := hregs n val hval
  refine computes_operand (.breg n) hlt (by rw [h.1, hop]) rfl hread (fun _ => rfl)
    fun s ha hs ho => ?_
  obtain ⟨g, hrun⟩ := hget s.lga
  have hnum : (BitVec.ofNat 64 n.val).toNat = n.val := by
    rw [BitVec.toNat_ofNat]
    omega
  have hregnum : dwarfToUnwRegnum (BitVec.ofNat 64 n.val) = .ok n.val := by
    unfold dwarfToUnwRegnum
    rw [hnum, if_pos hn]
  have hpush : execStackOp v m c (.breg n) s.operand1 s.operand2 s =
      push (val + offset) { s with lga := g } := by
    show pushReg v m c (BitVec.ofNat 64 n.val) s.operand1 s = _
    have hlga : onLga (unwGetReg v m c n.val) s = (.ok val, { s with lga := g }) := by
      unfold onLga
      rw [Act.zoom_apply, hrun]
    unfold pushReg
    rw [hregnum, Act.lift_ok_bind, Act.bind_of_ok hlga, ho]
  obtain ⟨hroom, hfull⟩ := push_or_refuse (hs.of_same (t := { s with lga := g }) rfl rfl)
    (val + offset)
  rw [hpush, ← ha]
  exact ⟨hroom, fun hp => ⟨_, hfull hp⟩⟩

/-! ### Branches and names -/

theorem branch_eq {len : ℕ} (h : BytesAt m b (leBytes 2 len)) (hlen : len < 2 ^ 15)
    (ho : s.operand1 = (load16 m b).setWidth 64) :
    branch s = (.ok (), { s with addr := past s.addr len }) := by
  have hnat : (BitVec.ofNat 64 len).toNat = len := by
    rw [BitVec.toNat_ofNat]
    omega
  have hload : (load16 m b).setWidth 64 = BitVec.ofNat 64 len := by
    apply BitVec.eq_of_toNat_eq
    rw [BitVec.toNat_setWidth, toNat_load16, loadNat_leBytes h, hnat]
    omega
  have hint : (BitVec.ofNat 64 len).toInt = len := by
    rw [BitVec.toInt_eq_toNat_of_lt (by omega), hnat]
  have hoffset : ((BitVec.ofNat 64 len).setWidth 16).signExtend 64 = BitVec.ofNat 64 len :=
    signExtend_setWidth_of_fits (by decide) (by omega) (by omega)
  unfold branch
  rw [Act.modify_apply, ho, hload, hoffset]
  rfl

theorem computes_skip (xs : List Word) {len : ℕ}
    (h : BytesAt m a (ExprTree.branchCode 0x2f len)) (hlt : a < e)
    (hlen : len < 2 ^ 15) : Computes v m c e a (past a (3 + len)) 1 xs True xs := by
  have hread : readOperand m .val16 (a + 1) =
      (.ok ((load16 m (a + 1)).setWidth 64), past (a + 1) 2) := rfl
  refine computes_operand .skip hlt (by rw [h.1]; rfl) rfl hread (fun _ => rfl)
    fun s ha hs ho => ⟨fun _ => ⟨_, branch_eq h.2 hlen ho, ?_, hs.of_same rfl rfl⟩,
      fun hp => absurd trivial hp⟩
  show past s.addr len = _
  rw [ha, past_past]

/-- The branch is taken unless the entry on top is zero. -/
theorem computes_bra (x : Word) (xs : List Word) {len : ℕ}
    (h : BytesAt m a (ExprTree.branchCode 0x28 len)) (hlt : a < e) (hlen : len < 2 ^ 15) :
    Computes v m c e a (if x ≠ 0 then past a (3 + len) else past a 3) 1 (x :: xs) True xs := by
  have hread : readOperand m .val16 (a + 1) =
      (.ok ((load16 m (a + 1)).setWidth 64), past (a + 1) 2) := rfl
  refine computes_operand .bra hlt (by rw [h.1]; rfl) rfl hread (fun _ => rfl)
    fun s ha hs ho => ⟨fun _ => ?_, fun hp => absurd trivial hp⟩
  obtain ⟨t, hpop, ht, hsame⟩ := pop_spec hs
  have hrun : execStackOp v m c .bra s.operand1 s.operand2 s =
      (if x ≠ 0 then branch else pure () : Eval Unit) t := Act.bind_of_ok hpop
  rw [hrun]
  by_cases hx : x ≠ 0
  · rw [if_pos hx, if_pos hx, branch_eq h.2 hlen (hsame.operand1.trans ho)]
    refine ⟨_, rfl, ?_, ht.of_same rfl rfl⟩
    show past t.addr len = _
    rw [hsame.addr, ha, past_past]
  · rw [if_neg hx, if_neg hx]
    exact ⟨t, rfl, hsame.addr.trans ha, ht⟩

/-- The value on top takes the place of the one under it. -/
theorem computes_nip {x y : Word} (h : BytesAt m a [0x16, 0x13]) (hlt : a < e) (hlt' : past a 1 < e) :
    Computes v m c e a (past a 2) 2 (y :: x :: xs) True (y :: xs) := by
  have hswap : Computes v m c e a (past a 1) 1 (y :: x :: xs) True (x :: y :: xs) :=
    computes_plain .swap hlt (by rw [h.1]; rfl) rfl (fun _ => rfl) fun s hs =>
      ⟨fun _ => leaves_swap hs, fun hp => absurd trivial hp⟩
  have hdrop : Computes v m c e (past a 1) (past (past a 1) 1) 1 (x :: y :: xs) True (y :: xs) :=
    computes_plain .drop hlt' (by rw [show past a 1 = a + 1 from rfl, h.2.1]; rfl) rfl
      (fun _ => rfl) fun s hs => ⟨fun _ => leaves_drop hs, fun hp => absurd trivial hp⟩
  exact (hswap.seq fun _ => hdrop).congr le_rfl (past_past a 1 1) and_self_iff

theorem past_lt {i : ℕ} (hend : a.toNat + n ≤ e.toNat) (hi : i < n) : past a i < e := by
  have he := e.isLt
  rw [BitVec.lt_def, toNat_past (by omega)]
  omega

/-- The value on top decides which of two pieces is executed. -/
theorem computes_cond (x : Word) (xs ys : List Word) {lenT lenF : ℕ}
    (hbra : BytesAt m a (ExprTree.branchCode 0x28 (lenF + 3)))
    (hskip : BytesAt m (past a (3 + lenF)) (ExprTree.branchCode 0x2f lenT))
    (hend : a.toNat + (3 + (lenF + (3 + lenT))) ≤ e.toNat) (hlenT : lenT < 2 ^ 15)
    (hlenF : lenF + 3 < 2 ^ 15)
    (htrue : x ≠ 0 → Computes v m c e (past a (3 + (lenF + 3)))
      (past a (3 + (lenF + (3 + lenT)))) lenT xs p ys)
    (hfalse : ¬x ≠ 0 → Computes v m c e (past a 3) (past a (3 + lenF)) lenF xs q ys) :
    Computes v m c e a (past a (3 + (lenF + (3 + lenT)))) (3 + (lenF + (3 + lenT))) (x :: xs)
      (if x ≠ 0 then p else q) ys := by
  have hlt : a < e := past_zero a ▸ past_lt hend (by omega)
  have hturn := computes_bra (v := v) (c := c) x xs hbra hlt hlenF
  by_cases hx : x ≠ 0
  · rw [if_pos hx] at hturn ⊢
    exact (hturn.seq fun _ => htrue hx).congr (by omega) rfl (iff_of_eq (true_and p))
  · rw [if_neg hx] at hturn ⊢
    have hjump : Computes v m c e (past a (3 + lenF)) (past a (3 + (lenF + (3 + lenT)))) 1 ys True
        ys := by
      have hjump := computes_skip (v := v) (c := c) ys hskip
        (past_lt hend (by omega)) hlenT
      rwa [past_past, Nat.add_assoc] at hjump
    refine (hturn.seq fun _ => (hfalse hx).seq fun _ => hjump).congr (by omega) rfl ?_
    rw [true_and, and_true]

/-! ### The code of a tree -/

/-- **The code of a tree** pushes its value. -/
theorem code_computes {regs : Fin 32 → Option Word} (hregs : Readable v m c regs) :
    ∀ (tree : ExprTree) (a : Word) (xs : List Word) (val : Word), BytesAt m a tree.code →
      a.toNat + tree.code.length ≤ e.toNat → tree.Short → tree.value m regs xs = some val →
      Computes v m c e a (past a tree.code.length) tree.code.length xs
        (tree.height m regs xs ≤ maxExprStackSize) (val :: xs) := by
  intro tree
  have he := e.isLt
  induction tree with
  | const k =>
    intro a xs val hcode hend _ hval
    cases hval
    exact (computes_const hcode (past_zero a ▸ past_lt hend (Nat.succ_pos _))).congr (Nat.succ_pos _)
      (congrArg (past a) (congrArg (· + 1) (length_leBytes 8 _).symm)) Iff.rfl
  | entry n =>
    intro a xs val hcode hend _ hval
    exact (computes_entry hcode (past_zero a ▸ past_lt hend (Nat.succ_pos _)) hval).congr
      (Nat.succ_pos _) rfl Iff.rfl
  | reg n offset =>
    intro a xs val hcode hend _ hval
    obtain ⟨w, hw, rfl⟩ := Option.map_eq_some_iff.1 hval
    exact (computes_reg hregs hcode (past_zero a ▸ past_lt hend (Nat.succ_pos _)) hw).congr
      (Nat.succ_pos _) rfl Iff.rfl
  | unary op tree ih =>
    intro a xs val hcode hend hshort hval
    obtain ⟨x, hx, rfl⟩ := Option.map_eq_some_iff.1 hval
    obtain ⟨hbase, hop⟩ := bytesAt_append.1 hcode
    have hpos : 0 < op.code.length := by cases op <;> exact Nat.succ_pos _
    rw [ExprTree.code, List.length_append] at hend ⊢
    exact ((ih a xs x hbase (by omega) hshort hx).seq fun _ =>
      computes_unary op hop (past_lt hend (by omega))).congr (by omega) (past_past _ _ _)
        max_le_iff.symm
  | binary op e₁ e₂ ih₁ ih₂ =>
    intro a xs val hcode hend hshort hval
    obtain ⟨x, hx, hrest⟩ := Option.bind_eq_some_iff.1 hval
    obtain ⟨y, hy, hop⟩ := Option.bind_eq_some_iff.1 hrest
    obtain ⟨hfirst, hcode⟩ := bytesAt_append.1 hcode
    obtain ⟨hsecond, hopcode⟩ := bytesAt_append.1 hcode
    rw [past_past] at hopcode
    rw [ExprTree.code, List.length_append, List.length_append, List.length_singleton] at hend ⊢
    have hroom : (ExprTree.binary op e₁ e₂).height m regs xs =
        max (e₁.height m regs xs) (e₂.height m regs (x :: xs)) := by
      rw [ExprTree.height, hx]
      rfl
    have hthird : Computes v m c e (past a (e₁.code.length + e₂.code.length))
        (past (past a (e₁.code.length + e₂.code.length)) 1) 1 (y :: x :: xs) True (val :: xs) :=
      computes_binary op hopcode (past_lt hend (by omega)) hop
    rw [← past_past a] at hthird
    refine ((ih₁ a xs x hfirst (by omega) hshort.1 hx).seq fun _ => (ih₂ _ (x :: xs) y hsecond ?_
      hshort.2 hy).seq fun _ => hthird).congr (by omega) ?_ ?_
    · rw [toNat_past (by omega)]
      omega
    · rw [past_past, past_past]
    · rw [hroom, max_le_iff, and_true]
  | letIn tree body ih₁ ih₂ =>
    intro a xs val hcode hend hshort hval
    obtain ⟨x, hx, hbody⟩ := Option.bind_eq_some_iff.1 hval
    obtain ⟨hfirst, hcode⟩ := bytesAt_append.1 hcode
    obtain ⟨hsecond, hnip⟩ := bytesAt_append.1 hcode
    rw [ExprTree.code, List.length_append, List.length_append] at hend ⊢
    have hroom : (ExprTree.letIn tree body).height m regs xs =
        max (tree.height m regs xs) (body.height m regs (x :: xs)) := by
      rw [ExprTree.height, hx]
      rfl
    have hthird : Computes v m c e (past (past a tree.code.length) body.code.length)
        (past (past (past a tree.code.length) body.code.length) 2) 2 (val :: x :: xs) True
        (val :: xs) := by
      refine computes_nip hnip ?_ ?_
      · rw [past_past]
        exact past_lt hend (by simp)
      · rw [past_past, past_past]
        exact past_lt hend (by simp)
    have hnil : ([0x16, 0x13] : List Byte).length = 2 := rfl
    rw [hnil] at hend ⊢
    refine ((ih₁ a xs x hfirst (by omega) hshort.1 hx).seq fun _ => (ih₂ _ (x :: xs) val hsecond ?_
      hshort.2 hbody).seq fun _ => hthird).congr (by omega) ?_ ?_
    · rw [toNat_past (by omega)]
      omega
    · rw [past_past, past_past]
    · rw [hroom, max_le_iff, and_true]
  | cond test ifTrue ifFalse ih₁ ih₂ ih₃ =>
    intro a xs val hcode hend hshort hval
    obtain ⟨x, hx, hbranch⟩ := Option.bind_eq_some_iff.1 hval
    obtain ⟨hshort₁, hshort₂, hshort₃, hlen₂, hlen₃⟩ := hshort
    obtain ⟨htest, hcode⟩ := bytesAt_append.1 hcode
    obtain ⟨hbra, hcode⟩ := bytesAt_append.1 hcode
    obtain ⟨hfalse, hcode⟩ := bytesAt_append.1 hcode
    obtain ⟨hskip, htrue⟩ := bytesAt_append.1 hcode
    have hthree : ∀ opcode len, (ExprTree.branchCode opcode len).length = 3 := fun _ _ => rfl
    have hroom : (ExprTree.cond test ifTrue ifFalse).height m regs xs =
        max (test.height m regs xs)
          (if x ≠ 0 then ifTrue.height m regs xs else ifFalse.height m regs xs) := by
      rw [ExprTree.height, hx]
      rfl
    simp only [ExprTree.code, List.length_append, hthree] at hend ⊢
    have hpos : (past a test.code.length).toNat = a.toNat + test.code.length :=
      toNat_past (by omega)
    have hstart := ih₁ a xs x htest (by omega) hshort₁ hx
    rw [← past_past]
    generalize past a test.code.length = b at *
    change BytesAt m (past b 3) ifFalse.code at hfalse
    change BytesAt m (past (past b 3) ifFalse.code.length) _ at hskip
    change BytesAt m (past (past (past b 3) ifFalse.code.length) 3) _ at htrue
    rw [past_past] at hskip
    rw [past_past, past_past] at htrue
    have hrest := computes_cond (v := v) (c := c) (e := e) x xs (val :: xs)
      (p := ifTrue.height m regs xs ≤ maxExprStackSize)
      (q := ifFalse.height m regs xs ≤ maxExprStackSize) hbra hskip (by omega) hlen₂ hlen₃
      (fun hzero => ?_) fun hzero => ?_
    · refine (hstart.seq fun _ => hrest).congr le_rfl rfl ?_
      rw [hroom, max_le_iff]
      by_cases hzero : x ≠ 0
      · rw [if_pos hzero, if_pos hzero]
      · rw [if_neg hzero, if_neg hzero]
    · rw [if_pos hzero] at hbranch
      have hcase := ih₂ _ xs val htrue (by rw [toNat_past (by omega)]; omega) hshort₂ hbranch
      rwa [past_past, Nat.add_assoc, Nat.add_assoc] at hcase
    · rw [if_neg hzero] at hbranch
      have hcase := ih₃ _ xs val hfalse (by rw [toNat_past (by omega)]; omega) hshort₃ hbranch
      rwa [past_past] at hcase

end Pieces

/-- **Evaluating a tree.** From the code of a tree, `dwarf_eval_expr` computes the value that the tree
has on the CFA, if the 64 entries are enough for it, and refuses the expression otherwise. -/
theorem dwarfEvalExpr_tree {v : Validator} {m : Mem} {c : Cursor} {regs : Fin 32 → Option Word}
    {tree : ExprTree} {addr val : Word} {fuel : ℕ} (hregs : Readable v m c regs)
    (hcode : BytesAt m addr tree.code) (hend : addr.toNat + tree.code.length < 2 ^ 64)
    (hshort : tree.Short) (hval : tree.value m regs [c.cfa] = some val)
    (hfuel : tree.code.length < fuel) (g : Lga) :
    (dwarfEvalExpr v m c fuel addr (BitVec.ofNat 64 tree.code.length) g).1 =
      if tree.height m regs [c.cfa] ≤ maxExprStackSize then .ok (val, false) else .err .einval := by
  have hstart : StackIs (evalStart c addr g) [c.cfa] := by
    have hempty : StackIs (ExprState.init addr g) [] :=
      ⟨rfl, by decide, fun i hi => absurd hi (by simp)⟩
    obtain ⟨s, hpush, hs, -⟩ := push_spec hempty (by decide) c.cfa
    cases hpush
    exact hs
  have hpast : (past addr tree.code.length).toNat = addr.toNat + tree.code.length := toNat_past hend
  obtain ⟨hroom, hstop⟩ := code_computes hregs tree addr [c.cfa] val hcode (by rw [hpast]) hshort hval
    (evalStart c addr g) rfl hstart
  rw [dwarfEvalExpr_eq_start]
  show (Act.iter (evalTurn v m c (past addr tree.code.length)) fuel () _).1 = _
  by_cases hheight : tree.height m regs [c.cfa] ≤ maxExprStackSize
  · rw [if_pos hheight]
    obtain ⟨t, ⟨k, hk, hrun⟩, haddr, ht⟩ := hroom hheight
    obtain ⟨b, rfl⟩ : ∃ b, fuel = k + (b + 1) := ⟨fuel - (k + 1), by omega⟩
    obtain ⟨u, hpop, -⟩ := pop_spec ht
    have hlast : evalTurn v m c (past addr tree.code.length) () t = (.ok (.inr (val, false)), u) := by
      rw [evalTurn_of_not_lt (by rw [haddr]; exact BitVec.lt_irrefl _), Act.bind_of_ok hpop]
      rfl
    rw [hrun, Act.iter_of_inr b hlast]
  · rw [if_neg hheight]
    obtain ⟨k, hk, t, hrun⟩ := hstop hheight
    obtain ⟨b, rfl⟩ : ∃ b, fuel = k + b := ⟨fuel - k, by omega⟩
    rw [hrun]

/-- The distance from the stack pointer of the frame to the word under it, unless the word above it
is nearer to zero. -/
def exampleTree : ExprTree :=
  .cond (.binary .gt (.reg 7 8) (.entry 0)) (.const 0)
    (.letIn (.reg 7 (-8)) (.binary .minus (.entry 0) (.entry 2)))

/-- The code of that tree at `0x1000`. -/
def exampleTreeMem : Mem := fun a => exampleTree.code.getD (a - 0x1000).toNat 0

/-- Only `RSP` has a value. -/
def exampleRegs : Fin 32 → Option Word := fun n => if n = 7 then some 0x7000 else none

theorem dwarfEvalExpr_tree_example :
    (dwarfEvalExpr msyncValidate exampleTreeMem { zeroCursor with cfa := 0x7000 } 40 0x1000
      (BitVec.ofNat 64 exampleTree.code.length) Lga.empty).1 = .ok (-8, false) := by
  have hregs : Readable msyncValidate exampleTreeMem { zeroCursor with cfa := 0x7000 } exampleRegs := by
    intro n val h
    unfold exampleRegs at h
    obtain ⟨rfl, hval⟩ := Option.ite_none_right_eq_some.1 h
    cases hval
    exact ⟨by decide, fun g => ⟨g, rfl⟩⟩
  have hshort : exampleTree.Short :=
    ⟨⟨trivial, trivial⟩, trivial, ⟨trivial, trivial, trivial⟩, by decide, by decide⟩
  exact dwarfEvalExpr_tree hregs (by decide) (by decide) hshort (by decide) (by decide) Lga.empty

end LibunwindKern
