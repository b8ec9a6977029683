import LibunwindKern.Lib.Commands
import LibunwindKern.Dwarf.ExprStack

/-!
# Location expressions as commands

What `dwarf_eval_expr` does while it executes an operation: the macros on the stack, the lookups
in the register map, the divisions and the shifts. `opProgram` is the `switch` over the opcode as a
program of these commands, and `opProgram_run` says that it does what the evaluator does.

The commands do not check what the source does not check. A division by zero is undefined, and it
is the program that tests the divisor first. Only the macros on the stack have their checks in
them.

* `turnCalls` and `exprCalls` list the commands of a turn and of a whole evaluation, each with the
  state in which it is executed.
* `all_exprCalls` is the rule for a property of all commands of an evaluation.
-/

namespace LibunwindKern

open CProg ByteMem Eval

/-- What an operation is made of. -/
inductive ExprCmd : Type → Type where
  | pop : ExprCmd Word
  | push (val : Word) : ExprCmd Unit
  | pick (n : Word) : ExprCmd Word
  /-- The check of `push`, which is made before the argument of the macro is evaluated. -/
  | room : ExprCmd Unit
  /-- `dwarf_to_unw_regnum`. -/
  | regnum (reg : Word) : ExprCmd ℕ
  /-- `unw_get_reg`. -/
  | getReg (regnum : ℕ) : ExprCmd Word
  | div (x y : Word) : ExprCmd Word
  | mod (x y : Word) : ExprCmd Word
  | shl (x n : Word) : ExprCmd Word
  | shr (x n : Word) : ExprCmd Word
  | shra (x n : Word) : ExprCmd Word
  | setOperand1 (val : Word) : ExprCmd Unit
  | branch : ExprCmd Unit
  | einval : ExprCmd Unit

/-- A shift of a word. -/
def shiftRes (n : Word) (val : Word) : Res UnwError Word :=
  if n.toNat < 64 then .ok val else .undefined

/-- Execute a command. -/
def execCmd (v : Validator) (m : Mem) (c : Cursor) : {β : Type} → ExprCmd β → Eval β
  | _, .pop => Eval.pop
  | _, .push val => Eval.push val
  | _, .pick n => Eval.pick n
  | _, .room => do
    let s ← Act.get
    if s.tos.toNat < maxExprStackSize then pure () else Act.fail .einval
  | _, .regnum reg => Act.lift (dwarfToUnwRegnum reg)
  | _, .getReg regnum => onLga (unwGetReg v m c regnum)
  | _, .div x y =>
    Act.lift (if y = 0 ∨ (x = BitVec.intMin 64 ∧ y = BitVec.allOnes 64) then .undefined
      else .ok (x.sdiv y))
  | _, .mod x y => Act.lift (if y = 0 then .undefined else .ok (x % y))
  | _, .shl x n => Act.lift (shiftRes n (x <<< n.toNat))
  | _, .shr x n => Act.lift (shiftRes n (x >>> n.toNat))
  | _, .shra x n => Act.lift (shiftRes n (x.sshiftRight n.toNat))
  | _, .setOperand1 val => Act.modify fun s => { s with operand1 := val }
  | _, .branch => Eval.branch
  | _, .einval => Act.fail .einval

/-! ### The operations -/

section Programs

open Prog

/-- A program of the evaluator. -/
abbrev ExprProg (α : Type) : Type 1 := Prog ExprCmd α

/-- Pop one entry and push another. -/
def unaryProgram (f : Word → Word) : ExprProg Unit := do
  let tmp1 ← cmd .pop
  cmd (.push (f tmp1))

/-- `push (f (pop ()))`. -/
def pushOfPopProgram (f : Word → Word) : ExprProg Unit := do
  cmd .room
  unaryProgram f

/-- Pop two entries and push one. -/
def binaryProgram (f : Word → Word → ExprProg Word) : ExprProg Unit := do
  let tmp1 ← cmd .pop
  let tmp2 ← cmd .pop
  let val ← f tmp1 tmp2
  cmd (.push val)

/-- `push (pick (n))`. -/
def pickProgram (n : Word) : ExprProg Unit := do
  let val ← cmd (.pick n)
  cmd (.push val)

/-- Push a register plus an offset. -/
def pushRegProgram (reg offset : Word) : ExprProg Unit := do
  let regnum ← cmd (.regnum reg)
  let tmp1 ← cmd (.getReg regnum)
  cmd (.push (tmp1 + offset))

/-- Extend the sign of the operand, and push it. -/
def signedConstProgram (bits : ℕ) (operand1 : Word) : ExprProg Unit := do
  let operand1 :=
    if operand1.getLsbD (bits - 1) then operand1 ||| (BitVec.allOnes 64 <<< bits) else operand1
  cmd (.setOperand1 operand1)
  cmd (.push operand1)

/-- The value of `DW_OP_deref_size`, unless the size is refused. -/
def derefValue (m : Mem) (size tmp1 : Word) : Option Word :=
  match size.toNat with
  | 1 => some ((m tmp1).setWidth 64)
  | 2 => some ((load16 m tmp1).setWidth 64)
  | 3 => some ((load32 m tmp1).setWidth 64 &&& 0xffffff)
  | 4 => some ((load32 m tmp1).setWidth 64)
  | 5 => some (load64 m tmp1 &&& (BitVec.allOnes 64 <<< 40))
  | 6 => some (load64 m tmp1 &&& (BitVec.allOnes 64 <<< 48))
  | 7 => some (load64 m tmp1 &&& (BitVec.allOnes 64 <<< 56))
  | 8 => some (load64 m tmp1)
  | _ => none

/-- `DW_OP_deref_size`. -/
def derefSizeProgram (m : Mem) (size : Word) : ExprProg Unit := do
  let tmp1 ← cmd .pop
  match derefValue m size tmp1 with
  | some tmp2 => cmd (.push tmp2)
  | none => cmd .einval

/-- The cases of the `switch` that go round again. -/
def stackProgram (m : Mem) (op : DwOp) (operand1 operand2 : Word) : ExprProg Unit :=
  match op with
  | .lit n => cmd (.push (BitVec.ofNat 64 n))
  | .breg n => pushRegProgram (BitVec.ofNat 64 n) operand1
  | .bregx => pushRegProgram operand1 operand2
  | .addr | .const1u | .const2u | .const4u | .const8u | .constu | .const8s | .consts =>
    cmd (.push operand1)
  | .const1s => signedConstProgram 8 operand1
  | .const2s => signedConstProgram 16 operand1
  | .const4s => signedConstProgram 32 operand1
  | .deref => unaryProgram fun tmp1 => load64 m tmp1
  | .derefSize => derefSizeProgram m operand1
  | .dup => pickProgram 0
  | .drop => do
    let _ ← cmd .pop
  | .pick => pickProgram operand1
  | .over => pickProgram 1
  | .swap => do
    let tmp1 ← cmd .pop
    let tmp2 ← cmd .pop
    cmd (.push tmp1)
    cmd (.push tmp2)
  | .rot => do
    let tmp1 ← cmd .pop
    let tmp2 ← cmd .pop
    let tmp3 ← cmd .pop
    cmd (.push tmp1)
    cmd (.push tmp3)
    cmd (.push tmp2)
  | .abs => unaryProgram fun tmp1 => if tmp1.msb then -tmp1 else tmp1
  | .and => binaryProgram fun tmp1 tmp2 => pure (tmp1 &&& tmp2)
  | .div => binaryProgram fun tmp1 tmp2 => if tmp1 = 0 then pure tmp1 else cmd (.div tmp2 tmp1)
  | .minus => binaryProgram fun tmp1 tmp2 => pure (tmp2 - tmp1)
  | .mod => binaryProgram fun tmp1 tmp2 => if tmp1 = 0 then pure tmp1 else cmd (.mod tmp2 tmp1)
  | .mul => binaryProgram fun tmp1 tmp2 => pure (if tmp1 = 0 then tmp1 else tmp2 * tmp1)
  | .neg => pushOfPopProgram fun tmp1 => -tmp1
  | .not => pushOfPopProgram fun tmp1 => ~~~tmp1
  | .or => binaryProgram fun tmp1 tmp2 => pure (tmp1 ||| tmp2)
  | .plus => binaryProgram fun tmp1 tmp2 => pure (tmp1 + tmp2)
  | .plusUconst => unaryProgram fun tmp1 => tmp1 + operand1
  | .shl => binaryProgram fun tmp1 tmp2 => cmd (.shl tmp2 tmp1)
  | .shr => binaryProgram fun tmp1 tmp2 => cmd (.shr tmp2 tmp1)
  | .shra => binaryProgram fun tmp1 tmp2 => cmd (.shra tmp2 tmp1)
  | .xor => binaryProgram fun tmp1 tmp2 => pure (tmp1 ^^^ tmp2)
  | .le => binaryProgram fun tmp1 tmp2 => pure (if tmp1.sle tmp2 then 1 else 0)
  | .ge => binaryProgram fun tmp1 tmp2 => pure (if tmp2.sle tmp1 then 1 else 0)
  | .eq => binaryProgram fun tmp1 tmp2 => pure (if tmp1 = tmp2 then 1 else 0)
  | .lt => binaryProgram fun tmp1 tmp2 => pure (if tmp1.slt tmp2 then 1 else 0)
  | .gt => binaryProgram fun tmp1 tmp2 => pure (if tmp2.slt tmp1 then 1 else 0)
  | .ne => binaryProgram fun tmp1 tmp2 => pure (if tmp1 ≠ tmp2 then 1 else 0)
  | .skip => cmd .branch
  | .bra => do
    let tmp1 ← cmd .pop
    if tmp1 ≠ 0 then cmd .branch else pure ()
  | .nop => pure ()
  | _ => cmd .einval

/-- The `switch` over the opcode, with the operands read before. A value is the register the
expression denotes. -/
def opProgram (m : Mem) (op : DwOp) (operand1 operand2 : Word) : ExprProg (Option ℕ) :=
  match op with
  | .reg n => do
    let regnum ← cmd (.regnum (BitVec.ofNat 64 n))
    pure (some regnum)
  | .regx => do
    let regnum ← cmd (.regnum operand1)
    pure (some regnum)
  | op => do
    stackProgram m op operand1 operand2
    pure none

end Programs

/-! ### The programs are the operations -/

section Run

variable (v : Validator) (m : Mem) (c : Cursor)

/-- An operation on two entries, when the program in the middle only computes. -/
theorem run_binaryProgram {f : Word → Word → ExprProg Word} {g : Word → Word → Res UnwError Word}
    (h : ∀ x y, (f x y).run (execCmd v m c) = Act.lift (g x y)) :
    (binaryProgram f).run (execCmd v m c) = Eval.binary g := by
  have hval : ∀ x y, (f x y >>= fun val => Prog.cmd (.push val)).run (execCmd v m c) =
      (Act.lift (g x y) >>= Eval.push) := by
    intro x y
    funext s
    rw [Prog.run_bind, h]
    simp only [Prog.run_single]
    rfl
  show (Eval.pop >>= fun x => Eval.pop >>= fun y =>
    (f x y >>= fun val => Prog.cmd (.push val)).run (execCmd v m c)) = Eval.binary g
  simp only [hval]
  rfl

theorem run_unaryProgram (f : Word → Word) :
    (unaryProgram f).run (execCmd v m c) = Eval.unary f := by
  simp only [unaryProgram, Prog.run_call, Prog.run_single]
  rfl

theorem run_pickProgram (n : Word) :
    (pickProgram n).run (execCmd v m c) = Eval.pick n >>= Eval.push := by
  simp only [pickProgram, Prog.run_call, Prog.run_single]
  rfl

theorem run_pushRegProgram (reg offset : Word) :
    (pushRegProgram reg offset).run (execCmd v m c) = pushReg v m c reg offset := by
  simp only [pushRegProgram, Prog.run_call, Prog.run_single]
  rfl

/-- The operand is extended in place before it is pushed. -/
theorem run_signedConstProgram (bits : ℕ) (s : ExprState) :
    (signedConstProgram bits s.operand1).run (execCmd v m c) s = Eval.signedConst bits s := by
  simp only [signedConstProgram, Prog.run_call, Prog.run_single]
  rfl

/-- Popping an entry changes nothing but `tos`. -/
theorem pop_operand1 : Act.Keeps ExprState.operand1 Eval.pop :=
  Act.Keeps.get.bind fun _ => ((entry_keeps _).comp ExprState.operand1).bind fun val =>
    Act.Keeps.bind (Act.Keeps.modify fun _ => rfl) fun _ => Act.Keeps.pure val

/-- The size is an operand, which popping the address leaves alone. -/
theorem derefSize_eq (s : ExprState) :
    Eval.derefSize m s =
      (Eval.pop >>= fun tmp1 =>
        match derefValue m s.operand1 tmp1 with
        | some tmp2 => Eval.push tmp2
        | none => Act.fail .einval) s := by
  have hkeep : (Eval.pop s).2.operand1 = s.operand1 := pop_operand1 s
  unfold Eval.derefSize
  rcases hpop : Eval.pop s with ⟨r, t⟩
  rw [hpop] at hkeep
  obtain ⟨tmp1, rfl⟩ | hr := r.ok_or_ne
  · rw [Act.bind_of_ok hpop, Act.bind_of_ok hpop, Act.get_bind, ← hkeep]
    unfold derefValue
    -- both sides have the same cases for the size
    generalize t.operand1.toNat = size
    rcases size with _ | _ | _ | _ | _ | _ | _ | _ | _ | size <;> rfl
  · rw [Act.bind_of_not_ok hpop hr, Act.bind_of_not_ok hpop hr]

/-- The check for room comes first, and fails with the same code as the macro. -/
theorem run_pushOfPopProgram (f : Word → Word) (s : ExprState) :
    (pushOfPopProgram f).run (execCmd v m c) s = Eval.pushOfPop f s := by
  show ((execCmd v m c .room) >>= fun _ => (unaryProgram f).run (execCmd v m c)) s = _
  rw [run_unaryProgram]
  unfold Eval.pushOfPop
  rw [Act.get_bind]
  have hcheck : execCmd v m c .room s =
      (if s.tos.toNat < maxExprStackSize then .ok () else .err .einval, s) := by
    show (if s.tos.toNat < maxExprStackSize then pure () else Act.fail .einval : Eval Unit) s = _
    split <;> rfl
  by_cases hroom : s.tos.toNat < maxExprStackSize
  · rw [if_pos hroom] at hcheck ⊢
    rw [Act.bind_of_ok hcheck]
  · rw [if_neg hroom] at hcheck ⊢
    rw [Act.bind_of_err hcheck]
    rfl

/-- **The programs do what the evaluator does.** -/
theorem stackProgram_run (op : DwOp) (s : ExprState) :
    (stackProgram m op s.operand1 s.operand2).run (execCmd v m c) s =
      execStackOp v m c op s.operand1 s.operand2 s := by
  have hone : ∀ {val : Word}, (pure val : ExprProg Word).run (execCmd v m c) = Act.lift (.ok val) :=
    rfl
  -- the operations whose program is the operation, command by command
  have hbinary : ∀ {f : Word → Word → ExprProg Word} {g : Word → Word → Res UnwError Word},
      (∀ x y, (f x y).run (execCmd v m c) = Act.lift (g x y)) →
      (binaryProgram f).run (execCmd v m c) s = Eval.binary g s :=
    fun h => congrFun (run_binaryProgram v m c h) s
  cases op
  case div =>
    refine hbinary fun x y => ?_
    unfold Eval.sdiv
    by_cases hx : x = 0
    · rw [if_pos hx, if_pos hx, hone]
    · rw [if_neg hx, if_neg hx, Prog.run_single]
      simp only [execCmd, hx, false_or, and_comm]
  case mod =>
    refine hbinary fun x y => ?_
    by_cases hx : x = 0
    · rw [if_pos hx, if_pos hx, hone]
    · rw [if_neg hx, if_neg hx, Prog.run_single]
      simp only [execCmd, if_neg hx]
  case shl => exact hbinary fun x y => Prog.run_single _
  case shr => exact hbinary fun x y => Prog.run_single _
  case shra => exact hbinary fun x y => Prog.run_single _
  case derefSize =>
    show (Eval.pop >>= fun tmp1 => (match derefValue m s.operand1 tmp1 with
      | some tmp2 => Prog.cmd (.push tmp2)
      | none => Prog.cmd .einval : ExprProg Unit).run (execCmd v m c)) s = Eval.derefSize m s
    rw [derefSize_eq]
    refine congrFun (congrArg (Eval.pop >>= ·) ?_) s
    funext tmp1
    cases derefValue m s.operand1 tmp1 <;> exact Prog.run_single _
  case bra =>
    show (Eval.pop >>= fun tmp1 => (if tmp1 ≠ 0 then Prog.cmd .branch else pure () :
      ExprProg Unit).run (execCmd v m c)) s = _
    refine congrFun (congrArg (Eval.pop >>= ·) ?_) s
    funext tmp1
    split <;> first | exact Prog.run_single _ | rfl
  case neg => exact run_pushOfPopProgram v m c _ s
  case not => exact run_pushOfPopProgram v m c _ s
  case eq => exact hbinary fun x y => by simp only [hone, decide_eq_true_eq]
  case ne => exact hbinary fun x y => by simp only [hone, decide_eq_true_eq]
  case and | minus | mul | or | plus | xor | le | ge | lt | gt => exact hbinary fun _ _ => rfl
  case deref | abs | plusUconst => exact congrFun (run_unaryProgram v m c _) s
  case dup | «over» | pick => exact congrFun (run_pickProgram v m c _) s
  case breg | bregx => exact congrFun (run_pushRegProgram v m c _ _) s
  case const1s | const2s | const4s => exact run_signedConstProgram v m c _ s
  case swap | rot | drop =>
    simp only [stackProgram, Prog.run_call, Prog.run_single]
    rfl
  case nop => rfl
  -- one command: a constant, a jump, or the refusal
  all_goals exact congrFun (Prog.run_single _) s

/-- The whole `switch`. -/
theorem opProgram_run (op : DwOp) (s : ExprState) :
    (opProgram m op s.operand1 s.operand2).run (execCmd v m c) s = execOp v m c op s := by
  have hstack : ∀ op, (stackProgram m op s.operand1 s.operand2 >>= fun _ =>
      (pure none : ExprProg (Option ℕ))).run (execCmd v m c) s =
      (execStackOp v m c op s.operand1 s.operand2 >>= fun _ => pure none) s := by
    intro op
    rw [Prog.run_bind]
    exact Act.bind_congr_left _ (stackProgram_run v m c op s)
  cases op
  case reg => rfl
  case regx => rfl
  all_goals exact hstack _

end Run

/-! ### The commands of an operation -/

/-- The register number that an operation looks up, if it looks one up. -/
def lookupOf (op : DwOp) (operand1 : Word) : Option Word :=
  match op with
  | .reg n => some (BitVec.ofNat 64 n)
  | .breg n => some (BitVec.ofNat 64 n)
  | .regx => some operand1
  | .bregx => some operand1
  | _ => none

/-- The commands that an operation can come to. All operations pop and push. -/
def Has (op : DwOp) (operand1 : Word) : {β : Type} → ExprCmd β → Prop
  | _, .pick n => (op = .dup ∧ n = 0) ∨ (op = .over ∧ n = 1) ∨ (op = .pick ∧ n = operand1)
  | _, .regnum reg => lookupOf op operand1 = some reg
  | _, .div _ y => op = .div ∧ y ≠ 0
  | _, .mod _ y => op = .mod ∧ y ≠ 0
  | _, .shl _ _ => op = .shl
  | _, .shr _ _ => op = .shr
  | _, .shra _ _ => op = .shra
  | _, .branch => op = .skip ∨ op = .bra
  | _, _ => True

section Every

variable {P : {β : Type} → ExprCmd β → Prop} {f : Word → Word → ExprProg Word}

theorem every_binaryProgram (hpop : P .pop) (hpush : ∀ val, P (.push val))
    (hf : ∀ x y, (f x y).Every P) : (binaryProgram f).Every P := by
  refine ⟨hpop, fun x => ⟨hpop, fun y => ?_⟩⟩
  exact (hf x y).bind fun val => (Prog.every_cmd _).2 (hpush val)

theorem every_derefSizeProgram {m : Mem} {size : Word} (hpop : P .pop)
    (hpush : ∀ val, P (.push val)) (heinval : P .einval) : (derefSizeProgram m size).Every P := by
  refine ⟨hpop, fun tmp1 => ?_⟩
  show (match derefValue m size tmp1 with
    | some tmp2 => Prog.cmd (.push tmp2)
    | none => Prog.cmd .einval : ExprProg Unit).Every P
  cases derefValue m size tmp1 with
  | some tmp2 => exact (Prog.every_cmd _).2 (hpush tmp2)
  | none => exact (Prog.every_cmd _).2 heinval

end Every

/-- **What an operation can do**, case by case. -/
theorem stackProgram_has (m : Mem) (op : DwOp) (operand1 operand2 : Word) :
    (stackProgram m op operand1 operand2).Every (Has op operand1) := by
  have hbinary : ∀ {f : Word → Word → ExprProg Word}, (∀ x y, (f x y).Every (Has op operand1)) →
      (binaryProgram f).Every (Has op operand1) :=
    fun hf => every_binaryProgram trivial (fun _ => trivial) hf
  cases op
  case div =>
    refine hbinary fun x y => ?_
    split
    · exact Prog.every_pure _
    · next hx => exact (Prog.every_cmd _).2 ⟨rfl, hx⟩
  case mod =>
    refine hbinary fun x y => ?_
    split
    · exact Prog.every_pure _
    · next hx => exact (Prog.every_cmd _).2 ⟨rfl, hx⟩
  case shl => exact hbinary fun x y => (Prog.every_cmd _).2 rfl
  case shr => exact hbinary fun x y => (Prog.every_cmd _).2 rfl
  case shra => exact hbinary fun x y => (Prog.every_cmd _).2 rfl
  case derefSize => exact every_derefSizeProgram trivial (fun _ => trivial) trivial
  case bra =>
    refine ⟨trivial, fun tmp1 => ?_⟩
    show (if tmp1 ≠ 0 then Prog.cmd .branch else pure () : ExprProg Unit).Every _
    split
    · exact (Prog.every_cmd _).2 (Or.inr rfl)
    · exact Prog.every_pure _
  all_goals first
    | exact hbinary fun _ _ => Prog.every_pure _
    | simp [stackProgram, unaryProgram, pushOfPopProgram, pickProgram, pushRegProgram,
        signedConstProgram, Has, lookupOf]

theorem opProgram_has (m : Mem) (op : DwOp) (operand1 operand2 : Word) :
    (opProgram m op operand1 operand2).Every (Has op operand1) := by
  cases op
  case reg => exact (Prog.every_call _ _).2 ⟨rfl, fun _ => Prog.every_pure _⟩
  case regx => exact (Prog.every_call _ _).2 ⟨rfl, fun _ => Prog.every_pure _⟩
  all_goals exact (stackProgram_has m _ operand1 operand2).bind fun _ => Prog.every_pure _

/-! ### The operands of an operation -/

/-- Operands that stand one behind the other, each with the address it is read from. -/
def operandReads (m : Mem) : List OperandType → Word → List (OperandType × Word)
  | [], _ => []
  | t :: ts, a => (t, a) :: Res.after (readOperand m t a) fun _ b => operandReads m ts b

/-- The operand is read by one of the LEB128 readers. -/
def OperandType.isLeb : OperandType → Bool
  | .uleb128 | .sleb128 => true
  | _ => false

/-- The addresses of the LEB128 operands of the operation at `a`. -/
def lebReads (m : Mem) (a : Word) : List Word :=
  match DwOp.ofByte (m a) with
  | some op => ((operandReads m (operands op) (a + 1)).filter fun x => x.1.isLeb).map Prod.snd
  | none => []

/-! ### The commands of an evaluation -/

/-- The state behind the opcode of a turn. -/
def ExprState.pastOpcode (s : ExprState) : ExprState :=
  { s with addr := s.addr + 1, fetched := s.fetched ++ [s.addr] }

/-- The state in which the loop of `dwarf_eval_expr` starts. -/
def evalStart (c : Cursor) (addr : Word) (g : Lga) : ExprState :=
  (Eval.push c.cfa (ExprState.init addr g)).2

section Calls

variable (v : Validator) (m : Mem) (c : Cursor)

/-- The commands of an operation, from the state behind its operands. -/
def opCalls (op : DwOp) (s : ExprState) : List (Call ExprCmd ExprState) :=
  (opProgram m op s.operand1 s.operand2).calls (execCmd v m c) s

/-- The commands of a turn. At the end of the block the value is popped. -/
def turnCalls (endAddr : Word) (s : ExprState) : List (Call ExprCmd ExprState) :=
  if s.addr < endAddr then
    match DwOp.ofByte (m s.addr) with
    | some op => Res.after (readOperands m op s.pastOpcode) fun _ t => opCalls v m c op t
    | none => []
  else
    [⟨.pop, s⟩]

/-- The states in which the turns of an evaluation start. -/
def exprTurns (fuel : ℕ) (addr len : Word) (lga : Lga) : List ExprState :=
  Act.iterStates (evalTurn v m c (addr + len)) fuel () (evalStart c addr lga)

/-- The commands of an evaluation, the first of which pushes the CFA. -/
def exprCalls (fuel : ℕ) (addr len : Word) (lga : Lga) : List (Call ExprCmd ExprState) :=
  ⟨.push c.cfa, ExprState.init addr lga⟩ ::
    (exprTurns v m c fuel addr len lga).flatMap (turnCalls v m c (addr + len))

variable {v m c} {Good : Call ExprCmd ExprState → Prop} {e : Word} {s : ExprState}

/-- **A property of all commands of a turn.** -/
theorem all_turnCalls :
    (∀ x ∈ turnCalls v m c e s, Good x) ↔
      (s.addr < e → ∀ op t, DwOp.ofByte (m s.addr) = some op →
        readOperands m op s.pastOpcode = (.ok (), t) →
        (opProgram m op t.operand1 t.operand2).All (execCmd v m c) Good t) ∧
      (¬s.addr < e → Good ⟨.pop, s⟩) := by
  unfold turnCalls
  by_cases hlt : s.addr < e
  · rw [if_pos hlt]
    simp only [hlt, not_true_eq_false, false_imp_iff, and_true, true_imp_iff]
    cases hop : DwOp.ofByte (m s.addr) with
    | none => simp
    | some op =>
      simp only [Res.forall_mem_after]
      constructor
      · rintro h op' t ⟨⟩ hread
        exact h () t hread
      · intro h a t hread
        exact h op t rfl hread
  · rw [if_neg hlt]
    simp [hlt]

/-- **A property of all commands of an evaluation.** -/
theorem all_exprCalls {fuel : ℕ} {addr len : Word} {lga : Lga} :
    (∀ x ∈ exprCalls v m c fuel addr len lga, Good x) ↔
      Good ⟨.push c.cfa, ExprState.init addr lga⟩ ∧
      ∀ s ∈ exprTurns v m c fuel addr len lga, ∀ x ∈ turnCalls v m c (addr + len) s, Good x := by
  unfold exprCalls
  rw [List.forall_mem_cons, List.forall_mem_flatMap]

end Calls

end LibunwindKern
