import LibunwindKern.Dwarf.Reader
import LibunwindKern.X86.Regs

/-!
# Location expressions

The model of `Gexpr.c`: the opcodes of `dwarf_expr_op_t`, the table of operand types,
and the evaluator `dwarf_eval_expr`.

The evaluator's state is what its loop carries: the address variable, the operand
stack with `tos`, the two operands, and the cache of validated pages. The operands are
locals of the function and not of a turn, so an operation that reads no operand of its
own sees the operands of an earlier one. A stack entry that was never pushed is `none`.

Branches can go backwards and the source has no bound on the loop, so the evaluator
has one (`fuel`). `fetched` records the addresses opcodes were read from.
-/

namespace LibunwindKern

open CProg ByteMem

/-- `dwarf_expr_op_t`. -/
inductive DwOp where
  | addr | deref
  | const1u | const1s | const2u | const2s | const4u | const4s | const8u | const8s
  | constu | consts
  | dup | drop | over | pick | swap | rot | xderef
  | abs | and | div | minus | mod | mul | neg | not | or | plus | plusUconst
  | shl | shr | shra | xor
  | skip | bra
  | eq | ge | gt | le | lt | ne
  | lit (n : Fin 32) | reg (n : Fin 32) | breg (n : Fin 32)
  | regx | fbreg | bregx | piece | derefSize | xderefSize | nop
  | pushObjectAddress | call2 | call4 | callRef
  deriving DecidableEq, Repr

/-- The operation of an opcode byte. -/
def DwOp.ofByte (opcode : Byte) : Option DwOp :=
  if h : 0x30 ≤ opcode.toNat ∧ opcode.toNat < 0x50 then
    some (.lit ⟨opcode.toNat - 0x30, by omega⟩)
  else if h : 0x50 ≤ opcode.toNat ∧ opcode.toNat < 0x70 then
    some (.reg ⟨opcode.toNat - 0x50, by omega⟩)
  else if h : 0x70 ≤ opcode.toNat ∧ opcode.toNat < 0x90 then
    some (.breg ⟨opcode.toNat - 0x70, by omega⟩)
  else
    match opcode.toNat with
    | 0x03 => some .addr
    | 0x06 => some .deref
    | 0x08 => some .const1u
    | 0x09 => some .const1s
    | 0x0a => some .const2u
    | 0x0b => some .const2s
    | 0x0c => some .const4u
    | 0x0d => some .const4s
    | 0x0e => some .const8u
    | 0x0f => some .const8s
    | 0x10 => some .constu
    | 0x11 => some .consts
    | 0x12 => some .dup
    | 0x13 => some .drop
    | 0x14 => some .over
    | 0x15 => some .pick
    | 0x16 => some .swap
    | 0x17 => some .rot
    | 0x18 => some .xderef
    | 0x19 => some .abs
    | 0x1a => some .and
    | 0x1b => some .div
    | 0x1c => some .minus
    | 0x1d => some .mod
    | 0x1e => some .mul
    | 0x1f => some .neg
    | 0x20 => some .not
    | 0x21 => some .or
    | 0x22 => some .plus
    | 0x23 => some .plusUconst
    | 0x24 => some .shl
    | 0x25 => some .shr
    | 0x26 => some .shra
    | 0x27 => some .xor
    | 0x28 => some .bra
    | 0x29 => some .eq
    | 0x2a => some .ge
    | 0x2b => some .gt
    | 0x2c => some .le
    | 0x2d => some .lt
    | 0x2e => some .ne
    | 0x2f => some .skip
    | 0x90 => some .regx
    | 0x91 => some .fbreg
    | 0x92 => some .bregx
    | 0x93 => some .piece
    | 0x94 => some .derefSize
    | 0x95 => some .xderefSize
    | 0x96 => some .nop
    | 0x97 => some .pushObjectAddress
    | 0x98 => some .call2
    | 0x99 => some .call4
    | 0x9a => some .callRef
    | _ => none

/-- The operand types of `Gexpr.c`. -/
inductive OperandType where
  | val8 | val16 | val32 | val64 | uleb128 | sleb128 | offset | addr
  deriving DecidableEq, Repr

/-- The table `operands`: the types of an operation's operands. The table has no entry
for `DW_OP_constu` and `DW_OP_consts`. -/
def operands : DwOp → List OperandType
  | .addr => [.addr]
  | .const1u | .const1s | .pick | .derefSize | .xderefSize => [.val8]
  | .const2u | .const2s | .skip | .bra | .call2 => [.val16]
  | .const4u | .const4s | .call4 => [.val32]
  | .const8u | .const8s => [.val64]
  | .plusUconst | .regx | .piece => [.uleb128]
  | .breg _ | .fbreg => [.sleb128]
  | .bregx => [.uleb128, .sleb128]
  | .callRef => [.offset]
  | _ => []

/-- `read_operand`. -/
def readOperand (m : Mem) : OperandType → Reader Word
  | .val8 => do
    let u8 ← dwarfReadu8 m
    pure (u8.setWidth 64)
  | .val16 => do
    let u16 ← dwarfReadu16 m
    pure (u16.setWidth 64)
  | .val32 => do
    let u32 ← dwarfReadu32 m
    pure (u32.setWidth 64)
  | .val64 => dwarfReadu64 m
  | .uleb128 => dwarfReadUleb128 m
  | .sleb128 => dwarfReadSleb128 m
  -- only used by `DW_OP_call_ref`, which is not implemented
  | .offset => Act.fail .einval
  | .addr => dwarfReadu64 m

/-- `MAX_EXPR_STACK_SIZE`. -/
abbrev maxExprStackSize : ℕ := 64

/-- The state of `dwarf_eval_expr`. -/
structure ExprState where
  addr : Word
  stack : Fin maxExprStackSize → Option Word
  tos : BitVec 32
  operand1 : Word
  operand2 : Word
  lga : Lga
  fetched : List Word

/-- A call of the evaluator. -/
abbrev Eval (α : Type) : Type := Act UnwError ExprState α

namespace Eval

/-- Read at the address variable. -/
def onAddr {α : Type} (x : Reader α) : Eval α :=
  Act.zoom ExprState.addr (fun a s => { s with addr := a }) x

/-- Read memory or a register through the page cache. -/
def onLga {α : Type} (x : Act UnwError Lga α) : Eval α :=
  Act.zoom ExprState.lga (fun g s => { s with lga := g }) x

/-- The entry of the stack at an index that was checked. -/
def entry (index : BitVec 32) : Eval Word := do
  let s ← Act.get
  if h : index.toNat < maxExprStackSize then
    match s.stack ⟨index.toNat, h⟩ with
    | some val => pure val
    | none => Act.lift .undefined
  else
    Act.fail .einval

/-- The macro `pop`. -/
def pop : Eval Word := do
  let s ← Act.get
  let val ← entry (s.tos - 1)
  Act.modify fun s => { s with tos := s.tos - 1 }
  pure val

/-- The macro `push`. -/
def push (val : Word) : Eval Unit := do
  let s ← Act.get
  if h : s.tos.toNat < maxExprStackSize then
    Act.modify fun s =>
      { s with stack := Function.update s.stack ⟨_, h⟩ (some val), tos := s.tos + 1 }
  else
    Act.fail .einval

/-- The macro `pick`. -/
def pick (n : Word) : Eval Word := do
  let s ← Act.get
  entry (s.tos - 1 - n.setWidth 32)

/-- The operations that pop one entry and push another. -/
def unary (f : Word → Word) : Eval Unit := do
  let tmp1 ← pop
  push (f tmp1)

/-- `push (f (pop ()))`. The macro looks for room before it pops, so the operation fails on
a full stack, and the right side of its assignment is evaluated before the left. -/
def pushOfPop (f : Word → Word) : Eval Unit := do
  let s ← Act.get
  if s.tos.toNat < maxExprStackSize then unary f else Act.fail .einval

/-- The operations that pop two entries, the top one first, and push one. -/
def binary (f : Word → Word → Res UnwError Word) : Eval Unit := do
  let tmp1 ← pop
  let tmp2 ← pop
  let val ← Act.lift (f tmp1 tmp2)
  push val

/-- A comparison pushes 0 or 1. -/
def relational (r : Word → Word → Bool) : Eval Unit :=
  binary fun tmp1 tmp2 => .ok (if r tmp1 tmp2 then 1 else 0)

/-- A shift by the word size or more is undefined. -/
def shift (f : Word → ℕ → Word) : Eval Unit :=
  binary fun tmp1 tmp2 => if tmp1.toNat < 64 then .ok (f tmp2 tmp1.toNat) else .undefined

/-- The constants that extend the sign of their operand, and leave it extended. -/
def signedConst (bits : ℕ) : Eval Unit := do
  Act.modify fun s =>
    { s with
      operand1 :=
        if s.operand1.getLsbD (bits - 1) then s.operand1 ||| (BitVec.allOnes 64 <<< bits)
        else s.operand1 }
  let s ← Act.get
  push s.operand1

/-- Add the signed 16-bit operand of a branch to the address variable. -/
def branch : Eval Unit :=
  Act.modify fun s => { s with addr := s.addr + (s.operand1.setWidth 16).signExtend 64 }

/-- `DW_OP_deref_size`. -/
def derefSize (m : Mem) : Eval Unit := do
  let tmp1 ← pop
  let s ← Act.get
  match s.operand1.toNat with
  | 1 => push ((m tmp1).setWidth 64)
  | 2 => push ((load16 m tmp1).setWidth 64)
  | 3 => push ((load32 m tmp1).setWidth 64 &&& 0xffffff)
  | 4 => push ((load32 m tmp1).setWidth 64)
  -- the mask keeps the upper bytes
  | 5 => push (load64 m tmp1 &&& (BitVec.allOnes 64 <<< 40))
  | 6 => push (load64 m tmp1 &&& (BitVec.allOnes 64 <<< 48))
  | 7 => push (load64 m tmp1 &&& (BitVec.allOnes 64 <<< 56))
  | 8 => push (load64 m tmp1)
  | _ => Act.fail .einval

/-- `DW_OP_div`: a zero divisor is pushed as it is. -/
def sdiv (tmp1 tmp2 : Word) : Res UnwError Word :=
  if tmp1 = 0 then .ok tmp1
  else if tmp1 = BitVec.allOnes 64 ∧ tmp2 = BitVec.intMin 64 then .undefined
  else .ok (tmp2.sdiv tmp1)

end Eval

/-- `dwarf_to_unw_regnum`. The map is the identity on its 17 entries, and the macro lets
17 through, which is past its end. -/
def dwarfToUnwRegnum (reg : Word) : Res UnwError ℕ :=
  if reg.toNat < dwarfNumPreservedRegs then .ok reg.toNat
  else if reg.toNat = dwarfNumPreservedRegs then .undefined
  else .ok 0

section

variable (v : Validator) (m : Mem) (c : Cursor)

open Eval

/-- Push a register plus an offset. -/
def pushReg (reg offset : Word) : Eval Unit := do
  let regnum ← Act.lift (dwarfToUnwRegnum reg)
  let tmp1 ← onLga (unwGetReg v m c regnum)
  push (tmp1 + offset)

/-- The cases of the `switch` over the opcode that go round again, with the operands
read before. -/
def execStackOp (op : DwOp) (operand1 operand2 : Word) : Eval Unit :=
  match op with
  | .lit n => push (BitVec.ofNat 64 n)
  | .breg n => pushReg v m c (BitVec.ofNat 64 n) operand1
  | .bregx => pushReg v m c operand1 operand2
  | .addr | .const1u | .const2u | .const4u | .const8u | .constu | .const8s | .consts =>
    push operand1
  | .const1s => signedConst 8
  | .const2s => signedConst 16
  | .const4s => signedConst 32
  | .deref => do
    let tmp1 ← pop
    push (load64 m tmp1)
  | .derefSize => Eval.derefSize m
  | .dup => do
    let val ← pick 0
    push val
  | .drop => do
    let _ ← pop
  | .pick => do
    let val ← pick operand1
    push val
  | .over => do
    let val ← pick 1
    push val
  | .swap => do
    let tmp1 ← pop
    let tmp2 ← pop
    push tmp1
    push tmp2
  | .rot => do
    let tmp1 ← pop
    let tmp2 ← pop
    let tmp3 ← pop
    push tmp1
    push tmp3
    push tmp2
  | .abs => unary fun tmp1 => if tmp1.msb then -tmp1 else tmp1
  | .and => binary fun tmp1 tmp2 => .ok (tmp1 &&& tmp2)
  | .div => binary Eval.sdiv
  | .minus => binary fun tmp1 tmp2 => .ok (tmp2 - tmp1)
  | .mod => binary fun tmp1 tmp2 => .ok (if tmp1 = 0 then tmp1 else tmp2 % tmp1)
  | .mul => binary fun tmp1 tmp2 => .ok (if tmp1 = 0 then tmp1 else tmp2 * tmp1)
  | .neg => pushOfPop fun tmp1 => -tmp1
  | .not => pushOfPop fun tmp1 => ~~~tmp1
  | .or => binary fun tmp1 tmp2 => .ok (tmp1 ||| tmp2)
  | .plus => binary fun tmp1 tmp2 => .ok (tmp1 + tmp2)
  | .plusUconst => unary fun tmp1 => tmp1 + operand1
  | .shl => shift fun tmp2 n => tmp2 <<< n
  | .shr => shift fun tmp2 n => tmp2 >>> n
  | .shra => shift fun tmp2 n => tmp2.sshiftRight n
  | .xor => binary fun tmp1 tmp2 => .ok (tmp1 ^^^ tmp2)
  -- the top entry is the left side of a comparison
  | .le => relational fun tmp1 tmp2 => tmp1.sle tmp2
  | .ge => relational fun tmp1 tmp2 => tmp2.sle tmp1
  | .eq => relational fun tmp1 tmp2 => tmp1 = tmp2
  | .lt => relational fun tmp1 tmp2 => tmp1.slt tmp2
  | .gt => relational fun tmp1 tmp2 => tmp2.slt tmp1
  | .ne => relational fun tmp1 tmp2 => tmp1 ≠ tmp2
  | .skip => branch
  | .bra => do
    let tmp1 ← pop
    if tmp1 ≠ 0 then branch else pure ()
  | .nop => pure ()
  | _ => Act.fail .einval

/-- The `switch` over the opcode, after the operands have been read. A value is the
register the expression denotes, which ends the evaluation. -/
def execOp (op : DwOp) : Eval (Option ℕ) := do
  let s ← Act.get
  match op with
  | .reg n => do
    let regnum ← Act.lift (dwarfToUnwRegnum (BitVec.ofNat 64 n))
    pure (some regnum)
  | .regx => do
    let regnum ← Act.lift (dwarfToUnwRegnum s.operand1)
    pure (some regnum)
  | op => do
    execStackOp v m c op s.operand1 s.operand2
    pure none

/-- Read the operands of an operation. -/
def readOperands (op : DwOp) : Eval Unit :=
  match operands op with
  | [] => pure ()
  | [t] => do
    let val ← Eval.onAddr (readOperand m t)
    Act.modify fun s => { s with operand1 := val }
  | t₁ :: t₂ :: _ => do
    let val ← Eval.onAddr (readOperand m t₁)
    Act.modify fun s => { s with operand1 := val }
    let val ← Eval.onAddr (readOperand m t₂)
    Act.modify fun s => { s with operand2 := val }

/-- One turn of the loop of `dwarf_eval_expr`, up to `endAddr`. The loop ends with the
value of the expression and whether it is a register number. -/
def evalTurn (endAddr : Word) : Unit → Eval (Unit ⊕ (Word × Bool)) := fun _ => do
  let s ← Act.get
  if s.addr < endAddr then do
    Act.modify fun s => { s with fetched := s.fetched ++ [s.addr] }
    let opcode ← Eval.onAddr (dwarfReadu8 m)
    match DwOp.ofByte opcode with
    | none => Act.fail .einval
    | some op => do
      readOperands m op
      let r ← execOp v m c op
      match r with
      | some regnum => pure (.inr (BitVec.ofNat 64 regnum, true))
      | none => pure (.inl ())
  else do
    let val ← pop
    pure (.inr (val, false))

/-- The state in which the evaluation of an expression starts. -/
def ExprState.init (addr : Word) (lga : Lga) : ExprState :=
  ⟨addr, fun _ => none, 0, 0, 0, lga, []⟩

/-- The body of `dwarf_eval_expr`: the CFA is pushed first. -/
def evalExpr (fuel : ℕ) (endAddr : Word) : Eval (Word × Bool) := do
  push c.cfa
  Act.iter (evalTurn v m c endAddr) fuel ()

/-- `dwarf_eval_expr`, on the `len` bytes at `addr`: the value, and `is_register`. -/
def dwarfEvalExpr (fuel : ℕ) (addr len : Word) : Act UnwError Lga (Word × Bool) :=
  Act.zoom (ExprState.init addr) (fun s _ => s.lga) (evalExpr v m c fuel (addr + len))

end

end LibunwindKern
