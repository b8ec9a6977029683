import LibunwindKern.Dwarf.Reader
import Mathlib.Logic.Function.Basic

/-!
# Call-frame instructions

The model of `run_cfi_program` (`Gparser.c`): the opcodes of `dwarf_cfa_t`, the rules
of a row, and the loop that executes instructions up to a code address.

A row is a rule for each of the 17 registers and two columns for the CFA. The loop's
state is the location it has advanced to, the address variable, the state record, the
stack of remembered rows and the pool that stack is taken from. Block lengths can move
the address variable backwards, so the loop has a bound (`fuel`). `fetched` records the
addresses instructions were read from.
-/

namespace LibunwindKern

open CProg ByteMem

/-- `dwarf_cfa_t`. The first three opcodes carry a six-bit operand. -/
inductive DwCfa where
  | advanceLoc (delta : BitVec 6) | offset (reg : BitVec 6) | restore (reg : BitVec 6)
  | nop | setLoc | advanceLoc1 | advanceLoc2 | advanceLoc4
  | offsetExtended | restoreExtended | undefined | sameValue | register
  | rememberState | restoreState
  | defCfa | defCfaRegister | defCfaOffset | defCfaExpression | expression
  | offsetExtendedSf | defCfaSf | defCfaOffsetSf
  | loUser | mipsAdvanceLoc8 | gnuWindowSave | gnuArgsSize | gnuNegativeOffsetExtended | hiUser
  deriving DecidableEq, Repr

/-- The instruction of an opcode byte. The `switch` has no default, so a byte that is
none of these does nothing. -/
def DwCfa.ofByte (op : Byte) : Option DwCfa :=
  if op &&& 0xc0 = 0x40 then some (.advanceLoc (op.setWidth 6))
  else if op &&& 0xc0 = 0x80 then some (.offset (op.setWidth 6))
  else if op &&& 0xc0 = 0xc0 then some (.restore (op.setWidth 6))
  else
    match op.toNat with
    | 0x00 => some .nop
    | 0x01 => some .setLoc
    | 0x02 => some .advanceLoc1
    | 0x03 => some .advanceLoc2
    | 0x04 => some .advanceLoc4
    | 0x05 => some .offsetExtended
    | 0x06 => some .restoreExtended
    | 0x07 => some .undefined
    | 0x08 => some .sameValue
    | 0x09 => some .register
    | 0x0a => some .rememberState
    | 0x0b => some .restoreState
    | 0x0c => some .defCfa
    | 0x0d => some .defCfaRegister
    | 0x0e => some .defCfaOffset
    | 0x0f => some .defCfaExpression
    | 0x10 => some .expression
    | 0x11 => some .offsetExtendedSf
    | 0x12 => some .defCfaSf
    | 0x13 => some .defCfaOffsetSf
    | 0x1c => some .loUser
    | 0x1d => some .mipsAdvanceLoc8
    | 0x2d => some .gnuWindowSave
    | 0x2e => some .gnuArgsSize
    | 0x2f => some .gnuNegativeOffsetExtended
    | 0x3c => some .hiUser
    | _ => none

/-! ### Rows -/

/-- `dwarf_where_t`. -/
inductive Where where
  | undefined
  | same
  | cfarel
  | reg
  | expr
  deriving DecidableEq, Repr

/-- `dwarf_save_loc_t`. -/
structure SaveLoc where
  whereSaved : Where
  val : Word
  deriving DecidableEq, Repr

/-- `dwarf_reg_state_t`, the rules only. -/
abbrev RegState := Fin (dwarfNumPreservedRegs + 2) → SaveLoc

/-- `DWARF_CFA_REG_COLUMN`. -/
abbrev cfaRegColumn : Fin (dwarfNumPreservedRegs + 2) := 17

/-- `DWARF_CFA_OFF_COLUMN`. -/
abbrev cfaOffColumn : Fin (dwarfNumPreservedRegs + 2) := 18

/-- The column of a register. -/
abbrev column (reg : Fin dwarfNumPreservedRegs) : Fin (dwarfNumPreservedRegs + 2) :=
  reg.castLE (by decide)

/-- `dwarf_state_record_t`. -/
structure StateRecord where
  argsSize : Word
  rsInitial : RegState
  rsCurrent : RegState

/-- The state of the loop of `run_cfi_program`. -/
structure CfiState where
  currIp : Word
  addr : Word
  sr : StateRecord
  rsStack : List RegState
  pool : Pool
  fetched : List Word

/-- A call of the interpreter. -/
abbrev Cfi (α : Type) : Type := Act UnwError CfiState α

namespace Cfi

/-- Read at the address variable. -/
def onAddr {α : Type} (x : Reader α) : Cfi α :=
  Act.zoom CfiState.addr (fun a s => { s with addr := a }) x

/-- Replace the row. -/
def setRow (f : RegState → RegState) : Cfi Unit :=
  Act.modify fun s => { s with sr := { s.sr with rsCurrent := f s.sr.rsCurrent } }

/-- `set_reg`. -/
def setReg (regnum : Fin (dwarfNumPreservedRegs + 2)) (whereSaved : Where) (val : Word) : Cfi Unit :=
  setRow fun rs => Function.update rs regnum ⟨whereSaved, val⟩

/-- Move the location on. -/
def advance (delta : Word) : Cfi Unit :=
  Act.modify fun s => { s with currIp := s.currIp + delta }

/-- Give a register the rule of the initial row. -/
def restoreReg (reg : Word) : Cfi Unit := do
  let s ← Act.get
  if h : reg.toNat < dwarfNumPreservedRegs then
    setRow fun rs => Function.update rs (column ⟨_, h⟩) (s.sr.rsInitial (column ⟨_, h⟩))
  else
    Act.fail .einval

/-- Skip a block. Its address is the address of its length. -/
def skipBlock (m : Mem) : Cfi Unit := do
  let len ← onAddr (dwarfReadUleb128 m)
  Act.modify fun s => { s with addr := s.addr + len }

end Cfi

/-- `read_regnum`. -/
def readRegnum (m : Mem) : Reader (Fin dwarfNumPreservedRegs) := do
  let val ← dwarfReadUleb128 m
  if h : val.toNat < dwarfNumPreservedRegs then pure ⟨_, h⟩ else Act.fail .ebadreg

open Cfi in
/-- The `switch` over the opcode. -/
def execCfa (m : Mem) (pi : ProcInfo) (dci : CieInfo) : DwCfa → Cfi Unit
  | .advanceLoc delta => advance (delta.setWidth 64 * dci.codeAlign)
  | .advanceLoc1 => do
    let u8 ← onAddr (dwarfReadu8 m)
    advance (u8.setWidth 64 * dci.codeAlign)
  | .advanceLoc2 => do
    let u16 ← onAddr (dwarfReadu16 m)
    advance (u16.setWidth 64 * dci.codeAlign)
  | .advanceLoc4 => do
    let u32 ← onAddr (dwarfReadu32 m)
    advance (u32.setWidth 64 * dci.codeAlign)
  | .mipsAdvanceLoc8 => Act.fail .einval
  | .offset reg =>
    if h : reg.toNat < dwarfNumPreservedRegs then do
      let val ← onAddr (dwarfReadUleb128 m)
      setReg (column ⟨_, h⟩) .cfarel (val * dci.dataAlign)
    else
      Act.fail .ebadreg
  | .offsetExtended => do
    let regnum ← onAddr (readRegnum m)
    let val ← onAddr (dwarfReadUleb128 m)
    setReg (column regnum) .cfarel (val * dci.dataAlign)
  | .offsetExtendedSf => do
    let regnum ← onAddr (readRegnum m)
    let val ← onAddr (dwarfReadSleb128 m)
    setReg (column regnum) .cfarel (val * dci.dataAlign)
  | .restore reg => restoreReg (reg.setWidth 64)
  | .restoreExtended => do
    let regnum ← onAddr (dwarfReadUleb128 m)
    restoreReg regnum
  | .nop => pure ()
  | .setLoc => do
    let currIp ← onAddr (dwarfReadEncodedPointer m dci.fdeEncoding pi)
    Act.modify fun s => { s with currIp := currIp }
  | .undefined => do
    let regnum ← onAddr (readRegnum m)
    setReg (column regnum) .undefined 0
  | .sameValue => do
    let regnum ← onAddr (readRegnum m)
    setReg (column regnum) .same 0
  | .register => do
    let regnum ← onAddr (readRegnum m)
    let val ← onAddr (dwarfReadUleb128 m)
    setReg (column regnum) .reg val
  | .rememberState =>
    Act.modify fun s =>
      { s with rsStack := s.sr.rsCurrent :: s.rsStack, pool := s.pool.alloc }
  | .restoreState => do
    let s ← Act.get
    match s.rsStack with
    | [] => Act.fail .einval
    | rs :: rsStack => do
      setRow fun _ => rs
      Act.modify fun s => { s with rsStack := rsStack, pool := s.pool.free }
  | .defCfa => do
    let regnum ← onAddr (readRegnum m)
    let val ← onAddr (dwarfReadUleb128 m)
    setReg cfaRegColumn .reg (BitVec.ofNat 64 regnum)
    -- not factored; the rule `0` is `DWARF_WHERE_UNDEF`
    setReg cfaOffColumn .undefined val
  | .defCfaSf => do
    let regnum ← onAddr (readRegnum m)
    let val ← onAddr (dwarfReadSleb128 m)
    setReg cfaRegColumn .reg (BitVec.ofNat 64 regnum)
    setReg cfaOffColumn .undefined (val * dci.dataAlign)
  | .defCfaRegister => do
    let regnum ← onAddr (readRegnum m)
    setReg cfaRegColumn .reg (BitVec.ofNat 64 regnum)
  | .defCfaOffset => do
    let val ← onAddr (dwarfReadUleb128 m)
    setReg cfaOffColumn .undefined val
  | .defCfaOffsetSf => do
    let val ← onAddr (dwarfReadSleb128 m)
    setReg cfaOffColumn .undefined (val * dci.dataAlign)
  | .defCfaExpression => do
    let s ← Act.get
    setReg cfaRegColumn .expr s.addr
    skipBlock m
  | .expression => do
    let regnum ← onAddr (readRegnum m)
    let s ← Act.get
    setReg (column regnum) .expr s.addr
    skipBlock m
  | .gnuArgsSize => do
    let val ← onAddr (dwarfReadUleb128 m)
    Act.modify fun s => { s with sr := { s.sr with argsSize := val } }
  | .gnuNegativeOffsetExtended => do
    let regnum ← onAddr (readRegnum m)
    let val ← onAddr (dwarfReadUleb128 m)
    setReg (column regnum) .cfarel (-(val * dci.dataAlign))
  | .gnuWindowSave => Act.fail .einval
  | .loUser => Act.fail .einval
  | .hiUser => Act.fail .einval

/-- One turn of the loop of `run_cfi_program`. -/
def cfiTurn (m : Mem) (pi : ProcInfo) (dci : CieInfo) : Cfi Unit := do
  Act.modify fun s => { s with fetched := s.fetched ++ [s.addr] }
  let op ← Cfi.onAddr (dwarfReadu8 m)
  match DwCfa.ofByte op with
  | none => pure ()
  | some cfa => execCfa m pi dci cfa

/-- What a run of a CFI program changes for its caller. -/
structure RowState where
  sr : StateRecord
  pool : Pool
  fetched : List Word

/-- Return `n` objects to a pool. -/
def Pool.freeAll (p : Pool) (n : ℕ) : Pool := { p with frees := p.frees + n }

/-- The state in which a run starts. -/
def CfiState.init (pi : ProcInfo) (addr : Word) (s : RowState) : CfiState :=
  ⟨pi.startIp, addr, s.sr, [], s.pool, s.fetched⟩

/-- What is left of a run for its caller. The remembered rows are freed, whether the run
failed or not. -/
def CfiState.finish (s : CfiState) : RowState :=
  ⟨s.sr, s.pool.freeAll s.rsStack.length, s.fetched⟩

/-- Whether the loop of `run_cfi_program` goes round again. -/
def cfiGoesOn (ip endAddr : Word) (s : CfiState) : Bool :=
  decide (s.currIp ≤ ip) && decide (s.addr < endAddr)

/-- The loop of `run_cfi_program`. -/
def cfiLoop (m : Mem) (pi : ProcInfo) (dci : CieInfo) (fuel : ℕ) (ip endAddr : Word) : Cfi Unit :=
  Act.loop (cfiGoesOn ip endAddr) (cfiTurn m pi dci) fuel

/-- `run_cfi_program`, on the instructions between two addresses. -/
def runCfiProgram (m : Mem) (pi : ProcInfo) (dci : CieInfo) (fuel : ℕ) (ip addr endAddr : Word) :
    Act UnwError RowState Unit :=
  Act.zoom (CfiState.init pi addr) (fun t _ => t.finish) (cfiLoop m pi dci fuel ip endAddr)

/-! ### What instructions are made of -/

/-- The readers of operands. -/
inductive CfaOperand (m : Mem) (pi : ProcInfo) (dci : CieInfo) : {α : Type} → Reader α → Prop
  | u8 : CfaOperand m pi dci (dwarfReadu8 m)
  | u16 : CfaOperand m pi dci (dwarfReadu16 m)
  | u32 : CfaOperand m pi dci (dwarfReadu32 m)
  | uleb : CfaOperand m pi dci (dwarfReadUleb128 m)
  | sleb : CfaOperand m pi dci (dwarfReadSleb128 m)
  | regnum : CfaOperand m pi dci (readRegnum m)
  | pointer : CfaOperand m pi dci (dwarfReadEncodedPointer m dci.fdeEncoding pi)

/-- A property of calls of the interpreter that holds of the parts an instruction is made of,
and of sequences of such parts. -/
structure CfaClosed (m : Mem) (pi : ProcInfo) (dci : CieInfo) (P : (α : Type) → Cfi α → Prop) :
    Prop where
  pure {α : Type} (a : α) : P α (pure a)
  get : P CfiState Act.get
  bind {α β : Type} {x : Cfi α} {f : α → Cfi β} : P α x → (∀ a, P β (f a)) → P β (x >>= f)
  read {α : Type} {x : Reader α} : CfaOperand m pi dci x → P α (Cfi.onAddr x)
  modify {f : CfiState → CfiState} : (∀ s, (f s).fetched = s.fetched) → P Unit (Act.modify f)
  einval {α : Type} : P α (Act.fail .einval)
  ebadreg {α : Type} : P α (Act.fail .ebadreg)

section Closed

variable {m : Mem} {pi : ProcInfo} {dci : CieInfo} {P : (α : Type) → Cfi α → Prop}

theorem CfaClosed.setReg (h : CfaClosed m pi dci P) (i : Fin (dwarfNumPreservedRegs + 2))
    (w : Where) (val : Word) : P Unit (Cfi.setReg i w val) := h.modify fun _ => rfl

theorem CfaClosed.advance (h : CfaClosed m pi dci P) (delta : Word) : P Unit (Cfi.advance delta) :=
  h.modify fun _ => rfl

theorem CfaClosed.restoreReg (h : CfaClosed m pi dci P) (reg : Word) :
    P Unit (Cfi.restoreReg reg) := by
  refine h.bind h.get fun s => ?_
  split
  · exact h.modify fun _ => rfl
  · exact h.einval

theorem CfaClosed.skipBlock (h : CfaClosed m pi dci P) : P Unit (Cfi.skipBlock m) :=
  h.bind (h.read .uleb) fun _ => h.modify fun _ => rfl

/-- **Induction over the instructions**: such a property holds of each of them. -/
theorem CfaClosed.execCfa (h : CfaClosed m pi dci P) (op : DwCfa) :
    P Unit (execCfa m pi dci op) := by
  cases op with
  | advanceLoc delta => exact h.advance _
  | offset reg =>
    simp only [LibunwindKern.execCfa]
    split
    · exact h.bind (h.read .uleb) fun _ => h.setReg _ _ _
    · exact h.ebadreg
  | restore reg => exact h.restoreReg _
  | nop => exact h.pure _
  | setLoc => exact h.bind (h.read .pointer) fun _ => h.modify fun _ => rfl
  | advanceLoc1 => exact h.bind (h.read .u8) fun _ => h.advance _
  | advanceLoc2 => exact h.bind (h.read .u16) fun _ => h.advance _
  | advanceLoc4 => exact h.bind (h.read .u32) fun _ => h.advance _
  | offsetExtended =>
    exact h.bind (h.read .regnum) fun _ => h.bind (h.read .uleb) fun _ => h.setReg _ _ _
  | restoreExtended => exact h.bind (h.read .uleb) fun _ => h.restoreReg _
  | undefined => exact h.bind (h.read .regnum) fun _ => h.setReg _ _ _
  | sameValue => exact h.bind (h.read .regnum) fun _ => h.setReg _ _ _
  | register =>
    exact h.bind (h.read .regnum) fun _ => h.bind (h.read .uleb) fun _ => h.setReg _ _ _
  | rememberState => exact h.modify fun _ => rfl
  | restoreState =>
    refine h.bind h.get fun s => ?_
    split
    · exact h.einval
    · exact h.bind (h.modify fun _ => rfl) fun _ => h.modify fun _ => rfl
  | defCfa =>
    exact h.bind (h.read .regnum) fun _ => h.bind (h.read .uleb) fun _ =>
      h.bind (h.setReg _ _ _) fun _ => h.setReg _ _ _
  | defCfaRegister => exact h.bind (h.read .regnum) fun _ => h.setReg _ _ _
  | defCfaOffset => exact h.bind (h.read .uleb) fun _ => h.setReg _ _ _
  | defCfaExpression =>
    exact h.bind h.get fun _ => h.bind (h.setReg _ _ _) fun _ => h.skipBlock
  | expression =>
    exact h.bind (h.read .regnum) fun _ => h.bind h.get fun _ =>
      h.bind (h.setReg _ _ _) fun _ => h.skipBlock
  | offsetExtendedSf =>
    exact h.bind (h.read .regnum) fun _ => h.bind (h.read .sleb) fun _ => h.setReg _ _ _
  | defCfaSf =>
    exact h.bind (h.read .regnum) fun _ => h.bind (h.read .sleb) fun _ =>
      h.bind (h.setReg _ _ _) fun _ => h.setReg _ _ _
  | defCfaOffsetSf => exact h.bind (h.read .sleb) fun _ => h.setReg _ _ _
  | loUser => exact h.einval
  | mipsAdvanceLoc8 => exact h.einval
  | gnuWindowSave => exact h.einval
  | gnuArgsSize => exact h.bind (h.read .uleb) fun _ => h.modify fun _ => rfl
  | gnuNegativeOffsetExtended =>
    exact h.bind (h.read .regnum) fun _ => h.bind (h.read .uleb) fun _ => h.setReg _ _ _
  | hiUser => exact h.einval

end Closed

end LibunwindKern
