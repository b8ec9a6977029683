import LibunwindKern.Dwarf.Cfi
import LibunwindKern.Dwarf.Encoding

/-!
# The row at an address

`run_cfi_program` against the rules of DWARF. `CfaInstr` are the call-frame instructions,
apart from how they are encoded: several opcodes can stand for the same instruction.
`CfaInstr.rule` is the rule of an instruction, over a location, a row and a stack of rows.
The row at an address is the fold of the rules over the instructions up to the first one
that takes the location past the address (`executed`).

`InstrAt` says that an instruction is encoded in memory. `cfiTurn_of_instrAt` is the step:
a turn of the loop does what the rule says. `cfiLoop_of_programAt` is the run.

Only `set_loc` can go wrong, where the code pointers are signed LEB128 numbers. The reader
of encoded pointers decodes these as unsigned numbers, so a negative operand of less than
ten bytes gives a wrong location (`CfaInstr.Misread`).
-/

namespace LibunwindKern

open CProg ByteMem

/-! ### Instructions and their rules -/

/-- A register that a row has a rule for. -/
abbrev RegNum := Fin dwarfNumPreservedRegs

/-- The call-frame instructions. A block is given by its address. The operand of `setLoc` is
given by its raw value and its size in memory as well. -/
inductive CfaInstr where
  | nop
  | advanceLoc (delta : Word)
  | setLoc (loc raw : Word) (width : ℕ)
  | offset (reg : RegNum) (off : Word)
  | negativeOffset (reg : RegNum) (off : Word)
  | restore (reg : RegNum)
  | undefined (reg : RegNum)
  | sameValue (reg : RegNum)
  | register (reg : RegNum) (val : Word)
  | rememberState
  | restoreState
  | defCfa (reg : RegNum) (off : Word)
  | defCfaSf (reg : RegNum) (off : Word)
  | defCfaRegister (reg : RegNum)
  | defCfaOffset (off : Word)
  | defCfaOffsetSf (off : Word)
  | defCfaExpression (block : Word)
  | expression (reg : RegNum) (block : Word)
  | argsSize (val : Word)
  deriving DecidableEq, Repr

/-- A row of the table, the location from which on it is in effect, and the rows that were
remembered. -/
structure Row where
  loc : Word
  regs : RegState
  stack : List RegState

/-- Give a column a rule. -/
def Row.set (r : Row) (i : Fin (dwarfNumPreservedRegs + 2)) (whereSaved : Where) (val : Word) : Row :=
  { r with regs := Function.update r.regs i ⟨whereSaved, val⟩ }

/-- The rule of an instruction. Offsets are factored, except those of the CFA that are
unsigned. -/
def CfaInstr.rule (dci : CieInfo) (rsInitial : RegState) : CfaInstr → Row → Row
  | .nop, r => r
  | .advanceLoc delta, r => { r with loc := r.loc + delta * dci.codeAlign }
  | .setLoc loc _ _, r => { r with loc := loc }
  | .offset reg off, r => r.set (column reg) .cfarel (off * dci.dataAlign)
  | .negativeOffset reg off, r => r.set (column reg) .cfarel (-(off * dci.dataAlign))
  | .restore reg, r =>
    { r with regs := Function.update r.regs (column reg) (rsInitial (column reg)) }
  | .undefined reg, r => r.set (column reg) .undefined 0
  | .sameValue reg, r => r.set (column reg) .same 0
  | .register reg val, r => r.set (column reg) .reg val
  | .rememberState, r => { r with stack := r.regs :: r.stack }
  | .restoreState, r =>
    match r.stack with
    | [] => r
    | rs :: stack => { r with regs := rs, stack := stack }
  | .defCfa reg off, r =>
    (r.set cfaRegColumn .reg (BitVec.ofNat 64 reg)).set cfaOffColumn .undefined off
  | .defCfaSf reg off, r =>
    (r.set cfaRegColumn .reg (BitVec.ofNat 64 reg)).set cfaOffColumn .undefined
      (off * dci.dataAlign)
  | .defCfaRegister reg, r => r.set cfaRegColumn .reg (BitVec.ofNat 64 reg)
  | .defCfaOffset off, r => r.set cfaOffColumn .undefined off
  | .defCfaOffsetSf off, r => r.set cfaOffColumn .undefined (off * dci.dataAlign)
  | .defCfaExpression block, r => r.set cfaRegColumn .expr block
  | .expression reg block, r => r.set (column reg) .expr block
  | .argsSize _, r => r

/-- The instructions up to and including the first one that moves the location above an
address. -/
def executed (dci : CieInfo) (rsInitial : RegState) (ip : Word) : Row → List CfaInstr → List CfaInstr
  | _, [] => []
  | r, i :: prog =>
    if r.loc ≤ ip then i :: executed dci rsInitial ip (i.rule dci rsInitial r) prog else []

/-- **The row at an address**: the fold of the rules. -/
def rowAt (dci : CieInfo) (rsInitial : RegState) (ip : Word) (r : Row) (prog : List CfaInstr) : Row :=
  (executed dci rsInitial ip r prog).foldl (fun r i => i.rule dci rsInitial r) r

/-- Every `restoreState` has a row to restore, from a stack of this depth. -/
def Matched : ℕ → List CfaInstr → Prop
  | _, [] => True
  | depth, .rememberState :: prog => Matched (depth + 1) prog
  | depth, .restoreState :: prog => 0 < depth ∧ Matched (depth - 1) prog
  | depth, _ :: prog => Matched depth prog

/-- A `set_loc` that the reader of encoded pointers gets wrong. -/
def CfaInstr.Misread (dci : CieInfo) : CfaInstr → Prop
  | .setLoc _ raw width =>
    dci.fdeEncoding &&& dwEhPeFormatMask = dwEhPeSleb128 ∧ raw.toInt < 0 ∧ width < 10
  | _ => False

/-! ### Instructions in memory -/

/-- A register operand. -/
def RegAt (m : Mem) (a : Word) (reg : RegNum) (width : ℕ) : Prop :=
  UlebAt m a (BitVec.ofNat 64 reg) width

/-- A block, from the address of its length on. -/
def BlockAt (m : Mem) (a b : Word) : Prop :=
  ∃ len width, UlebAt m a len width ∧ b = past a width + len

/-- The instruction at `a`, which ends at `b`: one case for each opcode. -/
inductive InstrAt (m : Mem) (pi : ProcInfo) (dci : CieInfo) (a : Word) : CfaInstr → Word → Prop
  | advanceLoc (delta : BitVec 6) (hop : m a = 0x40 ||| delta.setWidth 8) :
      InstrAt m pi dci a (.advanceLoc (delta.setWidth 64)) (a + 1)
  | offset (op : BitVec 6) {reg : RegNum} {off : Word} {w : ℕ} (hop : m a = 0x80 ||| op.setWidth 8)
      (hreg : op.toNat = reg) (hoff : UlebAt m (a + 1) off w) :
      InstrAt m pi dci a (.offset reg off) (past (a + 1) w)
  | restore (op : BitVec 6) {reg : RegNum} (hop : m a = 0xc0 ||| op.setWidth 8)
      (hreg : op.toNat = reg) : InstrAt m pi dci a (.restore reg) (a + 1)
  | nop (hop : m a = 0x00) : InstrAt m pi dci a .nop (a + 1)
  | setLoc {e : PtrEnc} {loc raw : Word} {w : ℕ} (hop : m a = 0x01) (henc : dci.fdeEncoding = e.byte)
      (hptr : PtrAt m pi e (a + 1) raw loc w) :
      InstrAt m pi dci a (.setLoc loc raw w) (past (a + 1) w)
  | setLocAligned (hop : m a = 0x01) (henc : dci.fdeEncoding = dwEhPeAligned) :
      InstrAt m pi dci a
        (.setLoc (load64 m ((a + 1 + 7) &&& (-8#64))) (load64 m ((a + 1 + 7) &&& (-8#64))) 8)
        (((a + 1 + 7) &&& (-8#64)) + 8)
  | advanceLoc1 (hop : m a = 0x02) :
      InstrAt m pi dci a (.advanceLoc ((m (a + 1)).setWidth 64)) (a + 1 + 1)
  | advanceLoc2 (hop : m a = 0x03) :
      InstrAt m pi dci a (.advanceLoc ((load16 m (a + 1)).setWidth 64)) (a + 1 + 2)
  | advanceLoc4 (hop : m a = 0x04) :
      InstrAt m pi dci a (.advanceLoc ((load32 m (a + 1)).setWidth 64)) (a + 1 + 4)
  | offsetExtended {reg : RegNum} {off : Word} {w₁ w₂ : ℕ} (hop : m a = 0x05)
      (hreg : RegAt m (a + 1) reg w₁) (hoff : UlebAt m (past (a + 1) w₁) off w₂) :
      InstrAt m pi dci a (.offset reg off) (past (past (a + 1) w₁) w₂)
  | restoreExtended {reg : RegNum} {w : ℕ} (hop : m a = 0x06) (hreg : RegAt m (a + 1) reg w) :
      InstrAt m pi dci a (.restore reg) (past (a + 1) w)
  | undefined {reg : RegNum} {w : ℕ} (hop : m a = 0x07) (hreg : RegAt m (a + 1) reg w) :
      InstrAt m pi dci a (.undefined reg) (past (a + 1) w)
  | sameValue {reg : RegNum} {w : ℕ} (hop : m a = 0x08) (hreg : RegAt m (a + 1) reg w) :
      InstrAt m pi dci a (.sameValue reg) (past (a + 1) w)
  | register {reg : RegNum} {val : Word} {w₁ w₂ : ℕ} (hop : m a = 0x09)
      (hreg : RegAt m (a + 1) reg w₁) (hval : UlebAt m (past (a + 1) w₁) val w₂) :
      InstrAt m pi dci a (.register reg val) (past (past (a + 1) w₁) w₂)
  | rememberState (hop : m a = 0x0a) : InstrAt m pi dci a .rememberState (a + 1)
  | restoreState (hop : m a = 0x0b) : InstrAt m pi dci a .restoreState (a + 1)
  | defCfa {reg : RegNum} {off : Word} {w₁ w₂ : ℕ} (hop : m a = 0x0c)
      (hreg : RegAt m (a + 1) reg w₁) (hoff : UlebAt m (past (a + 1) w₁) off w₂) :
      InstrAt m pi dci a (.defCfa reg off) (past (past (a + 1) w₁) w₂)
  | defCfaRegister {reg : RegNum} {w : ℕ} (hop : m a = 0x0d) (hreg : RegAt m (a + 1) reg w) :
      InstrAt m pi dci a (.defCfaRegister reg) (past (a + 1) w)
  | defCfaOffset {off : Word} {w : ℕ} (hop : m a = 0x0e) (hoff : UlebAt m (a + 1) off w) :
      InstrAt m pi dci a (.defCfaOffset off) (past (a + 1) w)
  | defCfaExpression {b : Word} (hop : m a = 0x0f) (hblock : BlockAt m (a + 1) b) :
      InstrAt m pi dci a (.defCfaExpression (a + 1)) b
  | expression {reg : RegNum} {w : ℕ} {b : Word} (hop : m a = 0x10) (hreg : RegAt m (a + 1) reg w)
      (hblock : BlockAt m (past (a + 1) w) b) :
      InstrAt m pi dci a (.expression reg (past (a + 1) w)) b
  | offsetExtendedSf {reg : RegNum} {off : Word} {w₁ w₂ : ℕ} (hop : m a = 0x11)
      (hreg : RegAt m (a + 1) reg w₁) (hoff : SlebAt m (past (a + 1) w₁) off w₂) :
      InstrAt m pi dci a (.offset reg off) (past (past (a + 1) w₁) w₂)
  | defCfaSf {reg : RegNum} {off : Word} {w₁ w₂ : ℕ} (hop : m a = 0x12)
      (hreg : RegAt m (a + 1) reg w₁) (hoff : SlebAt m (past (a + 1) w₁) off w₂) :
      InstrAt m pi dci a (.defCfaSf reg off) (past (past (a + 1) w₁) w₂)
  | defCfaOffsetSf {off : Word} {w : ℕ} (hop : m a = 0x13) (hoff : SlebAt m (a + 1) off w) :
      InstrAt m pi dci a (.defCfaOffsetSf off) (past (a + 1) w)
  | gnuArgsSize {val : Word} {w : ℕ} (hop : m a = 0x2e) (hval : UlebAt m (a + 1) val w) :
      InstrAt m pi dci a (.argsSize val) (past (a + 1) w)
  | gnuNegativeOffsetExtended {reg : RegNum} {off : Word} {w₁ w₂ : ℕ} (hop : m a = 0x2f)
      (hreg : RegAt m (a + 1) reg w₁) (hoff : UlebAt m (past (a + 1) w₁) off w₂) :
      InstrAt m pi dci a (.negativeOffset reg off) (past (past (a + 1) w₁) w₂)

/-- Instructions one after the other from `a` to `e`. -/
inductive ProgramAt (m : Mem) (pi : ProcInfo) (dci : CieInfo) (e : Word) :
    Word → List CfaInstr → Prop
  | nil : ProgramAt m pi dci e e []
  | cons {a b : Word} {i : CfaInstr} {prog : List CfaInstr} (hinstr : InstrAt m pi dci a i b)
      (hlt : a < b) (hrest : ProgramAt m pi dci e b prog) : ProgramAt m pi dci e a (i :: prog)

/-! ### One turn of the loop -/

/-- The part of the loop's state that the rules are about. -/
def CfiState.row (s : CfiState) : Row := ⟨s.currIp, s.sr.rsCurrent, s.rsStack⟩

/-- A call has followed the rule of an instruction, up to the address `b`. -/
structure Follows (dci : CieInfo) (i : CfaInstr) (b : Word) (s : CfiState)
    (r : Res UnwError Unit × CfiState) : Prop where
  ok : r.1 = .ok ()
  addr : r.2.addr = b
  row : r.2.row = i.rule dci s.sr.rsInitial s.row
  rsInitial : r.2.sr.rsInitial = s.sr.rsInitial

section Turn

variable {m : Mem} {pi : ProcInfo} {dci : CieInfo} {s : CfiState} {a b : Word} {i : CfaInstr}

theorem cfi_onAddr_of_ok {α : Type} {x : Reader α} {v : α} (h : x s.addr = (.ok v, a)) :
    Cfi.onAddr x s = (.ok v, { s with addr := a }) := by
  unfold Cfi.onAddr
  rw [Act.zoom_apply, h]

/-- The state after the opcode was read. -/
def CfiState.fetch (s : CfiState) : CfiState :=
  { s with addr := s.addr + 1, fetched := s.fetched ++ [s.addr] }

theorem cfiTurn_of_op {op : Byte} {cfa : DwCfa} (hop : m s.addr = op)
    (hcfa : DwCfa.ofByte op = some cfa) :
    cfiTurn m pi dci s = execCfa m pi dci cfa s.fetch := by
  have hread : dwarfReadu8 m s.addr = (.ok op, s.addr + 1) := by
    unfold dwarfReadu8
    rw [hop]
  unfold cfiTurn
  rw [Act.modify_bind, Act.bind_of_ok (cfi_onAddr_of_ok
    (s := { s with fetched := s.fetched ++ [s.addr] }) hread), hcfa]
  rfl

/-- The number of a register fits in a word. -/
theorem toNat_ofNat_regNum (reg : RegNum) : (BitVec.ofNat 64 (reg : ℕ)).toNat = reg := by
  rw [BitVec.toNat_ofNat]
  have hlt : (reg : ℕ) < 17 := reg.isLt
  omega

theorem readRegnum_of_regAt {reg : RegNum} {w : ℕ} (h : RegAt m a reg w) :
    readRegnum m a = (.ok reg, past a w) := by
  unfold readRegnum
  rw [Act.bind_of_ok (dwarfReadUleb128_of_ulebAt h)]
  simp only [toNat_ofNat_regNum, reg.isLt, dif_pos]
  rfl

theorem restoreReg_eq {reg : RegNum} {val : Word} (h : val.toNat = reg) :
    Cfi.restoreReg val s = (.ok (), { s with sr := { s.sr with
      rsCurrent := Function.update s.sr.rsCurrent (column reg) (s.sr.rsInitial (column reg)) } }) := by
  obtain ⟨n, hn⟩ := reg
  have hval : val.toNat = n := h
  subst hval
  unfold Cfi.restoreReg
  rw [Act.get_bind, dif_pos hn]
  rfl

theorem skipBlock_of_blockAt (h : BlockAt m s.addr b) :
    Cfi.skipBlock m s = (.ok (), { s with addr := b }) := by
  obtain ⟨len, width, hlen, rfl⟩ := h
  unfold Cfi.skipBlock
  rw [Act.bind_of_ok (cfi_onAddr_of_ok (dwarfReadUleb128_of_ulebAt hlen))]
  rfl

/-- A column gets the address of a block, and the block is skipped. -/
theorem setReg_block_eq (j : Fin (dwarfNumPreservedRegs + 2)) (h : BlockAt m s.addr b) :
    (do
      let s ← Act.get
      Cfi.setReg j .expr s.addr
      Cfi.skipBlock m) s =
      (.ok (), { s with
        addr := b
        sr := { s.sr with rsCurrent := Function.update s.sr.rsCurrent j ⟨.expr, s.addr⟩ } }) :=
  skipBlock_of_blockAt (s := { s with
    sr := { s.sr with rsCurrent := Function.update s.sr.rsCurrent j ⟨.expr, s.addr⟩ } }) h

/-- A register and a second operand, read one after the other. -/
theorem onAddr_reg_bind {α : Type} {x : Reader α} {v : α} {reg : RegNum} {w : ℕ}
    (hreg : RegAt m s.addr reg w) (hx : x (past s.addr w) = (.ok v, b))
    (f : RegNum → α → Cfi Unit) :
    (do
      let regnum ← Cfi.onAddr (readRegnum m)
      let val ← Cfi.onAddr x
      f regnum val) s = f reg v { s with addr := b } := by
  rw [Act.bind_of_ok (cfi_onAddr_of_ok (readRegnum_of_regAt hreg))]
  rw [Act.bind_of_ok (cfi_onAddr_of_ok (s := { s with addr := past s.addr w }) hx)]

theorem CfaInstr.not_misread {e : PtrEnc} {loc raw : Word} {w : ℕ} (henc : dci.fdeEncoding = e.byte)
    (hptr : PtrAt m pi e a raw loc w) (h : ¬(CfaInstr.setLoc loc raw w).Misread dci) :
    e.format = .sleb128 → raw.toInt < 0 → w = 10 := by
  intro hsleb hneg
  have hle := hptr.1.width_le
  by_contra hne
  refine h ⟨?_, hneg, by omega⟩
  rw [henc, e.byte_spec.2.2.1, hsleb]
  rfl

/-- **One turn.** The loop does what the rule of the instruction says, unless the
instruction is a `set_loc` that is misread. -/
theorem cfiTurn_of_instrAt (h : InstrAt m pi dci s.addr i b) (hread : ¬i.Misread dci)
    (hstack : i = .restoreState → s.rsStack ≠ []) :
    Follows dci i b s (cfiTurn m pi dci s) := by
  -- the three opcodes with an operand in their low six bits
  have hpacked : ∀ v : BitVec 6, DwCfa.ofByte (0x40 ||| v.setWidth 8) = some (.advanceLoc v) ∧
      DwCfa.ofByte (0x80 ||| v.setWidth 8) = some (.offset v) ∧
      DwCfa.ofByte (0xc0 ||| v.setWidth 8) = some (.restore v) := by decide
  cases h with
  | advanceLoc delta hop =>
    rw [cfiTurn_of_op hop (hpacked delta).1]
    exact ⟨rfl, rfl, rfl, rfl⟩
  | @offset op reg off w hop hreg hoff =>
    rw [cfiTurn_of_op hop (hpacked op).2.1]
    -- this is the one opcode that checks its register itself
    have hlt : op.toNat < dwarfNumPreservedRegs := hreg ▸ reg.isLt
    have hcol : (⟨op.toNat, hlt⟩ : RegNum) = reg := Fin.ext hreg
    rw [execCfa]
    rw [dif_pos hlt, Act.bind_of_ok (cfi_onAddr_of_ok (s := s.fetch)
      (dwarfReadUleb128_of_ulebAt hoff)), hcol]
    exact ⟨rfl, rfl, rfl, rfl⟩
  | @restore op reg hop hreg =>
    rw [cfiTurn_of_op hop (hpacked op).2.2]
    have hnat : (op.setWidth 64).toNat = reg := by
      rw [BitVec.toNat_setWidth, ← hreg]
      have := op.isLt
      omega
    rw [execCfa]
    rw [restoreReg_eq hnat]
    exact ⟨rfl, rfl, rfl, rfl⟩
  | nop hop =>
    rw [cfiTurn_of_op hop rfl]
    exact ⟨rfl, rfl, rfl, rfl⟩
  | @setLoc e loc raw w hop henc hptr =>
    rw [cfiTurn_of_op hop rfl]
    -- the encoding of the FDE decides how the location is read
    have hneg := CfaInstr.not_misread henc hptr hread
    rw [execCfa]
    rw [henc, Act.bind_of_ok (cfi_onAddr_of_ok (s := s.fetch)
      (dwarfReadEncodedPointer_of_ptrAt hptr hneg))]
    exact ⟨rfl, rfl, rfl, rfl⟩
  | setLocAligned hop henc =>
    rw [cfiTurn_of_op hop rfl, execCfa]
    rw [henc, Act.bind_of_ok (cfi_onAddr_of_ok (s := s.fetch)
      (show dwarfReadEncodedPointer m dwEhPeAligned pi (s.addr + 1) = _ from rfl))]
    exact ⟨rfl, rfl, rfl, rfl⟩
  | advanceLoc1 hop =>
    rw [cfiTurn_of_op hop rfl]
    exact ⟨rfl, rfl, rfl, rfl⟩
  | advanceLoc2 hop =>
    rw [cfiTurn_of_op hop rfl]
    exact ⟨rfl, rfl, rfl, rfl⟩
  | advanceLoc4 hop =>
    rw [cfiTurn_of_op hop rfl]
    exact ⟨rfl, rfl, rfl, rfl⟩
  | offsetExtended hop hreg hoff =>
    rw [cfiTurn_of_op hop rfl, execCfa]
    rw [onAddr_reg_bind (s := s.fetch) hreg (dwarfReadUleb128_of_ulebAt hoff)
      fun regnum val => Cfi.setReg (column regnum) .cfarel (val * dci.dataAlign)]
    exact ⟨rfl, rfl, rfl, rfl⟩
  | @restoreExtended reg w hop hreg =>
    rw [cfiTurn_of_op hop rfl, execCfa]
    rw [Act.bind_of_ok (cfi_onAddr_of_ok (s := s.fetch) (dwarfReadUleb128_of_ulebAt hreg)),
      restoreReg_eq (toNat_ofNat_regNum reg)]
    exact ⟨rfl, rfl, rfl, rfl⟩
  | undefined hop hreg =>
    rw [cfiTurn_of_op hop rfl, execCfa]
    rw [Act.bind_of_ok (cfi_onAddr_of_ok (s := s.fetch) (readRegnum_of_regAt hreg))]
    exact ⟨rfl, rfl, rfl, rfl⟩
  | sameValue hop hreg =>
    rw [cfiTurn_of_op hop rfl, execCfa]
    rw [Act.bind_of_ok (cfi_onAddr_of_ok (s := s.fetch) (readRegnum_of_regAt hreg))]
    exact ⟨rfl, rfl, rfl, rfl⟩
  | register hop hreg hval =>
    rw [cfiTurn_of_op hop rfl, execCfa]
    rw [onAddr_reg_bind (s := s.fetch) hreg (dwarfReadUleb128_of_ulebAt hval)
      fun regnum val => Cfi.setReg (column regnum) .reg val]
    exact ⟨rfl, rfl, rfl, rfl⟩
  | rememberState hop =>
    rw [cfiTurn_of_op hop rfl]
    exact ⟨rfl, rfl, rfl, rfl⟩
  | restoreState hop =>
    rw [cfiTurn_of_op hop rfl]
    -- an empty stack would be `-UNW_EINVAL`; the program is matched, so there is a row to pop
    obtain ⟨rs, rest, hrs⟩ := List.exists_cons_of_ne_nil (hstack rfl)
    rw [execCfa]
    rw [Act.get_bind]
    change Follows dci .restoreState (s.addr + 1) s
      ((match s.rsStack with
        | [] => Act.fail .einval
        | rs :: rsStack => do
          Cfi.setRow fun _ => rs
          Act.modify fun s => { s with rsStack := rsStack, pool := s.pool.free } : Cfi Unit) s.fetch)
    rw [hrs]
    refine ⟨rfl, rfl, ?_, rfl⟩
    unfold CfiState.row CfaInstr.rule
    rw [hrs]
    rfl
  | defCfa hop hreg hoff =>
    rw [cfiTurn_of_op hop rfl, execCfa]
    rw [onAddr_reg_bind (s := s.fetch) hreg (dwarfReadUleb128_of_ulebAt hoff) fun regnum val => do
      Cfi.setReg cfaRegColumn .reg (BitVec.ofNat 64 regnum)
      Cfi.setReg cfaOffColumn .undefined val]
    exact ⟨rfl, rfl, rfl, rfl⟩
  | defCfaRegister hop hreg =>
    rw [cfiTurn_of_op hop rfl, execCfa]
    rw [Act.bind_of_ok (cfi_onAddr_of_ok (s := s.fetch) (readRegnum_of_regAt hreg))]
    exact ⟨rfl, rfl, rfl, rfl⟩
  | defCfaOffset hop hoff =>
    rw [cfiTurn_of_op hop rfl, execCfa]
    rw [Act.bind_of_ok (cfi_onAddr_of_ok (s := s.fetch) (dwarfReadUleb128_of_ulebAt hoff))]
    exact ⟨rfl, rfl, rfl, rfl⟩
  | defCfaExpression hop hblock =>
    rw [cfiTurn_of_op hop rfl, execCfa]
    rw [setReg_block_eq (s := s.fetch) cfaRegColumn hblock]
    exact ⟨rfl, rfl, rfl, rfl⟩
  | @expression reg w b hop hreg hblock =>
    rw [cfiTurn_of_op hop rfl, execCfa]
    rw [Act.bind_of_ok (cfi_onAddr_of_ok (s := s.fetch) (readRegnum_of_regAt hreg)),
      setReg_block_eq (s := ⟨s.fetch.currIp, past s.fetch.addr w, s.fetch.sr, s.fetch.rsStack,
        s.fetch.pool, s.fetch.fetched⟩) (column reg) hblock]
    exact ⟨rfl, rfl, rfl, rfl⟩
  | offsetExtendedSf hop hreg hoff =>
    rw [cfiTurn_of_op hop rfl, execCfa]
    rw [onAddr_reg_bind (s := s.fetch) hreg (dwarfReadSleb128_of_slebAt hoff)
      fun regnum val => Cfi.setReg (column regnum) .cfarel (val * dci.dataAlign)]
    exact ⟨rfl, rfl, rfl, rfl⟩
  | defCfaSf hop hreg hoff =>
    rw [cfiTurn_of_op hop rfl, execCfa]
    rw [onAddr_reg_bind (s := s.fetch) hreg (dwarfReadSleb128_of_slebAt hoff) fun regnum val => do
      Cfi.setReg cfaRegColumn .reg (BitVec.ofNat 64 regnum)
      Cfi.setReg cfaOffColumn .undefined (val * dci.dataAlign)]
    exact ⟨rfl, rfl, rfl, rfl⟩
  | defCfaOffsetSf hop hoff =>
    rw [cfiTurn_of_op hop rfl, execCfa]
    rw [Act.bind_of_ok (cfi_onAddr_of_ok (s := s.fetch) (dwarfReadSleb128_of_slebAt hoff))]
    exact ⟨rfl, rfl, rfl, rfl⟩
  | gnuArgsSize hop hval =>
    rw [cfiTurn_of_op hop rfl, execCfa]
    rw [Act.bind_of_ok (cfi_onAddr_of_ok (s := s.fetch) (dwarfReadUleb128_of_ulebAt hval))]
    exact ⟨rfl, rfl, rfl, rfl⟩
  | gnuNegativeOffsetExtended hop hreg hoff =>
    rw [cfiTurn_of_op hop rfl, execCfa]
    rw [onAddr_reg_bind (s := s.fetch) hreg (dwarfReadUleb128_of_ulebAt hoff)
      fun regnum val => Cfi.setReg (column regnum) .cfarel (-(val * dci.dataAlign))]
    exact ⟨rfl, rfl, rfl, rfl⟩

end Turn

/-! ### The whole run -/

section Run

variable {m : Mem} {pi : ProcInfo} {dci : CieInfo} {a e ip : Word} {prog : List CfaInstr}

theorem ProgramAt.le (h : ProgramAt m pi dci e a prog) : a ≤ e := by
  induction h with
  | nil => exact BitVec.le_refl e
  | cons _ hlt _ ih => exact BitVec.le_trans (BitVec.le_of_lt hlt) ih

/-- What an instruction leaves of a matched program is matched at the new depth. -/
theorem Matched.tail {i : CfaInstr} {r : Row} {rsInitial : RegState}
    (h : Matched r.stack.length (i :: prog)) :
    (i = .restoreState → r.stack ≠ []) ∧
      Matched (i.rule dci rsInitial r).stack.length prog := by
  cases i with
  | rememberState => exact ⟨nofun, h⟩
  | restoreState =>
    obtain ⟨hpos, hrest⟩ := h
    obtain ⟨rs, rest, hrs⟩ := List.exists_cons_of_ne_nil (List.ne_nil_of_length_pos hpos)
    refine ⟨fun _ => List.ne_nil_of_length_pos hpos, ?_⟩
    rw [hrs] at hrest
    rw [CfaInstr.rule, hrs]
    exact hrest
  | _ => exact ⟨nofun, h⟩

/-- **The loop.** The induction is over the instructions of the program. -/
theorem cfiLoop_of_programAt (h : ProgramAt m pi dci e a prog) :
    ∀ (fuel : ℕ) (s : CfiState), prog.length < fuel → s.addr = a →
      Matched s.rsStack.length prog →
      (∀ i ∈ executed dci s.sr.rsInitial ip s.row prog, ¬i.Misread dci) →
      (cfiLoop m pi dci fuel ip e s).1 = .ok () ∧
        (cfiLoop m pi dci fuel ip e s).2.row = rowAt dci s.sr.rsInitial ip s.row prog := by
  unfold cfiLoop
  induction h with
  | nil =>
    -- the end of the program stops the loop
    intro fuel s hfuel hs _ _
    obtain ⟨fuel, rfl⟩ := Nat.exists_eq_succ_of_ne_zero (Nat.ne_of_gt hfuel)
    have hstop : cfiGoesOn ip e s = false := by
      unfold cfiGoesOn
      rw [hs, decide_eq_false (BitVec.lt_irrefl e), Bool.and_false]
    rw [Act.loop_succ_of_not fuel hstop]
    exact ⟨rfl, rfl⟩
  | @cons a b i prog hinstr hlt hrest ih =>
    intro fuel s hfuel hs hmatched hread
    obtain ⟨fuel, rfl⟩ := Nat.exists_eq_succ_of_ne_zero (Nat.ne_of_gt (Nat.zero_lt_of_lt hfuel))
    have hae : s.addr < e := by
      rw [hs]
      exact BitVec.lt_def.mpr (Nat.lt_of_lt_of_le (BitVec.lt_def.mp hlt) (BitVec.le_def.mp hrest.le))
    by_cases hloc : s.currIp ≤ ip
    · -- `curr_ip ≤ ip`: the instruction is executed
      have hgo : cfiGoesOn ip e s = true := by
        unfold cfiGoesOn
        rw [decide_eq_true hloc, decide_eq_true hae]
        rfl
      have hexec : executed dci s.sr.rsInitial ip s.row (i :: prog) =
          i :: executed dci s.sr.rsInitial ip (i.rule dci s.sr.rsInitial s.row) prog :=
        if_pos hloc
      rw [hexec] at hread
      obtain ⟨hstack, hmatched'⟩ := Matched.tail (r := s.row) hmatched
      have hturn := cfiTurn_of_instrAt (hs ▸ hinstr) (hread i List.mem_cons_self) hstack
      rcases hrun : cfiTurn m pi dci s with ⟨res, t⟩
      rw [hrun] at hturn
      obtain ⟨hok, haddr, hrow, hinit⟩ := hturn
      have hres : res = .ok () := hok
      subst hres
      have haddr' : t.addr = b := haddr
      have hrow' : t.row = i.rule dci s.sr.rsInitial s.row := hrow
      have hinit' : t.sr.rsInitial = s.sr.rsInitial := hinit
      rw [Act.loop_succ_of fuel hgo, Act.bind_of_ok hrun]
      -- the rest of the program is executed from the row of this instruction
      have hrest' := ih fuel t (Nat.lt_of_succ_lt_succ hfuel) haddr'
        (by
          have hdepth := congrArg (fun r => r.stack.length) hrow'
          change t.rsStack.length = _ at hdepth
          rw [hdepth]
          exact hmatched')
        (by
          rw [hinit', hrow']
          exact fun j hj => hread j (List.mem_cons_of_mem _ hj))
      refine ⟨hrest'.1, hrest'.2.trans ?_⟩
      unfold rowAt
      rw [hexec, hinit', hrow']
      rfl
    · -- the row for `ip` is complete, and the rest of the program is left alone
      have hstop : cfiGoesOn ip e s = false := by
        unfold cfiGoesOn
        rw [decide_eq_false hloc]
        rfl
      have hexec : executed dci s.sr.rsInitial ip s.row (i :: prog) = [] := if_neg hloc
      rw [Act.loop_succ_of_not fuel hstop]
      refine ⟨rfl, ?_⟩
      unfold rowAt
      rw [hexec]
      rfl

/-- **`run_cfi_program` computes the row at an address**, if no `set_loc` on the way there is
misread. -/
theorem runCfiProgram_row (h : ProgramAt m pi dci e a prog) (hmatched : Matched 0 prog)
    (st : RowState) (ip : Word)
    (hread : ∀ i ∈ executed dci st.sr.rsInitial ip ⟨pi.startIp, st.sr.rsCurrent, []⟩ prog,
      ¬i.Misread dci)
    (fuel : ℕ) (hfuel : prog.length < fuel) :
    (runCfiProgram m pi dci fuel ip a e st).1 = .ok () ∧
      (runCfiProgram m pi dci fuel ip a e st).2.sr.rsCurrent =
        (rowAt dci st.sr.rsInitial ip ⟨pi.startIp, st.sr.rsCurrent, []⟩ prog).regs := by
  obtain ⟨hok, hrow⟩ := cfiLoop_of_programAt h fuel (CfiState.init pi a st) hfuel rfl hmatched hread
  exact ⟨hok, congrArg Row.regs hrow⟩

end Run

/-- The instructions `set_loc` and `def_cfa_offset 16` at `0x9000`, with this operand. -/
def setLocMem (operand : Byte) : Mem := fun a =>
  ([0x01, operand, 0x0e, 0x10] : List Byte).getD (a - 0x9000).toNat 0

/-- Code pointers that are signed LEB128 numbers, relative to their own address. -/
def slebPcrelCie : CieInfo := { CieInfo.zero with fdeEncoding := 0x19, codeAlign := 1, dataAlign := -8 }

/-- A procedure that starts at `0x8fe0`. -/
def setLocPi : ProcInfo := { ProcInfo.zero with startIp := 0x8fe0, endIp := 0x9100 }

/-- Rows in which every column is 8. -/
def setLocRows : RowState := ⟨⟨0, fun _ => ⟨.undefined, 8⟩, fun _ => ⟨.undefined, 8⟩⟩, ⟨0, 0⟩, []⟩

theorem setLoc_programAt {operand : Byte} {loc raw : Word}
    (hraw : SlebAt (setLocMem operand) 0x9001 raw 1)
    (hne : raw ≠ 0) (hloc : loc = raw + 0x9001) :
    ProgramAt (setLocMem operand) setLocPi slebPcrelCie 0x9004 0x9000
      [.setLoc loc raw 1, .defCfaOffset 16] := by
  have hptr : PtrAt (setLocMem operand) setLocPi ⟨.sleb128, .pcrel, false⟩ 0x9001 raw loc 1 := by
    refine ⟨.sleb128 hraw, ?_⟩
    unfold ptrValue
    rw [if_neg hne, if_neg Bool.false_ne_true]
    exact hloc
  have hoff : UlebAt (setLocMem operand) (0x9002 + 1) 16 1 :=
    ⟨[0x10], ⟨0x10, .last 0x10 (by decide)⟩, rfl, by decide, rfl, trivial⟩
  have hdef : InstrAt (setLocMem operand) setLocPi slebPcrelCie 0x9002 (.defCfaOffset 16)
      (past (0x9002 + 1) 1) := .defCfaOffset rfl hoff
  have hset : InstrAt (setLocMem operand) setLocPi slebPcrelCie 0x9000 (.setLoc loc raw 1)
      (past (0x9000 + 1) 1) := .setLoc rfl (by decide) hptr
  exact .cons hset (by decide) (.cons hdef (by decide) .nil)

/-- A positive operand: the location is `0x9010`, and the row at `0x9018` is found. -/
theorem runCfiProgram_row_positive :
    (runCfiProgram (setLocMem 0x0f) setLocPi slebPcrelCie 3 0x9018 0x9000 0x9004 setLocRows).1 =
        .ok () ∧
      (runCfiProgram (setLocMem 0x0f) setLocPi slebPcrelCie 3 0x9018 0x9000 0x9004
          setLocRows).2.sr.rsCurrent =
        (rowAt slebPcrelCie setLocRows.sr.rsInitial 0x9018 ⟨0x8fe0, setLocRows.sr.rsCurrent, []⟩
          [.setLoc 0x9010 15 1, .defCfaOffset 16]).regs := by
  have hraw : SlebAt (setLocMem 0x0f) 0x9001 15 1 :=
    ⟨[0x0f], ⟨_, _, .last 0x0f (by decide), by decide⟩, rfl, by decide, rfl, trivial⟩
  refine runCfiProgram_row (setLoc_programAt hraw (by decide) (by decide)) trivial setLocRows 0x9018
    ?_ 3 (by decide)
  intro i hi
  have hexec : executed slebPcrelCie setLocRows.sr.rsInitial 0x9018
      ⟨setLocPi.startIp, setLocRows.sr.rsCurrent, []⟩ [.setLoc 0x9010 15 1, .defCfaOffset 16] =
      [.setLoc 0x9010 15 1, .defCfaOffset 16] := by decide +kernel
  rw [hexec] at hi
  obtain rfl | hi := List.mem_cons.mp hi
  · exact fun h => absurd h.2.1 (by decide)
  · rw [List.mem_singleton.mp hi]
    exact nofun

/-- The operand -17: the location is `0x8ff0`, and `def_cfa_offset` is in effect at `0x8ff8`.
The source reads 111, takes the location past the address, and leaves `def_cfa_offset`
out. -/
theorem runCfiProgram_negative_set_loc :
    ProgramAt (setLocMem 0x6f) setLocPi slebPcrelCie 0x9004 0x9000
        [.setLoc 0x8ff0 (-17) 1, .defCfaOffset 16] ∧
      Matched 0 [.setLoc 0x8ff0 (-17) 1, .defCfaOffset 16] ∧
      (runCfiProgram (setLocMem 0x6f) setLocPi slebPcrelCie 3 0x8ff8 0x9000 0x9004
          setLocRows).2.sr.rsCurrent ≠
        (rowAt slebPcrelCie setLocRows.sr.rsInitial 0x8ff8
          ⟨setLocPi.startIp, setLocRows.sr.rsCurrent, []⟩
          [.setLoc 0x8ff0 (-17) 1, .defCfaOffset 16]).regs := by
  have hraw : SlebAt (setLocMem 0x6f) 0x9001 (-17) 1 :=
    ⟨[0x6f], ⟨_, _, .last 0x6f (by decide), by decide⟩, rfl, by decide, rfl, trivial⟩
  refine ⟨setLoc_programAt hraw (by decide) (by decide), trivial, fun heq => ?_⟩
  have hrun : ((runCfiProgram (setLocMem 0x6f) setLocPi slebPcrelCie 3 0x8ff8 0x9000 0x9004
      setLocRows).2.sr.rsCurrent cfaOffColumn).val = 8 := by decide +kernel
  have hrow : ((rowAt slebPcrelCie setLocRows.sr.rsInitial 0x8ff8
      ⟨setLocPi.startIp, setLocRows.sr.rsCurrent, []⟩
      [.setLoc 0x8ff0 (-17) 1, .defCfaOffset 16]).regs cfaOffColumn).val = 16 := by decide +kernel
  rw [heq, hrow] at hrun
  exact absurd hrun (by decide)

end LibunwindKern
