import LibunwindKern.Lib.Commands
import LibunwindKern.Dwarf.Cfi

/-!
# Call-frame instructions as commands

What `run_cfi_program` does while it executes an instruction: the reads of operands, and the accesses
to the register table of the state record. `cfaProgram` is the `switch` over the opcode as a program
of these commands, and `cfaProgram_run` says that it does what the interpreter does.

In `execCfa` a column is an element of a finite type, so that an access outside of the table cannot
be written down. Here an index is the word that the source has. An access outside of the table is
undefined, and it is the program that checks the operand first.

* `cfiCalls` lists the commands of a turn, each with the state in which it is executed.
-/

namespace LibunwindKern

open CProg ByteMem

/-- What an instruction is made of. -/
inductive CfiCmd : Type → Type where
  | u8 : CfiCmd Byte
  | u16 : CfiCmd (BitVec 16)
  | u32 : CfiCmd (BitVec 32)
  | uleb : CfiCmd Word
  | sleb : CfiCmd Word
  /-- `dwarf_read_encoded_pointer`. -/
  | pointer : CfiCmd Word
  /-- The value of the address variable. -/
  | getAddr : CfiCmd Word
  /-- `*addr += len`. -/
  | skip (len : Word) : CfiCmd Unit
  /-- An assignment to `sr->rs_current.reg[regnum]`. -/
  | setReg (regnum : Word) (whereSaved : Where) (val : Word) : CfiCmd Unit
  /-- A read of `sr->rs_initial.reg[regnum]`. -/
  | initialReg (regnum : Word) : CfiCmd SaveLoc
  | advance (delta : Word) : CfiCmd Unit
  | setLoc (ip : Word) : CfiCmd Unit
  | argsSize (val : Word) : CfiCmd Unit
  | remember : CfiCmd Unit
  /-- Copy the whole table back from the stack of rows. -/
  | popRow : CfiCmd Unit
  | fail (e : UnwError) : CfiCmd Unit

/-- Execute a command. -/
def execCfiCmd (m : Mem) (pi : ProcInfo) (dci : CieInfo) : {β : Type} → CfiCmd β → Cfi β
  | _, .u8 => Cfi.onAddr (dwarfReadu8 m)
  | _, .u16 => Cfi.onAddr (dwarfReadu16 m)
  | _, .u32 => Cfi.onAddr (dwarfReadu32 m)
  | _, .uleb => Cfi.onAddr (dwarfReadUleb128 m)
  | _, .sleb => Cfi.onAddr (dwarfReadSleb128 m)
  | _, .pointer => Cfi.onAddr (dwarfReadEncodedPointer m dci.fdeEncoding pi)
  | _, .getAddr => fun s => (.ok s.addr, s)
  | _, .skip len => Act.modify fun s => { s with addr := s.addr + len }
  | _, .setReg regnum whereSaved val =>
    if h : regnum.toNat < dwarfNumPreservedRegs + 2 then Cfi.setReg ⟨_, h⟩ whereSaved val
    else Act.lift .undefined
  | _, .initialReg regnum => fun s =>
    if h : regnum.toNat < dwarfNumPreservedRegs + 2 then (.ok (s.sr.rsInitial ⟨_, h⟩), s)
    else (.undefined, s)
  | _, .advance delta => Cfi.advance delta
  | _, .setLoc ip => Act.modify fun s => { s with currIp := ip }
  | _, .argsSize val => Act.modify fun s => { s with sr := { s.sr with argsSize := val } }
  | _, .remember =>
    Act.modify fun s => { s with rsStack := s.sr.rsCurrent :: s.rsStack, pool := s.pool.alloc }
  | _, .popRow => do
    let s ← Act.get
    match s.rsStack with
    | [] => Act.fail .einval
    | rs :: rsStack => do
      Cfi.setRow fun _ => rs
      Act.modify fun s => { s with rsStack := rsStack, pool := s.pool.free }
  | _, .fail e => Act.fail e

/-! ### The instructions -/

section Programs

open Prog

/-- A program of the interpreter. -/
abbrev CfiProg (α : Type) : Type 1 := Prog CfiCmd α

/-- Go on with a register number, or fail. -/
def checkRegnum (regnum : Word) (e : UnwError) (next : CfiProg Unit) : CfiProg Unit :=
  if regnum.toNat < dwarfNumPreservedRegs then next else cmd (.fail e)

/-- `read_regnum`, with what comes after it. -/
def onRegnum (next : Word → CfiProg Unit) : CfiProg Unit := do
  let regnum ← cmd .uleb
  checkRegnum regnum .ebadreg (next regnum)

/-- Give a register the rule of the initial row. -/
def restoreProgram (regnum : Word) : CfiProg Unit :=
  checkRegnum regnum .einval do
    let loc ← cmd (.initialReg regnum)
    cmd (.setReg regnum loc.whereSaved loc.val)

/-- Save the address of a block, and skip it. -/
def blockProgram (regnum : Word) : CfiProg Unit := do
  let addr ← cmd .getAddr
  cmd (.setReg regnum .expr addr)
  let len ← cmd .uleb
  cmd (.skip len)

/-- The columns of the CFA, as the source indexes the table with them. -/
abbrev cfaRegIndex : Word := 17
abbrev cfaOffIndex : Word := 18

/-- The `switch` over the opcode. -/
def cfaProgram (dci : CieInfo) : DwCfa → CfiProg Unit
  | .advanceLoc delta => cmd (.advance (delta.setWidth 64 * dci.codeAlign))
  | .advanceLoc1 => do
    let u8 ← cmd .u8
    cmd (.advance (u8.setWidth 64 * dci.codeAlign))
  | .advanceLoc2 => do
    let u16 ← cmd .u16
    cmd (.advance (u16.setWidth 64 * dci.codeAlign))
  | .advanceLoc4 => do
    let u32 ← cmd .u32
    cmd (.advance (u32.setWidth 64 * dci.codeAlign))
  | .offset reg =>
    checkRegnum (reg.setWidth 64) .ebadreg do
      let val ← cmd .uleb
      cmd (.setReg (reg.setWidth 64) .cfarel (val * dci.dataAlign))
  | .offsetExtended => onRegnum fun regnum => do
    let val ← cmd .uleb
    cmd (.setReg regnum .cfarel (val * dci.dataAlign))
  | .offsetExtendedSf => onRegnum fun regnum => do
    let val ← cmd .sleb
    cmd (.setReg regnum .cfarel (val * dci.dataAlign))
  | .restore reg => restoreProgram (reg.setWidth 64)
  | .restoreExtended => do
    let regnum ← cmd .uleb
    restoreProgram regnum
  | .nop => pure ()
  | .setLoc => do
    let ip ← cmd .pointer
    cmd (.setLoc ip)
  | .undefined => onRegnum fun regnum => cmd (.setReg regnum .undefined 0)
  | .sameValue => onRegnum fun regnum => cmd (.setReg regnum .same 0)
  | .register => onRegnum fun regnum => do
    let val ← cmd .uleb
    cmd (.setReg regnum .reg val)
  | .rememberState => cmd .remember
  | .restoreState => cmd .popRow
  | .defCfa => onRegnum fun regnum => do
    let val ← cmd .uleb
    cmd (.setReg cfaRegIndex .reg regnum)
    cmd (.setReg cfaOffIndex .undefined val)
  | .defCfaSf => onRegnum fun regnum => do
    let val ← cmd .sleb
    cmd (.setReg cfaRegIndex .reg regnum)
    cmd (.setReg cfaOffIndex .undefined (val * dci.dataAlign))
  | .defCfaRegister => onRegnum fun regnum => cmd (.setReg cfaRegIndex .reg regnum)
  | .defCfaOffset => do
    let val ← cmd .uleb
    cmd (.setReg cfaOffIndex .undefined val)
  | .defCfaOffsetSf => do
    let val ← cmd .sleb
    cmd (.setReg cfaOffIndex .undefined (val * dci.dataAlign))
  | .defCfaExpression => blockProgram cfaRegIndex
  | .expression => onRegnum blockProgram
  | .gnuArgsSize => do
    let val ← cmd .uleb
    cmd (.argsSize val)
  | .gnuNegativeOffsetExtended => onRegnum fun regnum => do
    let val ← cmd .uleb
    cmd (.setReg regnum .cfarel (-(val * dci.dataAlign)))
  | .mipsAdvanceLoc8 => cmd (.fail .einval)
  | .gnuWindowSave => cmd (.fail .einval)
  | .loUser => cmd (.fail .einval)
  | .hiUser => cmd (.fail .einval)

end Programs

/-! ### The programs are the instructions -/

section Run

variable (m : Mem) (pi : ProcInfo) (dci : CieInfo)

/-- An index that passed the check is the column of the register. -/
theorem execCfiCmd_setReg {regnum : Word} (h : regnum.toNat < dwarfNumPreservedRegs) (w : Where)
    (val : Word) :
    execCfiCmd m pi dci (.setReg regnum w val) = Cfi.setReg (column ⟨_, h⟩) w val :=
  dif_pos (Nat.lt_of_lt_of_le h (by decide))

/-- `read_regnum` with its check. -/
theorem run_onRegnum {next : Word → CfiProg Unit} {f : Fin dwarfNumPreservedRegs → Cfi Unit}
    (h : ∀ (regnum : Word) (hlt : regnum.toNat < dwarfNumPreservedRegs),
      (next regnum).run (execCfiCmd m pi dci) = f ⟨_, hlt⟩) :
    (onRegnum next).run (execCfiCmd m pi dci) = (Cfi.onAddr (readRegnum m) >>= f) := by
  funext s
  show (Cfi.onAddr (dwarfReadUleb128 m) >>= fun regnum =>
    (checkRegnum regnum .ebadreg (next regnum)).run (execCfiCmd m pi dci)) s = _
  rcases hread : dwarfReadUleb128 m s.addr with ⟨r, b⟩
  have hzoom : Cfi.onAddr (dwarfReadUleb128 m) s = (r, { s with addr := b }) := by
    show ((dwarfReadUleb128 m s.addr).1, { s with addr := (dwarfReadUleb128 m s.addr).2 }) = _
    rw [hread]
  have hregnum : ∀ {q : Res UnwError (Fin dwarfNumPreservedRegs)}, readRegnum m s.addr = (q, b) →
      Cfi.onAddr (readRegnum m) s = (q, { s with addr := b }) := by
    intro q hq
    show ((readRegnum m s.addr).1, { s with addr := (readRegnum m s.addr).2 }) = _
    rw [hq]
  obtain ⟨regnum, rfl⟩ | hr := r.ok_or_ne
  · rw [Act.bind_of_ok hzoom]
    unfold checkRegnum
    by_cases hlt : regnum.toNat < dwarfNumPreservedRegs
    · have hok : readRegnum m s.addr = (.ok ⟨_, hlt⟩, b) := by
        unfold readRegnum
        rw [Act.bind_of_ok hread, dif_pos hlt, Act.pure_apply]
      rw [if_pos hlt, h regnum hlt, Act.bind_of_ok (hregnum hok)]
    · have herr : readRegnum m s.addr = (.err .ebadreg, b) := by
        unfold readRegnum
        rw [Act.bind_of_ok hread, dif_neg hlt, Act.fail_apply]
      rw [if_neg hlt, Prog.run_single, Act.bind_of_err (hregnum herr)]
      rfl
  · have hstop := hregnum (Act.bind_of_not_ok hread hr _)
    rw [Act.bind_of_not_ok hzoom hr, Act.bind_of_not_ok hstop (Res.bind_ne_ok hr _),
      Res.bind_bind_of_not_ok hr]

theorem run_restoreProgram (regnum : Word) :
    (restoreProgram regnum).run (execCfiCmd m pi dci) = Cfi.restoreReg regnum := by
  funext s
  unfold restoreProgram checkRegnum Cfi.restoreReg
  rw [Act.get_bind]
  by_cases hlt : regnum.toNat < dwarfNumPreservedRegs
  · rw [if_pos hlt, dif_pos hlt]
    have hread : execCfiCmd m pi dci (.initialReg regnum) s =
        (.ok (s.sr.rsInitial (column ⟨_, hlt⟩)), s) :=
      dif_pos (Nat.lt_of_lt_of_le hlt (by decide))
    show (execCfiCmd m pi dci (.initialReg regnum) >>= fun loc =>
      (Prog.cmd (.setReg regnum loc.whereSaved loc.val)).run (execCfiCmd m pi dci)) s = _
    rw [Act.bind_of_ok hread, Prog.run_single, execCfiCmd_setReg m pi dci hlt]
    rfl
  · rw [if_neg hlt, dif_neg hlt, Prog.run_single]
    rfl

/-- The word of a register number that passed the check. -/
theorem ofNat_regnum {regnum : Word} (h : regnum.toNat < dwarfNumPreservedRegs) :
    BitVec.ofNat 64 (⟨regnum.toNat, h⟩ : Fin dwarfNumPreservedRegs).val = regnum := by
  show BitVec.ofNat 64 regnum.toNat = regnum
  rw [BitVec.ofNat_toNat, BitVec.setWidth_eq]

/-- **The programs do what the interpreter does.** -/
theorem cfaProgram_run (op : DwCfa) :
    (cfaProgram dci op).run (execCfiCmd m pi dci) = execCfa m pi dci op := by
  cases op
  case offset reg =>
    have hreg : (reg.setWidth 64).toNat = reg.toNat := BitVec.toNat_setWidth_of_le (by decide)
    simp only [cfaProgram, execCfa, checkRegnum, hreg]
    by_cases hlt : reg.toNat < dwarfNumPreservedRegs
    · have hcol : ∀ val, execCfiCmd m pi dci (.setReg (reg.setWidth 64) .cfarel val) =
          Cfi.setReg (column ⟨_, hlt⟩) .cfarel val := by
        intro val
        rw [execCfiCmd_setReg m pi dci (by rwa [hreg])]
        congr 2
      rw [if_pos hlt, dif_pos hlt]
      simp only [Prog.run_call, Prog.run_single, hcol]
      rfl
    · rw [if_neg hlt, dif_neg hlt, Prog.run_single]
      rfl
  case restore reg => exact run_restoreProgram m pi dci _
  case restoreExtended =>
    simp only [cfaProgram, Prog.run_call, run_restoreProgram]
    rfl
  case undefined =>
    exact run_onRegnum m pi dci fun regnum hlt => by
      rw [Prog.run_single, execCfiCmd_setReg m pi dci hlt]
  case sameValue =>
    exact run_onRegnum m pi dci fun regnum hlt => by
      rw [Prog.run_single, execCfiCmd_setReg m pi dci hlt]
  case defCfaRegister =>
    exact run_onRegnum m pi dci fun regnum hlt => by
      rw [Prog.run_single, ofNat_regnum hlt]
      rfl
  case defCfa =>
    refine run_onRegnum m pi dci fun regnum hlt => ?_
    simp only [Prog.run_call, Prog.run_single, ofNat_regnum hlt]
    rfl
  case defCfaSf =>
    refine run_onRegnum m pi dci fun regnum hlt => ?_
    simp only [Prog.run_call, Prog.run_single, ofNat_regnum hlt]
    rfl
  case expression =>
    refine run_onRegnum m pi dci fun regnum hlt => ?_
    simp only [blockProgram, Prog.run_call, Prog.run_single, execCfiCmd_setReg m pi dci hlt]
    rfl
  -- the other instructions with a column read a value, and store it there
  all_goals first
    | rfl
    | exact Prog.run_single _
    | (refine run_onRegnum m pi dci fun regnum hlt => ?_
       simp only [Prog.run_call, Prog.run_single, execCfiCmd_setReg m pi dci hlt]
       rfl)

end Run

/-! ### The commands of an instruction -/

/-- What comes after a check has a register number. -/
theorem every_checkRegnum {P : {β : Type} → CfiCmd β → Prop} {regnum : Word} {e : UnwError}
    {next : CfiProg Unit} (hfail : P (.fail e))
    (hnext : regnum.toNat < dwarfNumPreservedRegs → next.Every P) :
    (checkRegnum regnum e next).Every P := by
  unfold checkRegnum
  split
  · next h => exact hnext h
  · exact (Prog.every_cmd _).2 hfail

theorem every_onRegnum {P : {β : Type} → CfiCmd β → Prop} {next : Word → CfiProg Unit}
    (huleb : P .uleb) (hfail : ∀ e, P (.fail e))
    (hnext : ∀ regnum : Word, regnum.toNat < dwarfNumPreservedRegs → (next regnum).Every P) :
    (onRegnum next).Every P :=
  ⟨huleb, fun regnum => every_checkRegnum (hfail _) (hnext regnum)⟩

/-- What an instruction does to the table. It changes the columns of registers, and the two of the
CFA. The base of the CFA is a register or an expression. -/
def Issued : {β : Type} → CfiCmd β → Prop
  | _, .setReg regnum whereSaved val =>
    regnum.toNat < dwarfNumPreservedRegs ∨
      regnum = cfaRegIndex ∧
        (whereSaved = .expr ∨ whereSaved = .reg ∧ val.toNat < dwarfNumPreservedRegs) ∨
      regnum = cfaOffIndex
  | _, .initialReg regnum => regnum.toNat < dwarfNumPreservedRegs
  | _, _ => True

/-- **The commands of an instruction**, case by case. -/
theorem cfaProgram_issued (dci : CieInfo) (op : DwCfa) : (cfaProgram dci op).Every Issued := by
  have hset : ∀ {regnum : Word} {w : Where} {val : Word}, regnum.toNat < dwarfNumPreservedRegs →
      (Prog.cmd (.setReg regnum w val) : CfiProg Unit).Every Issued :=
    fun h => (Prog.every_cmd _).2 (Or.inl h)
  have hbase : ∀ {val : Word}, val.toNat < dwarfNumPreservedRegs →
      Issued (.setReg cfaRegIndex .reg val) := fun h => Or.inr (Or.inl ⟨rfl, Or.inr ⟨rfl, h⟩⟩)
  have hoff : ∀ {w : Where} {val : Word},
      (Prog.cmd (.setReg cfaOffIndex w val) : CfiProg Unit).Every Issued :=
    (Prog.every_cmd _).2 (Or.inr (Or.inr rfl))
  have hon : ∀ {next : Word → CfiProg Unit},
      (∀ regnum : Word, regnum.toNat < dwarfNumPreservedRegs → (next regnum).Every Issued) →
      (onRegnum next).Every Issued := every_onRegnum trivial fun _ => trivial
  -- a value is read, and stored in the column
  have huleb : ∀ {regnum : Word} {w : Where} {f : Word → Word},
      regnum.toNat < dwarfNumPreservedRegs →
      (Prog.cmd .uleb >>= fun val => Prog.cmd (.setReg regnum w (f val)) : CfiProg Unit).Every
        Issued := fun h => ⟨trivial, fun _ => hset h⟩
  have hsleb : ∀ {regnum : Word} {w : Where} {f : Word → Word},
      regnum.toNat < dwarfNumPreservedRegs →
      (Prog.cmd .sleb >>= fun val => Prog.cmd (.setReg regnum w (f val)) : CfiProg Unit).Every
        Issued := fun h => ⟨trivial, fun _ => hset h⟩
  have hrestore : ∀ regnum, (restoreProgram regnum).Every Issued :=
    fun regnum => every_checkRegnum trivial fun h => ⟨h, fun _ => hset h⟩
  have hblock : ∀ {regnum : Word}, (∀ addr, Issued (.setReg regnum .expr addr)) →
      (blockProgram regnum).Every Issued :=
    fun h => ⟨trivial, fun addr => ⟨h addr, fun _ => ⟨trivial, fun _ =>
      (Prog.every_cmd _).2 trivial⟩⟩⟩
  cases op with
  | offset reg => exact every_checkRegnum trivial huleb
  | restore reg => exact hrestore _
  | nop => exact Prog.every_pure _
  | setLoc => exact ⟨trivial, fun _ => (Prog.every_cmd _).2 trivial⟩
  | advanceLoc1 => exact ⟨trivial, fun _ => (Prog.every_cmd _).2 trivial⟩
  | advanceLoc2 => exact ⟨trivial, fun _ => (Prog.every_cmd _).2 trivial⟩
  | advanceLoc4 => exact ⟨trivial, fun _ => (Prog.every_cmd _).2 trivial⟩
  | offsetExtended => exact hon fun _ => huleb
  | restoreExtended => exact ⟨trivial, hrestore⟩
  | undefined => exact hon fun _ => hset
  | sameValue => exact hon fun _ => hset
  | register => exact hon fun _ => huleb
  | defCfa => exact hon fun _ h => ⟨trivial, fun _ => ⟨hbase h, fun _ => hoff⟩⟩
  | defCfaRegister => exact hon fun _ h => (Prog.every_cmd _).2 (hbase h)
  | defCfaOffset => exact ⟨trivial, fun _ => hoff⟩
  | defCfaExpression => exact hblock fun _ => Or.inr (Or.inl ⟨rfl, Or.inl rfl⟩)
  | expression => exact hon fun _ h => hblock fun _ => Or.inl h
  | offsetExtendedSf => exact hon fun _ => hsleb
  | defCfaSf => exact hon fun _ h => ⟨trivial, fun _ => ⟨hbase h, fun _ => hoff⟩⟩
  | defCfaOffsetSf => exact ⟨trivial, fun _ => hoff⟩
  | gnuArgsSize => exact ⟨trivial, fun _ => (Prog.every_cmd _).2 trivial⟩
  | gnuNegativeOffsetExtended => exact hon fun _ => huleb
  | _ => exact (Prog.every_cmd _).2 trivial

/-! ### The commands of a turn -/

/-- The state behind the opcode of a turn. -/
def CfiState.pastOpcode (s : CfiState) : CfiState :=
  { s with addr := s.addr + 1, fetched := s.fetched ++ [s.addr] }

/-- A turn, once it has its opcode. -/
theorem cfiTurn_eq (m : Mem) (pi : ProcInfo) (dci : CieInfo) (s : CfiState) :
    cfiTurn m pi dci s =
      match DwCfa.ofByte (m s.addr) with
      | none => (.ok (), s.pastOpcode)
      | some op => (cfaProgram dci op).run (execCfiCmd m pi dci) s.pastOpcode := by
  have hfetch : Cfi.onAddr (dwarfReadu8 m) { s with fetched := s.fetched ++ [s.addr] } =
      (.ok (m s.addr), s.pastOpcode) := rfl
  unfold cfiTurn
  rw [Act.modify_bind, Act.bind_of_ok hfetch]
  cases DwCfa.ofByte (m s.addr) with
  | none => rfl
  | some op => exact (congrFun (cfaProgram_run m pi dci op) _).symm

/-- The commands of a turn. -/
def cfiCalls (m : Mem) (pi : ProcInfo) (dci : CieInfo) (s : CfiState) : List (Call CfiCmd CfiState) :=
  match DwCfa.ofByte (m s.addr) with
  | some op => (cfaProgram dci op).calls (execCfiCmd m pi dci) s.pastOpcode
  | none => []

end LibunwindKern
