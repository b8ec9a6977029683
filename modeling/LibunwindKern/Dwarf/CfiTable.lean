import LibunwindKern.Dwarf.CfiCommands

/-!
# The register table of a CFI program

A register number reaches `run_cfi_program` in the opcode itself, through `read_regnum`, or through a
read that is checked in place. The table has two columns more than there are registers, for the CFA,
and no check lets a number through that is not that of a register.

* `inTable_of_issued`: every access of an instruction is inside the table.
* `cfiTurn_refused`: an operand that is no register ends the turn before anything is written.
* `cfi_table_safe`: both, for every turn of every run.
-/

namespace LibunwindKern

open CProg ByteMem

/-- The entries of the register table that a command accesses: writes to the current row, and reads
of the initial one. -/
def tableIndices : {β : Type} → CfiCmd β → List ℕ
  | _, .setReg regnum _ _ => [regnum.toNat]
  | _, .initialReg regnum => [regnum.toNat]
  | _, .popRow => List.range (dwarfNumPreservedRegs + 2)
  | _, _ => []

/-- The command stays inside the table. -/
def InTable {β : Type} (cmd : CfiCmd β) : Prop :=
  ∀ i ∈ tableIndices cmd, i < dwarfNumPreservedRegs + 2

/-- **The accesses of an instruction** are inside of the table. -/
theorem inTable_of_issued {β : Type} {cmd : CfiCmd β} (h : Issued cmd) : InTable cmd := by
  have hwide : ∀ {n : ℕ}, n < dwarfNumPreservedRegs → n < dwarfNumPreservedRegs + 2 :=
    fun h => Nat.lt_of_lt_of_le h (by decide)
  intro i hi
  cases cmd with
  | setReg regnum w val =>
    rw [List.mem_singleton.1 hi]
    obtain hreg | ⟨rfl, -⟩ | rfl := h
    · exact hwide hreg
    · decide
    · decide
  | initialReg regnum =>
    rw [List.mem_singleton.1 hi]
    exact hwide h
  | popRow => exact List.mem_range.1 hi
  | _ => cases hi

/-! ### Operands that are refused -/

/-- The instruction names the column it changes, or the base register of the CFA, with an unsigned
LEB128 operand. -/
def DwCfa.readsColumn : DwCfa → Bool
  | .offsetExtended | .offsetExtendedSf | .restoreExtended | .undefined | .sameValue | .register
  | .defCfa | .defCfaSf | .defCfaRegister | .expression | .gnuNegativeOffsetExtended => true
  | _ => false

/-- The operand that names the column or the base register. It stands in the opcode, or at `a`
behind it. -/
def columnOperand (m : Mem) (op : DwCfa) (a : Word) : Option Word :=
  match op with
  | .offset reg => some (reg.setWidth 64)
  | .restore reg => some (reg.setWidth 64)
  | op =>
    if op.readsColumn then
      match dwarfReadUleb128 m a with
      | (.ok val, _) => some val
      | _ => none
    else none

section

variable {m : Mem} {pi : ProcInfo} {dci : CieInfo} {s : CfiState} {reg : Word}

/-- A check that fails ends the instruction. -/
theorem run_checkRegnum_refused {e : UnwError} {next : CfiProg Unit}
    (h : dwarfNumPreservedRegs ≤ reg.toNat) :
    (checkRegnum reg e next).run (execCfiCmd m pi dci) s = (.err e, s) := by
  unfold checkRegnum
  rw [if_neg (Nat.not_lt.2 h), Prog.run_single]
  rfl

/-- An instruction that reads the column reads it first, and checks it next. -/
theorem cfaProgram_readsColumn (dci : CieInfo) {op : DwCfa} (hop : op.readsColumn = true) :
    ∃ (e : UnwError) (next : Word → CfiProg Unit), cfaProgram dci op =
      (Prog.cmd .uleb >>= fun regnum => checkRegnum regnum e (next regnum)) := by
  cases op <;> first | exact ⟨_, _, rfl⟩ | cases hop

/-- Nothing is written before the check. -/
theorem cfaProgram_refused {op : DwCfa} (hreg : columnOperand m op s.addr = some reg)
    (h : dwarfNumPreservedRegs ≤ reg.toNat) :
    ∃ e t, (cfaProgram dci op).run (execCfiCmd m pi dci) s = (.err e, t) ∧ t.sr = s.sr := by
  have hread : op.readsColumn = true → columnOperand m op s.addr =
      (match dwarfReadUleb128 m s.addr with
        | (.ok val, _) => some val
        | _ => none) → ∃ e t, (cfaProgram dci op).run (execCfiCmd m pi dci) s = (.err e, t) ∧
          t.sr = s.sr := by
    intro hop hcolumn
    obtain ⟨e, next, hprog⟩ := cfaProgram_readsColumn dci hop
    rw [hcolumn] at hreg
    rcases hleb : dwarfReadUleb128 m s.addr with ⟨r, b⟩
    rw [hleb] at hreg
    cases r with
    | ok val =>
      cases hreg
      have hzoom : execCfiCmd m pi dci .uleb s = (.ok reg, { s with addr := b }) := by
        show ((dwarfReadUleb128 m s.addr).1, { s with addr := (dwarfReadUleb128 m s.addr).2 }) = _
        rw [hleb]
      refine ⟨e, { s with addr := b }, ?_, rfl⟩
      rw [hprog, Prog.run_call, Act.bind_of_ok hzoom, run_checkRegnum_refused h]
    | _ => cases hreg
  cases op
  case offset packed =>
    cases hreg
    exact ⟨_, s, run_checkRegnum_refused h, rfl⟩
  case restore packed =>
    cases hreg
    exact ⟨_, s, run_checkRegnum_refused h, rfl⟩
  all_goals first | exact hread rfl rfl | cases hreg

/-- **A refused operand.** The turn returns an error, and the state record is as it was. -/
theorem cfiTurn_refused (pi : ProcInfo) (dci : CieInfo) {op : DwCfa}
    (hop : DwCfa.ofByte (m s.addr) = some op)
    (hreg : columnOperand m op (s.addr + 1) = some reg) (h : dwarfNumPreservedRegs ≤ reg.toNat) :
    ∃ e t, cfiTurn m pi dci s = (.err e, t) ∧ t.sr = s.sr := by
  rw [cfiTurn_eq, hop]
  exact cfaProgram_refused (s := s.pastOpcode) hreg h

end

/-- **The table is safe.** In every run, whatever the bytes, the location, the factors and the state
it starts from: every access of a turn is inside the table, and an operand that names a column to
change, or the base register of the CFA, and is no register makes the run return an error, with the
table as the instruction found it. -/
theorem cfi_table_safe (m : Mem) (pi : ProcInfo) (dci : CieInfo) (ip addr e : Word)
    (r : RowState) :
    (∀ l t, Act.Turns (cfiGoesOn ip e) (cfiTurn m pi dci) (CfiState.init pi addr r) l t →
      cfiGoesOn ip e t = true → ∀ x ∈ cfiCalls m pi dci t, InTable x.cmd) ∧
    ∀ l t op reg, Act.Turns (cfiGoesOn ip e) (cfiTurn m pi dci) (CfiState.init pi addr r) l t →
      cfiGoesOn ip e t = true → DwCfa.ofByte (m t.addr) = some op →
      columnOperand m op (t.addr + 1) = some reg → dwarfNumPreservedRegs ≤ reg.toNat →
      ∃ err, ∀ fuel, l.length < fuel →
        (runCfiProgram m pi dci fuel ip addr e r).1 = .err err ∧
          (runCfiProgram m pi dci fuel ip addr e r).2.sr = t.sr := by
  constructor
  · intro l t _ _ x hx
    unfold cfiCalls at hx
    cases hop : DwCfa.ofByte (m t.addr) with
    | none =>
      rw [hop] at hx
      cases hx
    | some op =>
      rw [hop] at hx
      have hall : (cfaProgram dci op).All (execCfiCmd m pi dci) (fun x => InTable x.cmd)
          t.pastOpcode := (cfaProgram_issued dci op).all fun _ _ h => inTable_of_issued h
      exact hall x hx
  · intro l t op reg hturns hgo hop hreg h
    obtain ⟨err, u, hrun, hsr⟩ := cfiTurn_refused pi dci hop hreg h
    refine ⟨err, fun fuel hfuel => ?_⟩
    have hloop := hturns.loop_eq_err hgo hrun hfuel
    unfold runCfiProgram cfiLoop
    rw [Act.zoom_apply, hloop]
    exact ⟨rfl, hsr⟩

end LibunwindKern
