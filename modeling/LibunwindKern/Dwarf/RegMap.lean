import LibunwindKern.Dwarf.CfiCommands
import LibunwindKern.Dwarf.ExprCommands
import LibunwindKern.Dwarf.RegLoc

/-!
# Lookups in the register map

`dwarf_to_unw_regnum_map` has 17 entries. The macro that reads it lets 17 through as well. Register
numbers come to it from three places: the base register of the CFA, the register rules of a row, and
the operations `DW_OP_reg`, `DW_OP_regx`, `DW_OP_breg` and `DW_OP_bregx` of an expression. What an
expression returns as a register is looked up a second time.

`read_regnum` has checked the base register (`createStateRecordFor_base`), and what is looked up a
second time comes from the map. So it is the register rules and the operations that can name
register 17, and `regmap_in_range_iff` says that nothing else goes out of range.
-/

namespace LibunwindKern

open CProg ByteMem Unw

/-- The index that the macro `dwarf_to_unw_regnum` uses, if it uses one. -/
def mapIndex (reg : Word) : Option ℕ :=
  if reg.toNat ≤ dwarfNumPreservedRegs then some reg.toNat else none

/-- Every index that is used is inside of the map. -/
def InMap (regs : List Word) : Prop :=
  ∀ reg ∈ regs, ∀ i, mapIndex reg = some i → i < dwarfNumPreservedRegs

/-- An index outside of the map is undefined behaviour. -/
theorem dwarfToUnwRegnum_undefined_iff (reg : Word) :
    dwarfToUnwRegnum reg = .undefined ↔ ∃ i, mapIndex reg = some i ∧ ¬i < dwarfNumPreservedRegs := by
  unfold dwarfToUnwRegnum mapIndex
  by_cases hlt : reg.toNat < dwarfNumPreservedRegs
  · rw [if_pos hlt, if_pos (Nat.le_of_lt hlt)]
    refine iff_of_false nofun fun ⟨i, hi, hnot⟩ => ?_
    cases hi
    exact hnot hlt
  · rw [if_neg hlt]
    by_cases heq : reg.toNat = dwarfNumPreservedRegs
    · rw [if_pos heq, if_pos (Nat.le_of_eq heq)]
      exact iff_of_true rfl ⟨_, rfl, hlt⟩
    · rw [if_neg heq, if_neg (by omega)]
      exact iff_of_false nofun fun ⟨i, hi, _⟩ => by cases hi

/-- The only number that leaves the map is its length. -/
theorem mapIndex_lt_iff (reg : Word) :
    (∀ i, mapIndex reg = some i → i < dwarfNumPreservedRegs) ↔ reg ≠ 17 := by
  have hval : reg.toNat = dwarfNumPreservedRegs ↔ reg = 17 :=
    ⟨fun h => BitVec.eq_of_toNat_eq h, fun h => by rw [h]; rfl⟩
  rw [← not_iff_not, not_not, ← hval]
  push Not
  unfold mapIndex
  constructor
  · rintro ⟨i, hi, hge⟩
    split_ifs at hi with hle
    cases hi
    omega
  · intro heq
    exact ⟨reg.toNat, if_pos (Nat.le_of_eq heq), Nat.le_of_eq heq.symm⟩

theorem inMap_iff {regs : List Word} : InMap regs ↔ ∀ reg ∈ regs, reg ≠ 17 :=
  forall₂_congr fun reg _ => mapIndex_lt_iff reg

/-! ### The lookups of an expression -/

/-- The register number that a command looks up. -/
def lookupReg : Call ExprCmd ExprState → Option Word
  | ⟨.regnum reg, _⟩ => some reg
  | _ => none

section Expr

variable (v : Validator) (m : Mem)

/-- The register numbers that an evaluation looks up. -/
def exprLookups (c : Cursor) (fuel : ℕ) (addr len : Word) (lga : Lga) : List Word :=
  (exprCalls v m c fuel addr len lga).filterMap lookupReg

/-- The operation of a turn names this register. -/
def TurnNames (s : ExprState) (reg : Word) : Prop :=
  ∃ op t, DwOp.ofByte (m s.addr) = some op ∧ readOperands m op s.pastOpcode = (.ok (), t) ∧
    lookupOf op t.operand1 = some reg

variable {v m} {c : Cursor}

/-- The lookup is the first thing an operation does with a register. -/
theorem all_lookup_iff {op : DwOp} {t : ExprState} {reg : Word} :
    (opProgram m op t.operand1 t.operand2).All (execCmd v m c) (fun x => lookupReg x ≠ some reg) t ↔
      lookupOf op t.operand1 ≠ some reg := by
  constructor
  · intro hall hreg
    cases op
    case reg n => exact (Prog.all_call.1 hall).1 hreg
    case regx => exact (Prog.all_call.1 hall).1 hreg
    case breg n => exact (Prog.all_call.1 (Prog.all_bind.1 hall).1).1 hreg
    case bregx => exact (Prog.all_call.1 (Prog.all_bind.1 hall).1).1 hreg
    all_goals cases hreg
  · intro hno
    refine (opProgram_has m op _ _).all fun cmd s hhas => ?_
    cases cmd with
    | regnum reg' =>
      intro heq
      cases heq
      exact hno hhas
    | _ => exact nofun

/-- **The lookups of an expression** are those that its operations name. -/
theorem mem_exprLookups {fuel : ℕ} {addr len reg : Word} {lga : Lga} :
    reg ∈ exprLookups v m c fuel addr len lga ↔
      ∃ s ∈ exprTurns v m c fuel addr len lga, s.addr < addr + len ∧ TurnNames m s reg := by
  have hnot : reg ∉ exprLookups v m c fuel addr len lga ↔
      ∀ x ∈ exprCalls v m c fuel addr len lga, lookupReg x ≠ some reg := by
    unfold exprLookups
    rw [List.mem_filterMap]
    push Not
    rfl
  rw [← not_iff_not, hnot, all_exprCalls]
  simp only [all_turnCalls, all_lookup_iff]
  constructor
  · rintro ⟨-, hall⟩ ⟨s, hs, hlt, op, t, hop, hread, hreg⟩
    exact (hall s hs).1 hlt op t hop hread hreg
  · intro hno
    refine ⟨nofun, fun s hs => ⟨fun hlt op t hop hread hreg => ?_, fun _ => nofun⟩⟩
    exact hno ⟨s, hs, hlt, op, t, hop, hread, hreg⟩

end Expr

/-! ### The lookups of a row -/

section Row

variable (v : Validator) (m : Mem) (fuel : ℕ)

/-- The lookups of `eval_location_expr`, on the block at `addr`. A register that the expression
returns is looked up again. -/
def locationLookups (addr : Word) (s : St) : List Word :=
  match dwarfReadUleb128 m addr with
  | (.ok len, addr) =>
    exprLookups v m s.c fuel addr len s.lga ++
      match (dwarfEvalExpr v m s.c fuel addr len s.lga).1 with
      | .ok (val, true) => [val]
      | _ => []
  | _ => []

/-- The lookups for the CFA of a row. -/
def cfaLookups (rs : RegState) (s : St) : List Word :=
  match (rs cfaRegColumn).whereSaved with
  | .reg =>
    if (rs cfaRegColumn).val = 7 ∧ (rs (column RSP)).whereSaved = .same then []
    else [(rs cfaRegColumn).val]
  | .expr => locationLookups v m fuel (rs cfaRegColumn).val s
  | _ => []

/-- The lookups for the rule of a register. -/
def ruleLookups (rule : SaveLoc) (s : St) : List Word :=
  match rule.whereSaved with
  | .reg => [rule.val]
  | .expr => locationLookups v m fuel rule.val s
  | _ => []

/-- The lookups of `apply_reg_state`: those for the CFA, and those for each column that it comes
to. -/
def applyLookups (rs : RegState) (s : St) : List Word :=
  cfaLookups v m fuel rs s ++
    Res.after (evalCfa v m fuel rs s) fun cfa t =>
      (List.finRange dwarfNumPreservedRegs).flatMap fun i =>
        Res.after (applyRules v m fuel rs cfa (columnsBefore i) t) fun _ u =>
          ruleLookups v m fuel (rs (column i)) u

/-- The expression in the block at `addr` executes an operation that names the register. -/
def LocationNames (addr : Word) (s : St) (reg : Word) : Prop :=
  ∃ len a, dwarfReadUleb128 m addr = (.ok len, a) ∧
    ∃ t ∈ exprTurns v m s.c fuel a len s.lga, t.addr < a + len ∧ TurnNames m t reg

/-- The rule names the register. -/
def RuleNames (rule : SaveLoc) (s : St) (reg : Word) : Prop :=
  rule.whereSaved = .reg ∧ rule.val = reg ∨
    rule.whereSaved = .expr ∧ LocationNames v m fuel rule.val s reg

/-- The expression of the CFA names the register, or the rule of a column that is come to. -/
def RowNames (rs : RegState) (s : St) (reg : Word) : Prop :=
  (rs cfaRegColumn).whereSaved = .expr ∧ LocationNames v m fuel (rs cfaRegColumn).val s reg ∨
    ∃ cfa t i u, evalCfa v m fuel rs s = (.ok cfa, t) ∧
      applyRules v m fuel rs cfa (columnsBefore i) t = (.ok (), u) ∧
      RuleNames v m fuel (rs (column i)) u reg

variable {v m fuel}

/-- What is looked up a second time is in the map, so it is not 17. -/
theorem mem_locationLookups {addr : Word} {s : St} :
    17 ∈ locationLookups v m fuel addr s ↔ LocationNames v m fuel addr s 17 := by
  unfold locationLookups LocationNames
  rcases hlen : dwarfReadUleb128 m addr with ⟨r, a⟩
  cases r with
  | ok len =>
    have hagain : (17 : Word) ∉ (match (dwarfEvalExpr v m s.c fuel a len s.lga).1 with
        | .ok (val, true) => [val]
        | _ => [] : List Word) := by
      rcases hrun : dwarfEvalExpr v m s.c fuel a len s.lga with ⟨q, g⟩
      split
      · next val heq =>
        cases heq
        intro hmem
        have hlt := dwarfEvalExpr_register v m fuel hrun
        rw [← List.mem_singleton.1 hmem] at hlt
        exact absurd hlt (by decide)
      · exact List.not_mem_nil
    simp only [List.mem_append, or_iff_left hagain, mem_exprLookups]
    constructor
    · intro h
      exact ⟨len, a, rfl, h⟩
    · rintro ⟨len', a', heq, h⟩
      cases heq
      exact h
  | _ =>
    refine iff_of_false List.not_mem_nil ?_
    rintro ⟨len, b, heq, -⟩
    cases heq

theorem mem_ruleLookups {rule : SaveLoc} {s : St} :
    17 ∈ ruleLookups v m fuel rule s ↔ RuleNames v m fuel rule s 17 := by
  unfold ruleLookups RuleNames
  cases hrule : rule.whereSaved with
  | reg => simp [eq_comm]
  | expr =>
    refine mem_locationLookups.trans ⟨fun h => Or.inr ⟨rfl, h⟩, ?_⟩
    rintro (⟨hreg, -⟩ | ⟨-, h⟩)
    · cases hreg
    · exact h
  | _ => simp

/-- The base register of the CFA is a register. -/
def BaseValid (rs : RegState) : Prop :=
  (rs cfaRegColumn).whereSaved = .reg → (rs cfaRegColumn).val.toNat < dwarfNumPreservedRegs

theorem mem_cfaLookups {rs : RegState} {s : St} (hbase : BaseValid rs) :
    17 ∈ cfaLookups v m fuel rs s ↔ (rs cfaRegColumn).whereSaved = .expr ∧
      LocationNames v m fuel (rs cfaRegColumn).val s 17 := by
  unfold cfaLookups
  cases hrule : (rs cfaRegColumn).whereSaved with
  | reg =>
    refine iff_of_false ?_ nofun
    have hlt := hbase hrule
    show 17 ∉ if (rs cfaRegColumn).val = 7 ∧ (rs (column RSP)).whereSaved = .same then []
      else [(rs cfaRegColumn).val]
    split_ifs
    · exact List.not_mem_nil
    · intro hmem
      rw [← List.mem_singleton.1 hmem] at hlt
      exact absurd hlt (by decide)
  | expr => exact mem_locationLookups.trans (and_iff_right rfl).symm
  | _ => exact iff_of_false List.not_mem_nil nofun

/-- **The lookups of a row.** -/
theorem inMap_applyLookups_iff {rs : RegState} {s : St} (hbase : BaseValid rs) :
    InMap (applyLookups v m fuel rs s) ↔ ¬RowNames v m fuel rs s 17 := by
  have hmem : 17 ∈ applyLookups v m fuel rs s ↔ RowNames v m fuel rs s 17 := by
    unfold applyLookups RowNames
    rw [List.mem_append, mem_cfaLookups hbase, Res.mem_after]
    simp only [List.mem_flatMap, List.mem_finRange, true_and, Res.mem_after, mem_ruleLookups]
    apply or_congr_right
    constructor
    · rintro ⟨cfa, t, hcfa, i, ⟨⟩, u, hrules, hnames⟩
      exact ⟨cfa, t, i, u, hcfa, hrules, hnames⟩
    · rintro ⟨cfa, t, i, u, hcfa, hrules, hnames⟩
      exact ⟨cfa, t, hcfa, i, (), u, hrules, hnames⟩
  rw [inMap_iff, ← hmem]
  constructor
  · intro hall h17
    exact hall 17 h17 rfl
  · rintro hno reg hreg rfl
    exact hno hreg

end Row

/-! ### The base register of a CFI program -/

section Base

variable {m : Mem} {pi : ProcInfo} {dci : CieInfo}

/-- The row and all remembered rows have a valid base. -/
def BasesValid (s : CfiState) : Prop := BaseValid s.sr.rsCurrent ∧ ∀ rs ∈ s.rsStack, BaseValid rs

/-- A column other than the base does not matter. -/
theorem BaseValid.update {rs : RegState} (h : BaseValid rs) {i : Fin (dwarfNumPreservedRegs + 2)}
    (hi : i ≠ cfaRegColumn) (loc : SaveLoc) : BaseValid (Function.update rs i loc) := by
  unfold BaseValid
  rw [Function.update_of_ne hi.symm]
  exact h

/-- **One command.** The base is only written with a number that was checked. -/
theorem basesValid_execCfiCmd {β : Type} (cmd : CfiCmd β) (hcmd : Issued cmd) :
    Act.Preserves BasesValid (execCfiCmd m pi dci cmd) := by
  intro s hs
  cases cmd with
  | setReg regnum w val =>
    simp only [execCfiCmd]
    split
    · next h =>
      refine ⟨?_, hs.2⟩
      show BaseValid (Function.update s.sr.rsCurrent ⟨regnum.toNat, h⟩ ⟨w, val⟩)
      obtain hreg | ⟨rfl, hval⟩ | rfl := hcmd
      · -- the column of a register
        refine hs.1.update (fun heq => ?_) _
        have hidx : regnum.toNat = 17 := congrArg Fin.val heq
        exact absurd hreg (by rw [hidx]; decide)
      · have hcol : (⟨(cfaRegIndex).toNat, h⟩ : Fin (dwarfNumPreservedRegs + 2)) = cfaRegColumn := rfl
        rw [hcol]
        unfold BaseValid
        rw [Function.update_self]
        rintro ⟨⟩
        obtain hexpr | ⟨-, hlt⟩ := hval
        · cases hexpr
        · exact hlt
      · refine hs.1.update (fun heq => ?_) _
        have hidx : (18 : ℕ) = 17 := congrArg Fin.val heq
        exact absurd hidx (by decide)
    · exact hs
  | initialReg regnum =>
    simp only [execCfiCmd]
    split <;> exact hs
  | remember =>
    refine ⟨hs.1, fun rs hrs => ?_⟩
    rcases List.mem_cons.1 hrs with rfl | hrs
    · exact hs.1
    · exact hs.2 rs hrs
  | popRow =>
    simp only [execCfiCmd, Act.get_bind]
    cases hstack : s.rsStack with
    | nil => exact hs
    | cons rs rest =>
      have hall := hs.2
      rw [hstack] at hall
      exact ⟨hall rs List.mem_cons_self, fun rs' h => hall rs' (List.mem_cons_of_mem _ h)⟩
  | _ => exact hs

theorem basesValid_cfiTurn : Act.Preserves BasesValid (cfiTurn m pi dci) := by
  intro s hs
  rw [cfiTurn_eq]
  cases DwCfa.ofByte (m s.addr) with
  | none => exact hs
  | some op => exact (cfaProgram_issued dci op).run_preserves basesValid_execCfiCmd s.pastOpcode hs

/-- **A run** keeps the base valid. -/
theorem runCfiProgram_base {fuel : ℕ} {ip addr e : Word} {r t : RowState}
    (h : runCfiProgram m pi dci fuel ip addr e r = (.ok (), t)) (hr : BaseValid r.sr.rsCurrent) :
    BaseValid t.sr.rsCurrent := by
  obtain ⟨u, hrun, rfl⟩ := Act.zoom_eq_ok h
  have hstart : BasesValid (CfiState.init pi addr r) := ⟨hr, fun rs hrs => nomatch hrs⟩
  have hstep : ∀ s s', BasesValid s → cfiGoesOn ip e s = true →
      cfiTurn m pi dci s = (.ok (), s') → BasesValid s' := by
    intro s s' hs _ hbody
    have hnext : BasesValid (cfiTurn m pi dci s).2 := basesValid_cfiTurn s hs
    rwa [hbody] at hnext
  exact (Act.loop_inv BasesValid hstep fuel _ u hstart hrun).1.1

/-- **The rows of CFI programs** have a valid base. -/
theorem createStateRecordFor_base {fuel : ℕ} {ip : Word} {s t : St} {sr : StateRecord}
    (h : createStateRecordFor m fuel ip s = (.ok sr, t)) : BaseValid sr.rsCurrent := by
  obtain ⟨dci, hinfo⟩ := parseFde_cie (createStateRecordFor_ok h)
  obtain ⟨w, w', hcie, hfde, rfl⟩ := createStateRecordFor_eq_ok hinfo h
  -- every column is `DWARF_WHERE_SAME` at the start
  have hstart : BaseValid (rowStart s).sr.rsCurrent := fun hreg => nomatch hreg
  have hbase : BaseValid w.sr.setInitial.rsCurrent := runCfiProgram_base hcie hstart
  exact runCfiProgram_base hfde hbase

end Base

/-- **Lookups in the register map.** For every CFI program and every cursor: each index that
`apply_reg_state` uses, with the expressions that it evaluates, is inside of the map, if and only if
no register rule that is applied and no operation that is executed names register 17. -/
theorem regmap_in_range_iff (v : Validator) (m : Mem) (fuel : ℕ) (ip : Word) (s t : St)
    (sr : StateRecord) (h : createStateRecordFor m fuel ip s = (.ok sr, t)) :
    InMap (applyLookups v m fuel sr.rsCurrent t) ↔ ¬RowNames v m fuel sr.rsCurrent t 17 :=
  inMap_applyLookups_iff (createStateRecordFor_base h)

/-- What a call makes of the row of a frame, and of the state it was found in. -/
def onFoundRow {α : Type} (m : Mem) (dci : CieInfo) (f : RegState → St → α) : Option α :=
  match createStateRecordFor m 9 0x5012 (foundFrame dci) with
  | (.ok sr, t) => some (f sr.rsCurrent t)
  | _ => none

theorem onFoundRow_eq {α : Type} {m : Mem} {dci : CieInfo} {f : RegState → St → α} {a : α}
    (h : onFoundRow m dci f = some a) :
    ∃ sr t, createStateRecordFor m 9 0x5012 (foundFrame dci) = (.ok sr, t) ∧
      f sr.rsCurrent t = a := by
  unfold onFoundRow at h
  split at h
  · next sr t hrun => exact ⟨sr, t, hrun, Option.some.inj h⟩
  · cases h

/-- The rules of the procedure with two rows. -/
theorem onFoundRow_two_rows :
    onFoundRow twoRowsMem twoRowsCie (fun rs _ =>
      ((List.finRange dwarfNumPreservedRegs).map fun i => (rs (column i)).whereSaved,
        (rs cfaRegColumn).whereSaved)) = some (List.replicate 16 .same ++ [.cfarel], .reg) := by
  decide +kernel

/-- The procedure with two rows has neither register rules nor expressions. -/
theorem regmap_in_range_two_rows :
    ∃ sr t, createStateRecordFor twoRowsMem 9 0x5012 (foundFrame twoRowsCie) = (.ok sr, t) ∧
      InMap (applyLookups msyncValidate twoRowsMem 9 sr.rsCurrent t) := by
  obtain ⟨sr, t, hrun, hrules⟩ := onFoundRow_eq onFoundRow_two_rows
  obtain ⟨hcolumns, hbase⟩ := Prod.mk.inj hrules
  have hplain : ∀ i : Fin dwarfNumPreservedRegs,
      (sr.rsCurrent (column i)).whereSaved ∈ List.replicate 16 Where.same ++ [.cfarel] := by
    intro i
    rw [← hcolumns]
    exact List.mem_map_of_mem (List.mem_finRange i)
  refine ⟨sr, t, hrun, (regmap_in_range_iff msyncValidate twoRowsMem 9 0x5012 _ _ _ hrun).2 ?_⟩
  rintro (⟨hexpr, -⟩ | ⟨cfa, u, i, w, -, -, ⟨hreg, -⟩ | ⟨hexpr, -⟩⟩)
  · exact absurd (hbase.symm.trans hexpr) (by decide)
  · exact absurd (hreg ▸ hplain i) (by decide)
  · exact absurd (hexpr ▸ hplain i) (by decide)

/-- The FDE of the procedure with two rows, with `DW_CFA_register RBX 17` for its instructions. -/
def registerMem : Mem := fun a =>
  if a = 0x2032 then 0x09 else if a = 0x2033 then 0x03 else if a = 0x2034 then 0x11 else twoRowsMem a

theorem onFoundRow_register :
    onFoundRow registerMem twoRowsCie (fun rs t => (applyLookups msyncValidate registerMem 9 rs t,
      (applyRegState msyncValidate registerMem 9 rs t).1)) = some ([17], .undefined) := by
  decide +kernel

/-- Register 17 passes the check of the macro, and is behind the end of the map. -/
theorem regmap_register_rule_17 :
    ∃ sr t, createStateRecordFor registerMem 9 0x5012 (foundFrame twoRowsCie) = (.ok sr, t) ∧
      ¬InMap (applyLookups msyncValidate registerMem 9 sr.rsCurrent t) ∧
      (applyRegState msyncValidate registerMem 9 sr.rsCurrent t).1 = .undefined := by
  obtain ⟨sr, t, hrun, hrow⟩ := onFoundRow_eq onFoundRow_register
  obtain ⟨hlookups, hundefined⟩ := Prod.mk.inj hrow
  refine ⟨sr, t, hrun, fun hin => ?_, hundefined⟩
  rw [hlookups] at hin
  exact inMap_iff.1 hin 17 (List.mem_singleton_self _) rfl

end LibunwindKern
