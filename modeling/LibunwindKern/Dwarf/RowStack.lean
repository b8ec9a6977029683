import LibunwindKern.Dwarf.CfiTrace

/-!
# The CFA column and the stack of rows

Two things about a run of `run_cfi_program` are a fold over the instructions it executes:

* whether the CFA column has a rule (`nextFlags`). `create_state_record_for` starts with
  `DWARF_WHERE_SAME` in this column, so instructions that do not define the CFA leave a row
  for which the assertion of `apply_reg_state` fails (`createStateRecordFor_cfa_iff`).
* the nodes of `rs_stack` (`NodeLog`). They all go back to the pool, each of them once, and a
  row that was remembered comes back (`cfi_state_stack`).
-/

namespace LibunwindKern

open CProg ByteMem

/-! ### The CFA column -/

/-- The row has a rule for the CFA that `apply_reg_state` accepts. -/
def CfaDefined (rs : RegState) : Prop :=
  (rs cfaRegColumn).whereSaved = .reg ∨ (rs cfaRegColumn).whereSaved = .expr

instance CfaDefined.decidable (rs : RegState) : Decidable (CfaDefined rs) :=
  inferInstanceAs (Decidable (_ ∨ _))

/-- Whether the CFA is defined after an instruction, and whether it is in the rows on the
stack. -/
def nextFlags : Bool × List Bool → Option DwCfa → Bool × List Bool
  | (_, stack), some .defCfa | (_, stack), some .defCfaSf | (_, stack), some .defCfaRegister
  | (_, stack), some .defCfaExpression => (true, stack)
  | (b, stack), some .rememberState => (b, b :: stack)
  | (_, b :: stack), some .restoreState => (b, stack)
  | flags, _ => flags

/-- The flags of a state. -/
def CfiState.cfaFlags (s : CfiState) : Bool × List Bool :=
  (decide (CfaDefined s.sr.rsCurrent), s.rsStack.map fun rs => decide (CfaDefined rs))

section Cfa

variable {m : Mem} {pi : ProcInfo} {dci : CieInfo}

theorem cfaDefined_update {rs : RegState} {i : Fin (dwarfNumPreservedRegs + 2)} {loc : SaveLoc}
    (h : cfaRegColumn ≠ i) : CfaDefined (Function.update rs i loc) ↔ CfaDefined rs := by
  unfold CfaDefined
  rw [Function.update_of_ne h]

/-- An instruction that does not define the CFA leaves the flags. -/
theorem cfaFlags_view {op : DwCfa} (h : ¬op.Writes cfaRegColumn) :
    CfiView op CfiState.cfaFlags where
  addr _ _ := rfl
  currIp _ _ := rfl
  argsSize _ _ := rfl
  reg s i loc hi := by
    have hne : cfaRegColumn ≠ i := fun heq => h (heq ▸ hi)
    exact Prod.ext (decide_eq_decide.2 (cfaDefined_update hne)) rfl

/-- An instruction that gives the CFA column a rule, as the last thing it does to this
column. -/
theorem setReg_cfaFlags {w : Where} (hw : w = .reg ∨ w = .expr) (val : Word) (s : CfiState) :
    (Cfi.setReg cfaRegColumn w val s).2.cfaFlags = (true, s.cfaFlags.2) := by
  have hdef : CfaDefined (Function.update s.sr.rsCurrent cfaRegColumn ⟨w, val⟩) := by
    unfold CfaDefined
    rw [Function.update_self]
    exact hw
  exact Prod.ext (decide_eq_true hdef) rfl

/-- The flags after the column has got its rule, and after what follows. -/
theorem cfaFlags_of_defines {w : Where} (hw : w = .reg ∨ w = .expr) {val : Word} {x : Cfi Unit}
    (hx : Act.Keeps CfiState.cfaFlags x) {s t : CfiState} {r : Res UnwError Unit}
    (h : (Cfi.setReg cfaRegColumn w val >>= fun _ => x) s = (r, t)) :
    t.cfaFlags = (true, s.cfaFlags.2) := by
  have hset : Cfi.setReg cfaRegColumn w val s = (.ok (), (Cfi.setReg cfaRegColumn w val s).2) := rfl
  rw [Act.bind_of_ok hset] at h
  rw [hx.run h, setReg_cfaFlags hw]

theorem setReg_off_keeps (w : Where) (val : Word) :
    Act.Keeps CfiState.cfaFlags (Cfi.setReg cfaOffColumn w val) :=
  fun _ => Prod.ext (decide_eq_decide.2 (cfaDefined_update (by decide))) rfl

theorem onAddr_cfaFlags {α : Type} (x : Reader α) : Act.Keeps CfiState.cfaFlags (Cfi.onAddr x) :=
  fun _ => rfl

/-- The two instructions that give the CFA a register and an offset, which they read in their own
ways. -/
theorem defCfa_cfaFlags (offset : Reader Word) (scale : Word → Word) {s t : CfiState}
    (h : (do
      let regnum ← Cfi.onAddr (readRegnum m)
      let val ← Cfi.onAddr offset
      Cfi.setReg cfaRegColumn .reg (BitVec.ofNat 64 regnum)
      Cfi.setReg cfaOffColumn .undefined (scale val)) s = (.ok (), t)) :
    t.cfaFlags = (true, s.cfaFlags.2) := by
  obtain ⟨reg, s₁, hreg, h⟩ := Act.bind_eq_ok h
  obtain ⟨off, s₂, hoff, h⟩ := Act.bind_eq_ok h
  have h₂ : s₂.cfaFlags = s.cfaFlags :=
    ((onAddr_cfaFlags _).run hoff).trans ((onAddr_cfaFlags _).run hreg)
  rw [cfaFlags_of_defines (Or.inl rfl) (setReg_off_keeps _ _) h, h₂]

/-- **One turn** changes the flags as its opcode says. -/
theorem cfiTurn_cfaFlags (s t : CfiState) (h : cfiTurn m pi dci s = (.ok (), t)) :
    t.cfaFlags = nextFlags s.cfaFlags (s.op m) := by
  cases hop : s.op m with
  | none =>
    rw [cfiTurn_of_none hop] at h
    cases h
    rfl
  | some op =>
    rw [cfiTurn_of_some hop] at h
    have hreg : ¬cfaRegColumn.val < dwarfNumPreservedRegs := by decide
    have hoff : cfaRegColumn ≠ cfaOffColumn := by decide
    -- the instructions that leave the flags
    have hkeeps : ¬op.Writes cfaRegColumn → op.onStack = false → t.cfaFlags = s.cfaFlags :=
      fun hwrites hstack => ((cfaFlags_view hwrites).execCfa hstack).run (s := s.fetch) h
    cases op with
    | defCfa => exact defCfa_cfaFlags _ id (s := s.fetch) h
    | defCfaSf => exact defCfa_cfaFlags _ (· * dci.dataAlign) (s := s.fetch) h
    | defCfaRegister =>
      obtain ⟨reg, s₁, hreg, h⟩ := Act.bind_eq_ok h
      have h₁ : s₁.cfaFlags = s.cfaFlags := (onAddr_cfaFlags _).run (s := s.fetch) hreg
      -- the column is written after the operand is read
      have hset := setReg_cfaFlags (Or.inl rfl) (BitVec.ofNat 64 reg) s₁
      rw [h, h₁] at hset
      exact hset
    | defCfaExpression =>
      have hskip : Act.Keeps CfiState.cfaFlags (Cfi.skipBlock m) :=
        Act.Keeps.bind (onAddr_cfaFlags _) fun _ _ => rfl
      rw [cfaFlags_of_defines (Or.inr rfl) hskip h]
      rfl
    | rememberState =>
      cases h
      rfl
    | restoreState =>
      -- the flag of the row that is popped
      obtain ⟨rs, rest, hrs, rfl⟩ := restoreState_eq_ok h
      have hstack : s.cfaFlags.2 =
          decide (CfaDefined rs) :: rest.map fun rs => decide (CfaDefined rs) :=
        congrArg (List.map fun rs => decide (CfaDefined rs)) hrs
      rw [← Prod.mk.eta (p := s.cfaFlags), hstack]
      rfl
    | defCfaOffset => exact hkeeps hoff rfl
    | defCfaOffsetSf => exact hkeeps hoff rfl
    | _ => exact hkeeps hreg rfl

/-- **A run** changes the flags as its opcodes say. The rows on its stack are dropped. -/
theorem runCfiProgram_cfaDefined {fuel : ℕ} {ip addr e : Word} {r r' : RowState}
    (h : runCfiProgram m pi dci fuel ip addr e r = (.ok (), r')) :
    decide (CfaDefined r'.sr.rsCurrent) =
      ((opsOf m pi dci fuel ip addr e r).foldl nextFlags
        (decide (CfaDefined r.sr.rsCurrent), [])).1 := by
  obtain ⟨l, t, q, last, hturns, hend, hrun, hfetched⟩ :=
    runCfiProgram_turns m pi dci fuel ip addr e r
  have hops := opsOf_eq hfetched
  obtain ⟨hok, rfl⟩ := Prod.mk.inj (hrun.symm.trans h)
  cases hend with
  | done =>
    rw [hops, List.map_nil, List.append_nil]
    exact congrArg Prod.fst (hturns.foldl cfiTurn_cfaFlags)
  -- a run that fails has no row
  | stop _ ho => exact absurd hok ho
  | bound => cases hok

end Cfa

/-- The instructions of the CIE that are executed. -/
def cieOps (m : Mem) (dci : CieInfo) (fuel : ℕ) (s : St) : List (Option DwCfa) :=
  opsOf m s.c.pi dci fuel (BitVec.allOnes 64) dci.cieInstrStart dci.cieInstrEnd (rowStart s)

/-- The state in which the instructions of the FDE are started. -/
def fdeRowStart (m : Mem) (dci : CieInfo) (fuel : ℕ) (s : St) : RowState :=
  let w := (runCfiProgram m s.c.pi dci fuel (BitVec.allOnes 64) dci.cieInstrStart dci.cieInstrEnd
    (rowStart s)).2
  { w with sr := w.sr.setInitial }

/-- The instructions of the FDE that are executed. -/
def fdeOps (m : Mem) (dci : CieInfo) (fuel : ℕ) (ip : Word) (s : St) : List (Option DwCfa) :=
  opsOf m s.c.pi dci fuel ip dci.fdeInstrStart dci.fdeInstrEnd (fdeRowStart m dci fuel s)

/-- The instructions of a CIE and an FDE define the CFA: one of them does, and no
`DW_CFA_restore_state` after it goes back to a row without a CFA. -/
def DefineCfa (cie fde : List (Option DwCfa)) : Prop :=
  (fde.foldl nextFlags ((cie.foldl nextFlags (false, [])).1, [])).1 = true

instance DefineCfa.decidable (cie fde : List (Option DwCfa)) : Decidable (DefineCfa cie fde) :=
  inferInstanceAs (Decidable (_ = _))

/-- A row without a CFA fails the assertion of `apply_reg_state`. -/
theorem applyRegState_panics {rs : RegState} (h : ¬CfaDefined rs) (v : Validator) (m : Mem)
    (fuel : ℕ) (s : St) : (applyRegState v m fuel rs s).1 = .panic := by
  obtain ⟨hreg, hexpr⟩ := not_or.1 h
  have hcfa : evalCfa v m fuel rs s = (.panic, s) := by
    unfold evalCfa
    rw [Act.get_bind]
    cases hw : (rs cfaRegColumn).whereSaved with
    | reg => exact absurd hw hreg
    | expr => exact absurd hw hexpr
    | undefined => rfl
    | same => rfl
    | cfarel => rfl
  unfold applyRegState
  rw [Act.get_bind, Act.bind_of_panic hcfa]

/-- The row that `create_state_record_for` returns is the one of the two runs. -/
theorem createStateRecordFor_eq_ok {m : Mem} {fuel : ℕ} {ip : Word} {s t : St} {dci : CieInfo}
    {sr : StateRecord} (hinfo : s.c.pi.unwindInfo = .cie dci)
    (h : createStateRecordFor m fuel ip s = (.ok sr, t)) :
    ∃ w w', runCfiProgram m s.c.pi dci fuel (BitVec.allOnes 64) dci.cieInstrStart dci.cieInstrEnd
        (rowStart s) = (.ok (), w) ∧
      runCfiProgram m s.c.pi dci fuel ip dci.fdeInstrStart dci.fdeInstrEnd
        { w with sr := w.sr.setInitial } = (.ok (), w') ∧ sr = w'.sr := by
  have hparse := createStateRecordFor_ok h
  unfold parseFde at hparse
  rw [Act.get_bind, hinfo] at hparse
  obtain ⟨⟨⟩, s₁, hset, hzoom⟩ := Act.bind_eq_ok hparse
  cases hset
  obtain ⟨w', hrun, -⟩ := Act.zoom_eq_ok hzoom
  obtain ⟨⟨⟩, w₂, hprograms, hget⟩ := Act.bind_eq_ok hrun
  cases hget
  unfold parseFdePrograms at hprograms
  -- the row of the CIE becomes the initial one before the FDE is run
  obtain ⟨⟨⟩, w, hcie, hrest⟩ := Act.bind_eq_ok hprograms
  exact ⟨w, w', hcie, hrest, rfl⟩

/-- **The assertion about the CFA.** The row has a rule for the CFA if and only if the
instructions define it. Otherwise `apply_reg_state` stops the system. -/
theorem createStateRecordFor_cfa_iff (m : Mem) (fuel : ℕ) (ip : Word) (s t : St) (dci : CieInfo)
    (sr : StateRecord) (hinfo : s.c.pi.unwindInfo = .cie dci)
    (h : createStateRecordFor m fuel ip s = (.ok sr, t)) :
    (CfaDefined sr.rsCurrent ↔ DefineCfa (cieOps m dci fuel s) (fdeOps m dci fuel ip s)) ∧
      (¬DefineCfa (cieOps m dci fuel s) (fdeOps m dci fuel ip s) → ∀ v w,
        (applyRegState v m fuel sr.rsCurrent w).1 = .panic) := by
  obtain ⟨w, w', hcie, hfde, rfl⟩ := createStateRecordFor_eq_ok hinfo h
  have hcieFlag := runCfiProgram_cfaDefined hcie
  have hfdeFlag := runCfiProgram_cfaDefined hfde
  have hstart : fdeRowStart m dci fuel s = { w with sr := w.sr.setInitial } := by
    unfold fdeRowStart
    rw [hcie]
  have hdef : CfaDefined w'.sr.rsCurrent ↔
      DefineCfa (cieOps m dci fuel s) (fdeOps m dci fuel ip s) := by
    -- every column is `DWARF_WHERE_SAME` at the start, the CFA column too
    have hfirst : decide (CfaDefined w.sr.rsCurrent) =
        ((cieOps m dci fuel s).foldl nextFlags (false, [])).1 := hcieFlag
    -- the FDE goes on with the row of the CIE, but with an empty stack
    have hboth : decide (CfaDefined w'.sr.rsCurrent) =
        ((fdeOps m dci fuel ip s).foldl nextFlags (decide (CfaDefined w.sr.rsCurrent), [])).1 := by
      unfold fdeOps
      rw [hstart]
      exact hfdeFlag
    unfold DefineCfa
    rw [← hfirst, ← hboth, decide_eq_true_iff]
  exact ⟨hdef, fun hnot v u => applyRegState_panics (mt hdef.1 hnot) v m fuel u⟩

/-- A frame for which unwind info was found, with these instructions. -/
def foundFrame (dci : CieInfo) : St :=
  let s := callFrame 0x5012
  { s with c := { s.c with
      piValid := true
      pi := { ProcInfo.zero with startIp := 0x5000, format := .table, unwindInfo := .cie dci } } }

/-- A CIE and an FDE without instructions. -/
def bareCie : CieInfo := { twoRowsCie with cieInstrStart := 0x201a, fdeInstrStart := 0x2035 }

/-- The CFA of the procedure with two rows is defined by its CIE. -/
theorem cfa_defined_two_rows :
    DefineCfa (cieOps twoRowsMem twoRowsCie 9 (foundFrame twoRowsCie))
        (fdeOps twoRowsMem twoRowsCie 9 0x5012 (foundFrame twoRowsCie)) ∧
      ∃ sr t, createStateRecordFor twoRowsMem 9 0x5012 (foundFrame twoRowsCie) = (.ok sr, t) ∧
        CfaDefined sr.rsCurrent := by
  have hdef : DefineCfa (cieOps twoRowsMem twoRowsCie 9 (foundFrame twoRowsCie))
      (fdeOps twoRowsMem twoRowsCie 9 0x5012 (foundFrame twoRowsCie)) := by decide +kernel
  have hrun : createStateRecordFor twoRowsMem 9 0x5012 (foundFrame twoRowsCie) = (.ok _, _) := rfl
  exact ⟨hdef, _, _, hrun, (createStateRecordFor_cfa_iff twoRowsMem 9 0x5012
    (foundFrame twoRowsCie) _ twoRowsCie _ rfl hrun).1.2 hdef⟩

/-- Unwind info without instructions stops the system. -/
theorem cfa_assertion_fails :
    ∃ sr t, createStateRecordFor twoRowsMem 9 0x5012 (foundFrame bareCie) = (.ok sr, t) ∧
      ¬CfaDefined sr.rsCurrent ∧
      (applyRegState msyncValidate twoRowsMem 9 sr.rsCurrent t).1 = .panic := by
  refine ⟨StateRecord.init.setInitial, _, rfl, ?_, ?_⟩
  · decide
  · decide +kernel

/-! ### The stack of rows -/

/-- The nodes of `rs_stack`, numbered in the order in which they are taken from the pool: how
many were taken, those on the stack, and those that were returned. -/
structure NodeLog where
  taken : ℕ
  stack : List ℕ
  returned : List ℕ

namespace NodeLog

def init : NodeLog := ⟨0, [], []⟩

/-- What an instruction does with the nodes. -/
def step (g : NodeLog) : Option DwCfa → NodeLog
  | some .rememberState => { g with taken := g.taken + 1, stack := g.taken :: g.stack }
  | some .restoreState =>
    match g.stack with
    | [] => g
    | n :: stack => { g with stack := stack, returned := n :: g.returned }
  | _ => g

theorem step_restore_of_nil {g : NodeLog} (h : g.stack = []) :
    g.step (some .restoreState) = g := by
  simp only [step, h]

theorem step_restore_of_cons {g : NodeLog} {n : ℕ} {stack : List ℕ} (h : g.stack = n :: stack) :
    g.step (some .restoreState) = ⟨g.taken, stack, n :: g.returned⟩ := by
  simp only [step, h]

/-- The loop at the label `fail`: it returns the nodes that are left. -/
def finish (g : NodeLog) : NodeLog := ⟨g.taken, [], g.stack.reverse ++ g.returned⟩

/-- Each node is on the stack or was returned. -/
def Sound (g : NodeLog) : Prop := (g.stack ++ g.returned).Perm (List.range g.taken)

theorem init_sound : init.Sound := List.Perm.refl _

theorem Sound.step {g : NodeLog} (h : g.Sound) (op : Option DwCfa) : (g.step op).Sound := by
  unfold NodeLog.step
  split
  · -- a node that was not there before
    unfold Sound at h ⊢
    change ((g.taken :: g.stack) ++ g.returned).Perm (List.range (g.taken + 1))
    rw [List.cons_append, List.range_succ]
    exact (List.Perm.cons _ h).trans (List.perm_append_singleton _ _).symm
  · split
    · exact h
    · -- the node moves from the stack to the others
      next n stack hstack =>
      unfold Sound at h ⊢
      rw [hstack] at h
      exact List.perm_middle.trans h
  · exact h

theorem Sound.foldl (ops : List (Option DwCfa)) {g : NodeLog} (h : g.Sound) :
    (ops.foldl NodeLog.step g).Sound := by
  induction ops generalizing g with
  | nil => exact h
  | cons op ops ih => exact ih (h.step op)

/-- At the end, each node has been returned once. -/
theorem Sound.finish {g : NodeLog} (h : g.Sound) :
    g.finish.returned.Perm (List.range g.taken) :=
  ((List.reverse_perm g.stack).append_right _).trans h

end NodeLog

section Stack

variable {m : Mem} {pi : ProcInfo} {dci : CieInfo} {s t : CfiState} {g : NodeLog}

/-- The state has the nodes of a log on its stack, and its pool, which was `p` at the start, has
handed out and got back those that the log says. -/
structure Logged (p : Pool) (g : NodeLog) (s : CfiState) : Prop where
  stack : s.rsStack.length = g.stack.length
  pool : s.pool = ⟨p.allocs + g.taken, p.frees + g.returned.length⟩

theorem NodeLog.step_of_not_onStack {op : DwCfa} (h : op.onStack = false) (g : NodeLog) :
    g.step (some op) = g := by
  cases op <;> first | rfl | cases h

/-- **One turn**, whether it succeeds or not, does with the nodes what its opcode says. -/
theorem Logged.turn {p : Pool} (hs : Logged p g s) {r : Res UnwError Unit}
    (h : cfiTurn m pi dci s = (r, t)) : Logged p (g.step (s.op m)) t := by
  cases hop : s.op m with
  | none =>
    rw [cfiTurn_of_none hop] at h
    cases h
    exact ⟨hs.stack, hs.pool⟩
  | some op =>
    rw [cfiTurn_of_some hop] at h
    cases hstack : op.onStack with
    | false =>
      -- neither the stack nor the pool is touched
      have hview : CfiView op fun s : CfiState => (s.rsStack, s.pool) :=
        ⟨fun _ _ => rfl, fun _ _ => rfl, fun _ _ => rfl, fun _ _ _ _ => rfl⟩
      obtain ⟨hrows, hpool⟩ := Prod.mk.inj ((hview.execCfa hstack).run (s := s.fetch) h)
      rw [NodeLog.step_of_not_onStack hstack]
      exact ⟨by rw [hrows]; exact hs.stack, by rw [hpool]; exact hs.pool⟩
    | true =>
      cases op with
      | rememberState =>
        cases h
        refine ⟨congrArg Nat.succ hs.stack, ?_⟩
        change s.pool.alloc = _
        rw [hs.pool]
        rfl
      | restoreState =>
        have hlen := hs.stack
        cases hrows : s.rsStack with
        | nil =>
          -- the underflow is an error, and no node is returned
          rw [restoreState_of_nil (s := s.fetch) hrows] at h
          cases h
          rw [hrows] at hlen
          rw [NodeLog.step_restore_of_nil (List.eq_nil_of_length_eq_zero hlen.symm)]
          exact ⟨hs.stack, hs.pool⟩
        | cons rs rest =>
          rw [restoreState_of_cons (s := s.fetch) hrows] at h
          cases h
          rw [hrows, List.length_cons] at hlen
          obtain ⟨n, stack, hnodes⟩ := List.exists_cons_of_length_eq_add_one hlen.symm
          rw [hnodes, List.length_cons] at hlen
          rw [NodeLog.step_restore_of_cons hnodes]
          refine ⟨Nat.succ.inj hlen, ?_⟩
          change s.pool.free = _
          rw [hs.pool]
          rfl
      | _ => cases hstack

/-- **The turns of a run** do with the nodes what their opcodes say. -/
theorem Logged.turns {p : Pool} {cond : CfiState → Bool} {l : List CfiState}
    (h : Act.Turns cond (cfiTurn m pi dci) s l t) :
    ∀ {g : NodeLog}, Logged p g s → Logged p ((l.map (CfiState.op m)).foldl NodeLog.step g) t := by
  induction h with
  | nil => exact id
  -- a turn that succeeds
  | cons _ hbody _ ih => exact fun hs => ih (hs.turn hbody)

/-- **The nodes of a run.** In every outcome, each node that was taken from the pool has been
returned to it once. -/
def ReturnsNodes (m : Mem) (pi : ProcInfo) (dci : CieInfo) (fuel : ℕ) (ip addr e : Word)
    (r : RowState) : Prop :=
  let g := ((opsOf m pi dci fuel ip addr e r).foldl NodeLog.step NodeLog.init).finish
  (runCfiProgram m pi dci fuel ip addr e r).2.pool =
      ⟨r.pool.allocs + g.taken, r.pool.frees + g.returned.length⟩ ∧
    g.returned.Perm (List.range g.taken)

theorem runCfiProgram_returnsNodes (fuel : ℕ) (ip addr e : Word) (r : RowState) :
    ReturnsNodes m pi dci fuel ip addr e r := by
  obtain ⟨l, t, q, last, hturns, hend, hrun, hfetched⟩ :=
    runCfiProgram_turns m pi dci fuel ip addr e r
  have hops : opsOf m pi dci fuel ip addr e r =
      l.map (CfiState.op m) ++ last.map fun a => DwCfa.ofByte (m a) := opsOf_eq hfetched
  -- what the loop leaves, whichever way it has ended
  have hlogged : Logged r.pool ((opsOf m pi dci fuel ip addr e r).foldl NodeLog.step NodeLog.init)
      q.2 := by
    have hstart : Logged r.pool NodeLog.init (CfiState.init pi addr r) := ⟨rfl, rfl⟩
    have ht := Logged.turns hturns hstart
    rw [hops, List.foldl_append]
    cases hend with
    | done => exact ht
    | stop hturn _ => exact ht.turn hturn
    | bound => exact ht
  refine ⟨?_, (NodeLog.init_sound.foldl _).finish⟩
  rw [hrun]
  -- the loop at the label `fail` returns one node for each row that is left
  change q.2.pool.freeAll q.2.rsStack.length = _
  rw [hlogged.pool, hlogged.stack]
  unfold Pool.freeAll NodeLog.finish
  simp only [List.length_append, List.length_reverse, Pool.mk.injEq, true_and]
  omega

/-- Instructions in which each `DW_CFA_remember_state` has its `DW_CFA_restore_state`. -/
inductive Balanced : List (Option DwCfa) → Prop
  | nil : Balanced []
  | other {op : Option DwCfa} {ops : List (Option DwCfa)}
      (hop : ∀ cfa, op = some cfa → cfa.onStack = false) (h : Balanced ops) : Balanced (op :: ops)
  | nest {ops ops' : List (Option DwCfa)} (h : Balanced ops) (h' : Balanced ops') :
      Balanced (some .rememberState :: ops ++ some .restoreState :: ops')

theorem cfiTurn_rsStack_of_not_onStack (hop : ∀ cfa, s.op m = some cfa → cfa.onStack = false)
    (h : cfiTurn m pi dci s = (.ok (), t)) : t.rsStack = s.rsStack := by
  cases hs : s.op m with
  | none =>
    rw [cfiTurn_of_none hs] at h
    cases h
    rfl
  | some op =>
    rw [cfiTurn_of_some hs] at h
    have hview : CfiView op CfiState.rsStack :=
      ⟨fun _ _ => rfl, fun _ _ => rfl, fun _ _ => rfl, fun _ _ _ _ => rfl⟩
    exact (hview.execCfa (hop op hs)).run (s := s.fetch) h

/-- A row that was remembered is restored, if what is executed in between leaves the stack. -/
theorem turns_remember_restore {cond : CfiState → Bool} {l : List CfiState}
    {ops : List (Option DwCfa)}
    (hops : ∀ {s t : CfiState} {l : List CfiState}, Act.Turns cond (cfiTurn m pi dci) s l t →
      l.map (CfiState.op m) = ops → t.rsStack = s.rsStack)
    (h : Act.Turns cond (cfiTurn m pi dci) s l t)
    (hl : l.map (CfiState.op m) = some .rememberState :: ops ++ [some .restoreState]) :
    t.sr.rsCurrent = s.sr.rsCurrent ∧ t.rsStack = s.rsStack := by
  -- the turns are the first one, those in between, and the last one
  obtain ⟨l₁, l₂, rfl, hl₁, hl₂⟩ := List.map_eq_append_iff.1 hl
  obtain ⟨w₃, rfl, hop₃⟩ := List.map_eq_singleton_iff.1 hl₂
  obtain ⟨w₁, between, rfl, hop₁, hbetween⟩ := List.map_eq_cons_iff.1 hl₁
  obtain ⟨s₂, hfirst, hlast⟩ := h.split
  obtain ⟨rfl, hrestore⟩ := hlast.singleton
  cases hfirst with
  | cons _ hremember hmiddle =>
    rw [cfiTurn_of_some hop₁] at hremember
    cases hremember
    -- the row is on top of the stack again
    have hstack := hops hmiddle hbetween
    rw [cfiTurn_of_some hop₃] at hrestore
    obtain ⟨rs, rest, hrs, rfl⟩ := restoreState_eq_ok hrestore
    obtain ⟨hrow, hrest⟩ := List.cons.inj (hrs.symm.trans hstack)
    exact ⟨hrow, hrest⟩

/-- **Balanced instructions** leave the stack as it was. The induction is over the way the
instructions are nested. -/
theorem Balanced.rsStack {ops : List (Option DwCfa)} (hb : Balanced ops)
    {cond : CfiState → Bool} : ∀ {s t : CfiState} {l : List CfiState},
    Act.Turns cond (cfiTurn m pi dci) s l t → l.map (CfiState.op m) = ops →
      t.rsStack = s.rsStack := by
  induction hb with
  | nil =>
    intro s t l h hl
    rw [List.map_eq_nil_iff.1 hl] at h
    cases h
    rfl
  | @other op ops hop hb ih =>
    intro s t l h hl
    obtain ⟨w, rest, rfl, rfl, hops⟩ := List.map_eq_cons_iff.1 hl
    cases h with
    | cons _ hturn hrest => exact (ih hrest hops).trans (cfiTurn_rsStack_of_not_onStack hop hturn)
  | @nest ops ops' hb hb' ih ih' =>
    intro s t l h hl
    have happend : l.map (CfiState.op m) =
        (some DwCfa.rememberState :: ops ++ [some DwCfa.restoreState]) ++ ops' := by
      rw [hl, List.append_assoc, List.singleton_append]
    obtain ⟨l₁, l₂, rfl, hl₁, hl₂⟩ := List.map_eq_append_iff.1 happend
    -- the pair and what is in it leave the stack, and so does what follows
    obtain ⟨u, hfirst, hsecond⟩ := h.split
    exact (ih' hsecond hl₂).trans (turns_remember_restore ih hfirst hl₁).2

/-- **The stack of rows.** In every outcome of a run, each node that was taken from the pool has
been returned to it once. A row that was remembered is restored after balanced instructions. -/
theorem cfi_state_stack (m : Mem) (pi : ProcInfo) (dci : CieInfo) (ip e : Word) :
    (∀ (fuel : ℕ) (addr : Word) (r : RowState), ReturnsNodes m pi dci fuel ip addr e r) ∧
      ∀ (s t : CfiState) (l : List CfiState) (ops : List (Option DwCfa)), Balanced ops →
        Act.Turns (cfiGoesOn ip e) (cfiTurn m pi dci) s l t →
        l.map (CfiState.op m) = some .rememberState :: ops ++ [some .restoreState] →
        t.sr.rsCurrent = s.sr.rsCurrent := by
  refine ⟨fun fuel addr r => runCfiProgram_returnsNodes fuel ip addr e r, ?_⟩
  intro s t l ops hb hturns hl
  exact (turns_remember_restore hb.rsStack hturns hl).1

/-- `DW_CFA_remember_state`, `DW_CFA_def_cfa_offset 16`, `DW_CFA_restore_state`, at `0x9000`. -/
def rememberMem : Mem := fun a => ([0x0a, 0x0e, 0x10, 0x0b] : List Byte).getD (a - 0x9000).toNat 0

/-- The offset of the CFA is back to what it was, and so is the node. -/
theorem remember_restore_offset :
    ∃ t l, Act.Turns (cfiGoesOn 0 0x9004) (cfiTurn rememberMem ProcInfo.zero CieInfo.zero)
        (CfiState.init ProcInfo.zero 0x9000 blankRow) l t ∧
      t.sr.rsCurrent = StateRecord.init.rsCurrent ∧
      ReturnsNodes rememberMem ProcInfo.zero CieInfo.zero 4 0 0x9000 0x9004 blankRow := by
  have hturns : Act.Turns (cfiGoesOn 0 0x9004) (cfiTurn rememberMem ProcInfo.zero CieInfo.zero)
      (CfiState.init ProcInfo.zero 0x9000 blankRow) _ _ :=
    .cons (by decide +kernel) rfl (.cons (by decide +kernel) rfl (.cons (by decide +kernel) rfl .nil))
  have hb : Balanced [some DwCfa.defCfaOffset] := .other (by rintro cfa ⟨⟩; rfl) .nil
  exact ⟨_, _, hturns,
    (cfi_state_stack rememberMem ProcInfo.zero CieInfo.zero 0 0x9004).2 _ _ _ _ hb hturns rfl,
    (cfi_state_stack rememberMem ProcInfo.zero CieInfo.zero 0 0x9004).1 4 0x9000 blankRow⟩

end Stack

end LibunwindKern
