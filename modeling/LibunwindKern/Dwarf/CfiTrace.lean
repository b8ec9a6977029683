import LibunwindKern.Dwarf.CallSite
import LibunwindKern.Dwarf.CfiRow

/-!
# The instructions a run executes

A run of `run_cfi_program` is a sequence of turns (`Act.loop_turns`), each with the opcode it
fetches. `fetchedBy` are the addresses of these opcodes, and `CfiView.execCfa` is the frame rule
of an instruction: it changes the columns it has and nothing else of the rows.

The `switch` over the opcode has no default, so an opcode that it has no case for does nothing,
and its operands are executed as instructions. `runCfiProgram_rejects_iff` says that this is the
only way in which an opcode that is not implemented gets through.
-/

namespace LibunwindKern

open CProg ByteMem

/-! ### What an instruction writes -/

/-- The columns an instruction may give a rule. -/
def DwCfa.Writes : DwCfa → Fin (dwarfNumPreservedRegs + 2) → Prop
  | .defCfa, i | .defCfaSf, i => i = cfaRegColumn ∨ i = cfaOffColumn
  | .defCfaRegister, i | .defCfaExpression, i => i = cfaRegColumn
  | .defCfaOffset, i | .defCfaOffsetSf, i => i = cfaOffColumn
  | _, i => i.val < dwarfNumPreservedRegs

/-- The instructions that work on the stack of rows. -/
def DwCfa.onStack : DwCfa → Bool
  | .rememberState | .restoreState => true
  | _ => false

/-- A view of the interpreter's state in which the columns of an instruction do not show, nor
do the address variable, the location and the size of the arguments. -/
structure CfiView {τ : Type} (op : DwCfa) (p : CfiState → τ) : Prop where
  addr : ∀ s a, p { s with addr := a } = p s
  currIp : ∀ s ip, p { s with currIp := ip } = p s
  argsSize : ∀ s n, p { s with sr := { s.sr with argsSize := n } } = p s
  reg : ∀ s i loc, op.Writes i →
    p { s with sr := { s.sr with rsCurrent := Function.update s.sr.rsCurrent i loc } } = p s

section View

variable {τ : Type} {m : Mem} {pi : ProcInfo} {dci : CieInfo} {op : DwCfa} {p : CfiState → τ}

theorem CfiView.onAddr {α : Type} (hp : CfiView op p) (x : Reader α) :
    Act.Keeps p (Cfi.onAddr x) := fun s => hp.addr s _

theorem CfiView.setReg (hp : CfiView op p) {i : Fin (dwarfNumPreservedRegs + 2)} (hi : op.Writes i)
    (w : Where) (val : Word) : Act.Keeps p (Cfi.setReg i w val) := fun s => hp.reg s i _ hi

theorem CfiView.setColumn (hp : CfiView op p)
    (hw : ∀ i : Fin dwarfNumPreservedRegs, op.Writes (column i)) (i : Fin dwarfNumPreservedRegs)
    (w : Where) (val : Word) : Act.Keeps p (Cfi.setReg (column i) w val) := hp.setReg (hw i) w val

theorem CfiView.advance (hp : CfiView op p) (delta : Word) : Act.Keeps p (Cfi.advance delta) :=
  fun s => hp.currIp s _

theorem CfiView.restoreReg (hp : CfiView op p)
    (hw : ∀ i : Fin dwarfNumPreservedRegs, op.Writes (column i)) (reg : Word) :
    Act.Keeps p (Cfi.restoreReg reg) := by
  refine Act.Keeps.bind Act.Keeps.get fun s => ?_
  split
  · exact fun t => hp.reg t _ _ (hw _)
  · exact Act.Keeps.fail _

theorem CfiView.skipBlock (hp : CfiView op p) : Act.Keeps p (Cfi.skipBlock m) :=
  Act.Keeps.bind (hp.onAddr _) fun _ s => hp.addr s _

/-- **Frame rule.** An instruction that does not work on the stack changes its columns and
nothing else of the rows. -/
theorem CfiView.execCfa (hp : CfiView op p) (hstack : op.onStack = false) :
    Act.Keeps p (execCfa m pi dci op) := by
  cases op with
  | advanceLoc delta => exact hp.advance _
  -- the one instruction that checks its register itself
  | offset reg =>
    simp only [LibunwindKern.execCfa]
    split
    · exact Act.Keeps.bind (hp.onAddr _) fun _ => hp.setColumn (fun i => i.isLt) _ _ _
    · exact Act.Keeps.fail _
  | restore reg => exact hp.restoreReg (fun i => i.isLt) _
  | nop => exact Act.Keeps.pure _
  | setLoc => exact Act.Keeps.bind (hp.onAddr _) fun _ s => hp.currIp s _
  | advanceLoc1 => exact Act.Keeps.bind (hp.onAddr _) fun _ => hp.advance _
  | advanceLoc2 => exact Act.Keeps.bind (hp.onAddr _) fun _ => hp.advance _
  | advanceLoc4 => exact Act.Keeps.bind (hp.onAddr _) fun _ => hp.advance _
  | offsetExtended =>
    exact Act.Keeps.bind (hp.onAddr _) fun reg => Act.Keeps.bind (hp.onAddr _) fun _ =>
      hp.setColumn (fun i => i.isLt) reg _ _
  | restoreExtended => exact Act.Keeps.bind (hp.onAddr _) fun _ => hp.restoreReg (fun i => i.isLt) _
  | undefined =>
    exact Act.Keeps.bind (hp.onAddr _) fun reg => hp.setColumn (fun i => i.isLt) reg _ _
  | sameValue =>
    exact Act.Keeps.bind (hp.onAddr _) fun reg => hp.setColumn (fun i => i.isLt) reg _ _
  | register =>
    exact Act.Keeps.bind (hp.onAddr _) fun reg => Act.Keeps.bind (hp.onAddr _) fun _ =>
      hp.setColumn (fun i => i.isLt) reg _ _
  -- the two instructions on the stack are not covered
  | rememberState => cases hstack
  | restoreState => cases hstack
  | defCfa =>
    exact Act.Keeps.bind (hp.onAddr _) fun _ => Act.Keeps.bind (hp.onAddr _) fun _ =>
      Act.Keeps.bind (hp.setReg (Or.inl rfl) _ _) fun _ => hp.setReg (Or.inr rfl) _ _
  | defCfaRegister => exact Act.Keeps.bind (hp.onAddr _) fun _ => hp.setReg rfl _ _
  | defCfaOffset => exact Act.Keeps.bind (hp.onAddr _) fun _ => hp.setReg rfl _ _
  | defCfaExpression =>
    exact Act.Keeps.bind Act.Keeps.get fun _ => Act.Keeps.bind (hp.setReg rfl _ _) fun _ =>
      hp.skipBlock
  | expression =>
    exact Act.Keeps.bind (hp.onAddr _) fun reg => Act.Keeps.bind Act.Keeps.get fun _ =>
      Act.Keeps.bind (hp.setColumn (fun i => i.isLt) reg _ _) fun _ => hp.skipBlock
  | offsetExtendedSf =>
    exact Act.Keeps.bind (hp.onAddr _) fun reg => Act.Keeps.bind (hp.onAddr _) fun _ =>
      hp.setColumn (fun i => i.isLt) reg _ _
  | defCfaSf =>
    exact Act.Keeps.bind (hp.onAddr _) fun _ => Act.Keeps.bind (hp.onAddr _) fun _ =>
      Act.Keeps.bind (hp.setReg (Or.inl rfl) _ _) fun _ => hp.setReg (Or.inr rfl) _ _
  | defCfaOffsetSf => exact Act.Keeps.bind (hp.onAddr _) fun _ => hp.setReg rfl _ _
  -- these are rejected
  | loUser => exact Act.Keeps.fail _
  | mipsAdvanceLoc8 => exact Act.Keeps.fail _
  | gnuWindowSave => exact Act.Keeps.fail _
  | gnuArgsSize => exact Act.Keeps.bind (hp.onAddr _) fun _ s => hp.argsSize s _
  | gnuNegativeOffsetExtended =>
    exact Act.Keeps.bind (hp.onAddr _) fun reg => Act.Keeps.bind (hp.onAddr _) fun _ =>
      hp.setColumn (fun i => i.isLt) reg _ _
  | hiUser => exact Act.Keeps.fail _

end View

/-! ### Turns -/

/-- The instruction that the next turn executes. -/
def CfiState.op (m : Mem) (s : CfiState) : Option DwCfa := DwCfa.ofByte (m s.addr)

section Turns

variable {m : Mem} {pi : ProcInfo} {dci : CieInfo} {s t u : CfiState} {ip e : Word}

theorem cfiTurn_of_some {op : DwCfa} (h : s.op m = some op) :
    cfiTurn m pi dci s = execCfa m pi dci op s.fetch := cfiTurn_of_op rfl h

/-- An opcode that the `switch` has no case for. -/
theorem cfiTurn_of_none (h : s.op m = none) : cfiTurn m pi dci s = (.ok (), s.fetch) := by
  have hread : dwarfReadu8 m s.addr = (.ok (m s.addr), s.addr + 1) := rfl
  unfold cfiTurn
  rw [Act.modify_bind, Act.bind_of_ok (cfi_onAddr_of_ok
    (s := { s with fetched := s.fetched ++ [s.addr] }) hread)]
  unfold CfiState.op at h
  rw [h]
  rfl

/-- `DW_CFA_restore_state` needs a row on the stack. -/
theorem restoreState_of_nil (h : s.rsStack = []) :
    execCfa m pi dci .restoreState s = (.err .einval, s) := by
  rw [execCfa, Act.get_bind, h]
  rfl

/-- `DW_CFA_restore_state` pops a row and returns its node. -/
theorem restoreState_of_cons {rs : RegState} {rest : List RegState} (h : s.rsStack = rs :: rest) :
    execCfa m pi dci .restoreState s =
      (.ok (), { s with
        sr := { s.sr with rsCurrent := rs }, rsStack := rest, pool := s.pool.free }) := by
  rw [execCfa, Act.get_bind, h]
  rfl

theorem restoreState_eq_ok (h : execCfa m pi dci .restoreState s = (.ok (), t)) :
    ∃ rs rest, s.rsStack = rs :: rest ∧
      t = { s with sr := { s.sr with rsCurrent := rs }, rsStack := rest, pool := s.pool.free } := by
  cases hrs : s.rsStack with
  | nil =>
    rw [restoreState_of_nil hrs] at h
    cases h
  | cons rs rest =>
    rw [restoreState_of_cons hrs] at h
    exact ⟨rs, rest, rfl, (congrArg Prod.snd h).symm⟩

/-- The turns that succeed fetch the opcodes at their addresses. -/
theorem turns_fetched {l : List CfiState}
    (h : Act.Turns (cfiGoesOn ip e) (cfiTurn m pi dci) s l t) :
    t.fetched = s.fetched ++ l.map CfiState.addr := by
  induction h with
  | nil => simp
  | @cons s t u l _ hbody _ ih =>
    -- each turn fetches one opcode, at the address it starts with
    have hturn := cfiTurn_fetched m pi dci s
    rw [hbody] at hturn
    rw [ih, hturn]
    simp

end Turns

/-- The addresses of the opcodes that a run fetches. -/
def fetchedBy (m : Mem) (pi : ProcInfo) (dci : CieInfo) (fuel : ℕ) (ip addr endAddr : Word)
    (r : RowState) : List Word :=
  (runCfiProgram m pi dci fuel ip addr endAddr r).2.fetched.drop r.fetched.length

/-- The instructions that a run executes, the last of which may have failed. -/
def opsOf (m : Mem) (pi : ProcInfo) (dci : CieInfo) (fuel : ℕ) (ip addr endAddr : Word)
    (r : RowState) : List (Option DwCfa) :=
  (fetchedBy m pi dci fuel ip addr endAddr r).map fun a => DwCfa.ofByte (m a)

/-- How a run ends after the turns that succeed, and which opcode it has fetched in vain. -/
inductive CfiEnd (m : Mem) (pi : ProcInfo) (dci : CieInfo) (t : CfiState) :
    Res UnwError Unit × CfiState → List Word → Prop
  | done : CfiEnd m pi dci t (.ok (), t) []
  | stop {o : Res UnwError Unit} {u : CfiState} (hturn : cfiTurn m pi dci t = (o, u))
      (ho : o ≠ .ok ()) : CfiEnd m pi dci t (o, u) [t.addr]
  | bound : CfiEnd m pi dci t (.diverge, t) []

/-- **A run, turn by turn.** -/
theorem runCfiProgram_turns (m : Mem) (pi : ProcInfo) (dci : CieInfo) (fuel : ℕ)
    (ip addr e : Word) (r : RowState) :
    ∃ l t q last, Act.Turns (cfiGoesOn ip e) (cfiTurn m pi dci) (CfiState.init pi addr r) l t ∧
      CfiEnd m pi dci t q last ∧
      runCfiProgram m pi dci fuel ip addr e r = (q.1, q.2.finish) ∧
      fetchedBy m pi dci fuel ip addr e r = l.map CfiState.addr ++ last := by
  obtain ⟨l, t, hturns, hend⟩ :=
    Act.loop_turns (cfiGoesOn ip e) (cfiTurn m pi dci) fuel (CfiState.init pi addr r)
  have hfetched : t.fetched = r.fetched ++ l.map CfiState.addr := turns_fetched hturns
  -- the list of all opcodes, with those that were there before
  have hdrop : ∀ (q : Res UnwError Unit × CfiState) (last : List Word),
      cfiLoop m pi dci fuel ip e (CfiState.init pi addr r) = q →
      q.2.fetched = t.fetched ++ last →
      fetchedBy m pi dci fuel ip addr e r = l.map CfiState.addr ++ last := by
    rintro q last rfl hq
    unfold fetchedBy runCfiProgram
    rw [Act.zoom_apply]
    change List.drop _ (cfiLoop m pi dci fuel ip e (CfiState.init pi addr r)).2.fetched = _
    rw [hq, hfetched, List.append_assoc, List.drop_left]
  rcases hrun : cfiLoop m pi dci fuel ip e (CfiState.init pi addr r) with ⟨o, u⟩
  -- what is still on the stack is dropped at the end
  have hprog : runCfiProgram m pi dci fuel ip addr e r = (o, u.finish) := by
    unfold runCfiProgram
    rw [Act.zoom_apply, hrun]
  have hend' : Act.LoopEnd (cfiGoesOn ip e) (cfiTurn m pi dci) t (o, u) := hrun ▸ hend
  cases hend' with
  | done _ => exact ⟨l, t, _, [], hturns, .done, hprog, hdrop _ _ hrun (List.append_nil _).symm⟩
  | stop _ hbody ho =>
    have hlast := cfiTurn_fetched m pi dci t
    rw [hbody] at hlast
    exact ⟨l, t, _, [t.addr], hturns, .stop hbody ho, hprog, hdrop _ _ hrun hlast⟩
  | bound => exact ⟨l, t, _, [], hturns, .bound, hprog, hdrop _ _ hrun (List.append_nil _).symm⟩

/-- The instructions of a run are those of its turns. -/
theorem opsOf_eq {m : Mem} {pi : ProcInfo} {dci : CieInfo} {fuel : ℕ} {ip addr e : Word}
    {r : RowState} {l : List CfiState} {last : List Word}
    (h : fetchedBy m pi dci fuel ip addr e r = l.map CfiState.addr ++ last) :
    opsOf m pi dci fuel ip addr e r =
      l.map (CfiState.op m) ++ last.map fun a => DwCfa.ofByte (m a) := by
  unfold opsOf
  rw [h, List.map_append, List.map_map]
  rfl

/-! ### Opcodes without a case -/

/-- The opcodes that the `switch` implements. The others it has a case for are rejected. -/
def DwCfa.implemented : DwCfa → Bool
  | .loUser | .mipsAdvanceLoc8 | .gnuWindowSave | .hiUser => false
  | _ => true

/-- The byte is an opcode that the `switch` implements. -/
def Implemented (op : Byte) : Prop := ∃ cfa, DwCfa.ofByte op = some cfa ∧ cfa.implemented = true

/-- The byte is an opcode that the `switch` has a case for. -/
def HasCase (op : Byte) : Prop := DwCfa.ofByte op ≠ none

instance HasCase.decidable (op : Byte) : Decidable (HasCase op) :=
  inferInstanceAs (Decidable (_ ≠ _))

/-- Every opcode that is not implemented ends the run with `-UNW_EINVAL`, so that nothing after
it is taken for an instruction. -/
def RejectsUnknown (m : Mem) (pi : ProcInfo) (dci : CieInfo) (fuel : ℕ) (ip addr e : Word)
    (r : RowState) : Prop :=
  ((runCfiProgram m pi dci fuel ip addr e r).1 = .ok () →
      ∀ a ∈ fetchedBy m pi dci fuel ip addr e r, Implemented (m a)) ∧
    ∀ pre a post, fetchedBy m pi dci fuel ip addr e r = pre ++ a :: post → ¬Implemented (m a) →
      (runCfiProgram m pi dci fuel ip addr e r).1 = .err .einval ∧ post = []

section Reject

variable {m : Mem} {pi : ProcInfo} {dci : CieInfo} {s t : CfiState}

/-- A turn with an opcode that is rejected. -/
theorem cfiTurn_of_not_implemented (hcase : HasCase (m s.addr)) (h : ¬Implemented (m s.addr)) :
    cfiTurn m pi dci s = (.err .einval, s.fetch) := by
  obtain ⟨cfa, hcfa⟩ := Option.ne_none_iff_exists'.1 hcase
  rw [cfiTurn_of_some hcfa]
  have hnot : cfa.implemented ≠ true := fun himpl => h ⟨cfa, hcfa, himpl⟩
  cases cfa <;> first | exact absurd rfl hnot | rfl

/-- The opcode of a turn that succeeds is implemented, if it has a case. -/
theorem implemented_of_turn (hcase : HasCase (m s.addr)) (h : cfiTurn m pi dci s = (.ok (), t)) :
    Implemented (m s.addr) := by
  by_contra hnot
  rw [cfiTurn_of_not_implemented hcase hnot] at h
  cases h

theorem hasCase_of_implemented {op : Byte} (h : Implemented op) : HasCase op := by
  obtain ⟨cfa, hcfa, -⟩ := h
  unfold HasCase
  rw [hcfa]
  exact Option.some_ne_none cfa

variable {q : Res UnwError Unit × CfiState} {last : List Word} {a : Word}

/-- At most one opcode is fetched in vain. -/
theorem CfiEnd.last_eq (h : CfiEnd m pi dci t q last) : last = [] ∨ ∃ a, last = [a] := by
  cases h with
  | done => exact Or.inl rfl
  | stop _ _ => exact Or.inr ⟨_, rfl⟩
  | bound => exact Or.inl rfl

/-- A turn without a case succeeds, so the opcode of a turn that fails has one. -/
theorem CfiEnd.hasCase (h : CfiEnd m pi dci t q [a]) : HasCase (m a) := by
  cases h with
  | stop hturn ho =>
    intro hnone
    rw [cfiTurn_of_none hnone] at hturn
    cases hturn
    exact ho rfl

/-- The run ends with `-UNW_EINVAL` at an opcode that is not implemented. -/
theorem CfiEnd.einval (h : CfiEnd m pi dci t q [a]) (hnot : ¬Implemented (m a)) :
    q.1 = .err .einval := by
  have hcase := h.hasCase
  cases h with
  | stop hturn ho =>
    rw [cfiTurn_of_not_implemented hcase hnot] at hturn
    cases hturn
    rfl

/-- An opcode that is not one of those of the turns that succeed is the last one. -/
theorem CfiEnd.eq_last (h : CfiEnd m pi dci t q last) {done pre post : List Word}
    (hsplit : done ++ last = pre ++ a :: post) (hdone : a ∉ done) : last = [a] ∧ post = [] := by
  rcases h.last_eq with rfl | ⟨b, rfl⟩
  · -- all turns have succeeded
    rw [List.append_nil] at hsplit
    exact absurd (by rw [hsplit]; simp) hdone
  · rcases List.eq_nil_or_concat post with rfl | ⟨post, c, rfl⟩
    · obtain ⟨-, hlast⟩ := List.append_inj' hsplit rfl
      exact ⟨hlast, rfl⟩
    · -- the last one comes after it, so it is among the others
      rw [List.concat_eq_append, ← List.cons_append, ← List.append_assoc] at hsplit
      obtain ⟨hothers, -⟩ := List.append_inj' hsplit rfl
      exact absurd (by rw [hothers]; simp) hdone

end Reject

/-- **Unknown opcodes** are rejected in the runs that fetch none the `switch` has no case
for. -/
theorem runCfiProgram_rejects_iff (m : Mem) (pi : ProcInfo) (dci : CieInfo) (fuel : ℕ)
    (ip addr e : Word) (r : RowState) :
    RejectsUnknown m pi dci fuel ip addr e r ↔
      ∀ a ∈ fetchedBy m pi dci fuel ip addr e r, HasCase (m a) := by
  obtain ⟨l, t, q, last, hturns, hend, hrun, hfetched⟩ :=
    runCfiProgram_turns m pi dci fuel ip addr e r
  unfold RejectsUnknown
  rw [hrun, hfetched]
  constructor
  · rintro ⟨-, hbad⟩ a ha
    by_contra hnone
    obtain ⟨pre, post, hsplit⟩ := List.append_of_mem ha
    obtain ⟨herr, rfl⟩ := hbad pre a post hsplit fun himpl => hnone (hasCase_of_implemented himpl)
    -- the last turn has failed, so it is not one that does nothing
    rcases hend.last_eq with rfl | ⟨b, rfl⟩
    · cases hend with
      | done => cases herr
      | bound => cases herr
    · obtain ⟨-, hlast⟩ := List.append_inj' hsplit rfl
      obtain ⟨rfl, -⟩ := List.cons.inj hlast
      exact hnone hend.hasCase
  · intro hcase
    -- no opcode of a turn that has succeeded is rejected
    have hdone : ∀ a ∈ l.map CfiState.addr, Implemented (m a) := by
      intro a ha
      obtain ⟨w, hw, rfl⟩ := List.mem_map.1 ha
      obtain ⟨w', hturn⟩ := hturns.body_eq hw
      exact implemented_of_turn (hcase _ (List.mem_append_left _ ha)) hturn
    constructor
    · intro hok a ha
      rcases List.mem_append.1 ha with ha | ha
      · exact hdone a ha
      · cases hend with
        | done => cases ha
        | bound => cases ha
        | stop _ ho => exact absurd hok ho
    · intro pre a post hsplit hnot
      obtain ⟨rfl, rfl⟩ := hend.eq_last hsplit fun hmem => hnot (hdone a hmem)
      exact ⟨hend.einval hnot, rfl⟩

/-- The instruction `DW_CFA_val_offset r14, 16`, at `0x9000`. -/
def valOffsetMem : Mem := fun a => ([0x14, 0x0e, 0x10] : List Byte).getD (a - 0x9000).toNat 0

def blankRow : RowState := ⟨StateRecord.init, ⟨0, 0⟩, []⟩

/-- The opcode is skipped, and its operands are executed as `DW_CFA_def_cfa_offset 16`. -/
theorem val_offset_skipped :
    (runCfiProgram valOffsetMem ProcInfo.zero CieInfo.zero 4 (BitVec.allOnes 64) 0x9000 0x9003
        blankRow).1 = .ok () ∧
      fetchedBy valOffsetMem ProcInfo.zero CieInfo.zero 4 (BitVec.allOnes 64) 0x9000 0x9003
        blankRow = [0x9000, 0x9001] ∧
      ¬RejectsUnknown valOffsetMem ProcInfo.zero CieInfo.zero 4 (BitVec.allOnes 64) 0x9000 0x9003
        blankRow := by
  have hrun : (runCfiProgram valOffsetMem ProcInfo.zero CieInfo.zero 4 (BitVec.allOnes 64) 0x9000
      0x9003 blankRow).1 = .ok () := by decide +kernel
  have hfetched : fetchedBy valOffsetMem ProcInfo.zero CieInfo.zero 4 (BitVec.allOnes 64) 0x9000
      0x9003 blankRow = [0x9000, 0x9001] := by decide +kernel
  refine ⟨hrun, hfetched, fun h => ?_⟩
  obtain ⟨cfa, hcfa, -⟩ := h.1 hrun 0x9000 (by rw [hfetched]; decide)
  cases hcfa

end LibunwindKern
