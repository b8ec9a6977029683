import LibunwindKern.Dwarf.ExprCommands
import LibunwindKern.Dwarf.Parser

/-!
# How `dwarf_step` ends

`unw_step` goes on after `dwarf_step` has returned `-UNW_ENOINFO`, from the cursor that
`dwarf_step` left. `dwarfStep_of_enoinfo` says that the frame in that cursor is still the
one before the call. The two halves of the argument follow the two halves of
`uncached_dwarf_find_save_locs`: the search and the CFI programs write no part of the
frame (`Keeps`), and nothing after them returns this error code (`Avoids`).

`StepsTo` is the record of a successful step, and `dwarfStep_eq_ok` and
`dwarfStep_of_stepsTo` go from the step to the record and back.
-/

namespace LibunwindKern

open CProg ByteMem Unw

/-- The part of the cursor that says which frame it is at. -/
def frameOf (s : St) : Word × Word × (Fin dwarfNumPreservedRegs → Word) := (s.c.ip, s.c.cfa, s.c.loc)

/-! ### The search and the CFI programs leave the frame alone -/

theorem setCursor_keeps {f : Cursor → Cursor}
    (h : ∀ c, (f c).ip = c.ip ∧ (f c).cfa = c.cfa ∧ (f c).loc = c.loc) :
    Act.Keeps frameOf (setCursor f) := by
  intro s
  obtain ⟨hip, hcfa, hloc⟩ := h s.c
  change ((f s.c).ip, (f s.c).cfa, (f s.c).loc) = _
  rw [hip, hcfa, hloc]
  rfl

theorem onPi_keeps {α : Type} (x : Act UnwError PiState α) : Act.Keeps frameOf (onPi x) :=
  fun _ => rfl

theorem updateUsePrevInstr_keeps (need : Bool) : Act.Keeps frameOf (updateUsePrevInstr need) := by
  refine Act.Keeps.bind Act.Keeps.get (fun s => ?_)
  split
  · exact setCursor_keeps fun c => ⟨rfl, rfl, rfl⟩
  · exact Act.Keeps.pure _

theorem fetchDone_keeps (need dynamic : Bool) (ret : Except UnwError Unit) :
    Act.Keeps frameOf (fetchDone need dynamic ret) := by
  refine Act.Keeps.bind Act.Keeps.get (fun s => ?_)
  split
  · exact Act.Keeps.fail _
  · refine Act.Keeps.bind (setCursor_keeps fun c => ⟨rfl, rfl, rfl⟩) (fun _ => ?_)
    refine Act.Keeps.bind (updateUsePrevInstr_keeps need) (fun _ => ?_)
    split
    · exact Act.Keeps.pure _
    · exact Act.Keeps.fail _

theorem fetchProcInfo_keeps (k : Kernel) (m : Mem) (ip : Word) (need : Bool) :
    Act.Keeps frameOf (fetchProcInfo k m ip need) := by
  refine Act.Keeps.bind Act.Keeps.get (fun s => ?_)
  split
  · exact Act.Keeps.pure _
  · refine Act.Keeps.bind (setCursor_keeps fun c => ⟨rfl, rfl, rfl⟩) (fun _ => ?_)
    refine Act.Keeps.bind (Act.Keeps.attempt (onPi_keeps _)) (fun ret => ?_)
    split
    · exact Act.Keeps.bind (onPi_keeps _) (fun _ => fetchDone_keeps _ _ _)
    · exact fetchDone_keeps _ _ _

theorem parseFde_keeps (m : Mem) (fuel : ℕ) (ip : Word) :
    Act.Keeps frameOf (parseFde m fuel ip) := by
  refine Act.Keeps.bind Act.Keeps.get (fun s => ?_)
  split
  · refine Act.Keeps.bind (setCursor_keeps fun c => ⟨rfl, rfl, rfl⟩) (fun _ => ?_)
    exact fun _ => rfl
  · exact Act.Keeps.lift _

theorem createStateRecordFor_keeps (m : Mem) (fuel : ℕ) (ip : Word) :
    Act.Keeps frameOf (createStateRecordFor m fuel ip) := by
  refine Act.Keeps.bind Act.Keeps.get (fun s => ?_)
  split
  · split
    · exact parseFde_keeps m fuel ip
    · exact parseFde_keeps m fuel ip
    · exact Act.Keeps.fail _
  · exact Act.Keeps.lift _

/-! ### Reading registers and evaluating expressions never returns `-UNW_ENOINFO` -/

section Avoids

variable (v : Validator) (m : Mem) (c : Cursor)

theorem accessMem_avoids (validate : Bool) (addr : Word) :
    Act.Avoids .enoinfo (accessMem v m validate addr) := by
  intro g
  unfold accessMem
  split_ifs <;> exact nofun

theorem dwarfGet_avoids (loc : Word) : Act.Avoids .enoinfo (dwarfGet v m c loc) := by
  unfold dwarfGet
  split_ifs
  · exact Act.Avoids.fail nofun
  · exact accessMem_avoids v m _ _

theorem unwGetReg_avoids (regnum : ℕ) : Act.Avoids .enoinfo (unwGetReg v m c regnum) := by
  unfold unwGetReg tdepAccessReg
  split_ifs
  · exact Act.Avoids.pure _
  · exact Act.Avoids.pure _
  · exact Act.Avoids.pure _
  · exact dwarfGet_avoids v m c _
  · exact dwarfGet_avoids v m c _
  · exact Act.Avoids.fail nofun

theorem dwarfToUnwRegnum_ne_enoinfo (reg : Word) : dwarfToUnwRegnum reg ≠ .err .enoinfo := by
  unfold dwarfToUnwRegnum
  split_ifs <;> exact nofun

theorem readLebGroups_avoids : ∀ (fuel : ℕ) (val shift : Word),
    Act.Avoids .enoinfo (readLebGroups m fuel val shift)
  | 0, _, _ => Act.Avoids.lift nofun
  | fuel + 1, val, shift => by
    refine Act.Avoids.bind (fun _ => nofun) (fun byte => ?_)
    split
    · exact readLebGroups_avoids fuel _ _
    · exact Act.Avoids.pure _

theorem dwarfReadUleb128_avoids : Act.Avoids .enoinfo (dwarfReadUleb128 m) :=
  Act.Avoids.bind (readLebGroups_avoids m _ _ _) (fun _ => Act.Avoids.pure _)

theorem dwarfReadSleb128_avoids : Act.Avoids .enoinfo (dwarfReadSleb128 m) := by
  refine Act.Avoids.bind (readLebGroups_avoids m _ _ _) (fun r => ?_)
  split
  · exact Act.Avoids.pure _
  · exact Act.Avoids.pure _

theorem readOperand_avoids (t : OperandType) : Act.Avoids .enoinfo (readOperand m t) := by
  cases t with
  | val8 => exact Act.Avoids.bind (fun _ => nofun) (fun _ => Act.Avoids.pure _)
  | val16 => exact Act.Avoids.bind (fun _ => nofun) (fun _ => Act.Avoids.pure _)
  | val32 => exact Act.Avoids.bind (fun _ => nofun) (fun _ => Act.Avoids.pure _)
  | val64 => exact fun _ => nofun
  | uleb128 => exact dwarfReadUleb128_avoids m
  | sleb128 => exact dwarfReadSleb128_avoids m
  | offset => exact Act.Avoids.fail nofun
  | addr => exact fun _ => nofun

theorem entry_avoids (index : BitVec 32) : Act.Avoids .enoinfo (Eval.entry index) := by
  refine Act.Avoids.bind Act.Avoids.get (fun s => ?_)
  split
  · split
    · exact Act.Avoids.pure _
    · exact Act.Avoids.lift nofun
  · exact Act.Avoids.fail nofun

theorem pop_avoids : Act.Avoids .enoinfo Eval.pop :=
  Act.Avoids.bind Act.Avoids.get fun _ => Act.Avoids.bind (entry_avoids _) fun _ =>
    Act.Avoids.bind (Act.Avoids.modify _) fun _ => Act.Avoids.pure _

theorem push_avoids (val : Word) : Act.Avoids .enoinfo (Eval.push val) := by
  refine Act.Avoids.bind Act.Avoids.get (fun s => ?_)
  split
  · exact Act.Avoids.modify _
  · exact Act.Avoids.fail nofun

theorem pick_avoids (n : Word) : Act.Avoids .enoinfo (Eval.pick n) :=
  Act.Avoids.bind Act.Avoids.get fun _ => entry_avoids _

/-- No command of an operation fails with this error. -/
theorem execCmd_avoids {β : Type} (cmd : ExprCmd β) :
    Act.Avoids .enoinfo (execCmd v m c cmd) := by
  have hite : ∀ {p : Prop} [Decidable p] {x y : Res UnwError Word}, x ≠ .err .enoinfo →
      y ≠ .err .enoinfo → Act.Avoids .enoinfo (Act.lift (if p then x else y) : Eval Word) := by
    intro p _ x y hx hy
    apply Act.Avoids.lift
    split
    · exact hx
    · exact hy
  cases cmd with
  | pop => exact pop_avoids
  | push val => exact push_avoids val
  | pick n => exact pick_avoids n
  | room =>
    refine Act.Avoids.bind Act.Avoids.get fun s => ?_
    split
    · exact Act.Avoids.pure _
    · exact Act.Avoids.fail nofun
  | regnum reg => exact Act.Avoids.lift (dwarfToUnwRegnum_ne_enoinfo reg)
  | getReg n => exact Act.Avoids.zoom (unwGetReg_avoids v m c n)
  | setOperand1 val => exact Act.Avoids.modify _
  | branch => exact Act.Avoids.modify _
  | einval => exact Act.Avoids.fail nofun
  -- the division and the shifts, which can be undefined
  | _ => exact hite nofun nofun

/-- **An operation** is made of these commands. -/
theorem execOp_avoids (op : DwOp) : Act.Avoids .enoinfo (execOp v m c op) := by
  intro s
  rw [← opProgram_run]
  exact (opProgram_has m op s.operand1 s.operand2).run_of (Act.Avoids UnwError.enoinfo)
    Act.Avoids.pure Act.Avoids.bind (fun cmd _ => execCmd_avoids v m c cmd) s

theorem readOperands_avoids (op : DwOp) : Act.Avoids .enoinfo (readOperands m op) := by
  unfold readOperands
  split
  · exact Act.Avoids.pure _
  · exact Act.Avoids.bind (Act.Avoids.zoom (readOperand_avoids m _)) fun _ => Act.Avoids.modify _
  · exact Act.Avoids.bind (Act.Avoids.zoom (readOperand_avoids m _)) fun _ =>
      Act.Avoids.bind (Act.Avoids.modify _) fun _ =>
        Act.Avoids.bind (Act.Avoids.zoom (readOperand_avoids m _)) fun _ => Act.Avoids.modify _

theorem evalTurn_avoids (endAddr : Word) (i : Unit) :
    Act.Avoids .enoinfo (evalTurn v m c endAddr i) := by
  refine Act.Avoids.bind Act.Avoids.get (fun s => ?_)
  split
  · refine Act.Avoids.bind (Act.Avoids.modify _) (fun _ => ?_)
    refine Act.Avoids.bind (Act.Avoids.zoom fun _ => nofun) (fun opcode => ?_)
    split
    · exact Act.Avoids.fail nofun
    · refine Act.Avoids.bind (readOperands_avoids m _) (fun _ => ?_)
      refine Act.Avoids.bind (execOp_avoids v m c _) (fun r => ?_)
      split
      · exact Act.Avoids.pure _
      · exact Act.Avoids.pure _
  · exact Act.Avoids.bind pop_avoids fun _ => Act.Avoids.pure _

theorem dwarfEvalExpr_avoids (fuel : ℕ) (addr len : Word) :
    Act.Avoids .enoinfo (dwarfEvalExpr v m c fuel addr len) :=
  Act.Avoids.zoom (Act.Avoids.bind (push_avoids _) fun _ =>
    Act.Avoids.iter (evalTurn_avoids v m c _) fuel ())

/-! ### Applying a row never returns `-UNW_ENOINFO` -/

theorem read_avoids {α : Type} {x : Cursor → Act UnwError Lga α}
    (h : ∀ c, Act.Avoids .enoinfo (x c)) : Act.Avoids .enoinfo (read x) :=
  Act.Avoids.bind Act.Avoids.get fun s => Act.Avoids.zoom (h s.c)

variable (fuel : ℕ) (rs : RegState)

theorem evalLocationExpr_avoids (addr : Word) :
    Act.Avoids .enoinfo (evalLocationExpr v m fuel addr) := by
  refine Act.Avoids.bind Act.Avoids.get (fun s => ?_)
  split
  · refine Act.Avoids.bind (read_avoids fun c => dwarfEvalExpr_avoids v m c fuel _ _) (fun r => ?_)
    split
    · exact Act.Avoids.bind (Act.Avoids.lift (dwarfToUnwRegnum_ne_enoinfo _)) fun _ =>
        Act.Avoids.pure _
    · exact Act.Avoids.pure _
  · exact Act.Avoids.lift nofun

theorem evalCfa_avoids : Act.Avoids .enoinfo (evalCfa v m fuel rs) := by
  refine Act.Avoids.bind Act.Avoids.get (fun s => ?_)
  split
  · split
    · exact Act.Avoids.pure _
    · refine Act.Avoids.bind (Act.Avoids.lift (dwarfToUnwRegnum_ne_enoinfo _)) (fun regnum => ?_)
      exact Act.Avoids.bind (read_avoids fun c => unwGetReg_avoids v m c _) fun _ =>
        Act.Avoids.pure _
  · exact Act.Avoids.bind (evalLocationExpr_avoids v m fuel _) fun _ => Act.Avoids.pure _
  · exact Act.Avoids.lift nofun

theorem applyRule_avoids (cfa : Word) (i : Fin dwarfNumPreservedRegs) :
    Act.Avoids .enoinfo (applyRule v m fuel rs cfa i) := by
  refine Act.Avoids.bind Act.Avoids.get (fun s => ?_)
  split
  · exact Act.Avoids.modify _
  · exact Act.Avoids.pure _
  · exact Act.Avoids.modify _
  · exact Act.Avoids.bind (Act.Avoids.lift (dwarfToUnwRegnum_ne_enoinfo _)) fun _ =>
      Act.Avoids.modify _
  · exact Act.Avoids.bind (evalLocationExpr_avoids v m fuel _) fun _ => Act.Avoids.modify _

theorem applyRules_avoids (cfa : Word) : ∀ is : List (Fin dwarfNumPreservedRegs),
    Act.Avoids .enoinfo (applyRules v m fuel rs cfa is)
  | [] => Act.Avoids.pure _
  | i :: is => Act.Avoids.bind (applyRule_avoids v m fuel rs cfa i) fun _ => applyRules_avoids cfa is

theorem readReturnAddress_avoids : Act.Avoids .enoinfo (readReturnAddress v m) := by
  refine Act.Avoids.bind Act.Avoids.get (fun s => ?_)
  split
  · split
    · exact Act.Avoids.pure _
    · exact read_avoids fun c => dwarfGet_avoids v m c _
  · exact Act.Avoids.lift nofun

theorem finishFrame_avoids (prevIp prevCfa : Word) :
    Act.Avoids .enoinfo (finishFrame rs prevIp prevCfa) := by
  refine Act.Avoids.bind Act.Avoids.get (fun s => ?_)
  split
  · -- the same frame again is `-UNW_EBADFRAME`
    exact Act.Avoids.fail nofun
  · split
    · refine Act.Avoids.bind Act.Avoids.get (fun s => ?_)
      split
      · split
        · exact Act.Avoids.modify _
        · split
          · exact Act.Avoids.lift nofun
          · exact Act.Avoids.pure _
      · exact Act.Avoids.lift nofun
    · exact Act.Avoids.pure _

theorem applyRegState_avoids : Act.Avoids .enoinfo (applyRegState v m fuel rs) := by
  refine Act.Avoids.bind Act.Avoids.get (fun s => ?_)
  refine Act.Avoids.bind (evalCfa_avoids v m fuel rs) (fun cfa => ?_)
  refine Act.Avoids.bind (applyRules_avoids v m fuel rs cfa _) (fun _ => ?_)
  refine Act.Avoids.bind (Act.Avoids.modify _) (fun _ => ?_)
  refine Act.Avoids.bind (readReturnAddress_avoids v m) (fun ip => ?_)
  exact Act.Avoids.bind (Act.Avoids.modify _) fun _ => finishFrame_avoids rs _ _

end Avoids

theorem putUnwindInfo_avoids : Act.Avoids .enoinfo putUnwindInfo := by
  refine Act.Avoids.bind Act.Avoids.get (fun s => ?_)
  split
  · exact Act.Avoids.modify _
  · exact Act.Avoids.pure _

/-! ### Running the CFI programs never returns `-UNW_ENOINFO` -/

section Row

variable (m : Mem)

theorem readEncodedFormat_avoids (format : Byte) :
    Act.Avoids .enoinfo (readEncodedFormat m format) :=
  readEncodedFormat_cases m (P := fun _ x => Act.Avoids .enoinfo x) (fun _ => nofun)
    (dwarfReadUleb128_avoids m) (fun _ => nofun) (fun _ => nofun) (fun _ => nofun)
    (dwarfReadUleb128_avoids m) (fun _ => nofun) (fun _ => nofun) (fun _ => nofun)
    (fun _ => Act.Avoids.fail nofun) format

theorem applyEncoding_ne_enoinfo (appl : Byte) (val initialAddr : Word) (pi : ProcInfo) :
    applyEncoding appl val initialAddr pi ≠ .err .enoinfo := by
  unfold applyEncoding
  split_ifs <;> simp

theorem dwarfReadEncodedPointer_avoids (encoding : Byte) (pi : ProcInfo) :
    Act.Avoids .enoinfo (dwarfReadEncodedPointer m encoding pi) := by
  refine Act.Avoids.bind Act.Avoids.get fun initialAddr => ?_
  split
  · exact Act.Avoids.pure _
  · split
    · exact Act.Avoids.bind (Act.Avoids.modify _) fun _ _ => nofun
    · refine Act.Avoids.bind (readEncodedFormat_avoids m _) fun val => ?_
      split
      · exact Act.Avoids.pure _
      · refine Act.Avoids.bind (Act.Avoids.lift (applyEncoding_ne_enoinfo _ _ _ _)) fun val => ?_
        split
        · exact Act.Avoids.pure _
        · exact Act.Avoids.pure _

theorem readRegnum_avoids : Act.Avoids .enoinfo (readRegnum m) := by
  refine Act.Avoids.bind (dwarfReadUleb128_avoids m) fun val => ?_
  split
  · exact Act.Avoids.pure _
  · exact Act.Avoids.fail nofun

theorem CfaOperand.avoids {m : Mem} {pi : ProcInfo} {dci : CieInfo} {α : Type} {x : Reader α}
    (h : CfaOperand m pi dci x) : Act.Avoids .enoinfo x := by
  cases h with
  | u8 => exact fun _ => nofun
  | u16 => exact fun _ => nofun
  | u32 => exact fun _ => nofun
  | uleb => exact dwarfReadUleb128_avoids m
  | sleb => exact dwarfReadSleb128_avoids m
  | regnum => exact readRegnum_avoids m
  | pointer => exact dwarfReadEncodedPointer_avoids m _ _

theorem execCfa_avoids (pi : ProcInfo) (dci : CieInfo) (op : DwCfa) :
    Act.Avoids .enoinfo (execCfa m pi dci op) := by
  have hclosed : CfaClosed m pi dci fun _ x => Act.Avoids .enoinfo x :=
    { pure := fun _ => Act.Avoids.pure _
      get := Act.Avoids.get
      bind := fun hx hf => Act.Avoids.bind hx hf
      read := fun hx => Act.Avoids.zoom hx.avoids
      modify := fun _ => Act.Avoids.modify _
      einval := Act.Avoids.fail nofun
      ebadreg := Act.Avoids.fail nofun }
  exact hclosed.execCfa op

theorem cfiTurn_avoids (pi : ProcInfo) (dci : CieInfo) :
    Act.Avoids .enoinfo (cfiTurn m pi dci) := by
  refine Act.Avoids.bind (Act.Avoids.modify _) fun _ => ?_
  refine Act.Avoids.bind (Act.Avoids.zoom fun _ => nofun) fun op => ?_
  split
  · exact Act.Avoids.pure _
  · exact execCfa_avoids m pi dci _

theorem runCfiProgram_avoids (pi : ProcInfo) (dci : CieInfo) (fuel : ℕ) (ip addr endAddr : Word) :
    Act.Avoids .enoinfo (runCfiProgram m pi dci fuel ip addr endAddr) :=
  Act.Avoids.zoom (Act.Avoids.loop (cfiTurn_avoids m pi dci) fuel)

theorem parseFde_avoids (fuel : ℕ) (ip : Word) : Act.Avoids .enoinfo (parseFde m fuel ip) := by
  refine Act.Avoids.bind Act.Avoids.get fun s => ?_
  split
  · refine Act.Avoids.bind (Act.Avoids.modify _) fun _ => Act.Avoids.zoom ?_
    refine Act.Avoids.bind ?_ fun _ => Act.Avoids.bind Act.Avoids.get fun _ => Act.Avoids.pure _
    exact Act.Avoids.bind (runCfiProgram_avoids m _ _ _ _ _ _) fun _ =>
      Act.Avoids.bind (Act.Avoids.modify _) fun _ => runCfiProgram_avoids m _ _ _ _ _ _
  · exact Act.Avoids.lift nofun

theorem createStateRecordFor_avoids (fuel : ℕ) (ip : Word) :
    Act.Avoids .enoinfo (createStateRecordFor m fuel ip) := by
  refine Act.Avoids.bind Act.Avoids.get fun s => ?_
  split
  · split
    · exact parseFde_avoids m fuel ip
    · exact parseFde_avoids m fuel ip
    · exact Act.Avoids.fail nofun
  · exact Act.Avoids.lift nofun

end Row

/-! ### How the step ends -/

/-- The search and the CFI programs of `uncached_dwarf_find_save_locs`: the row of the
frame. -/
def findRow (k : Kernel) (m : Mem) (fuel : ℕ) : Unw StateRecord := do
  let s ← Act.get
  fetchProcInfo k m s.c.ip true
  let s ← Act.get
  createStateRecordFor m fuel s.c.ip

theorem findRow_keeps (k : Kernel) (m : Mem) (fuel : ℕ) : Act.Keeps frameOf (findRow k m fuel) :=
  Act.Keeps.bind Act.Keeps.get fun _ => Act.Keeps.bind (fetchProcInfo_keeps k m _ true) fun _ =>
    Act.Keeps.bind Act.Keeps.get fun _ => createStateRecordFor_keeps m fuel _

/-- `put_unwind_info` changes the unwind info and the pool it came from. -/
theorem putUnwindInfo_keeps {τ : Type} {p : St → τ}
    (h : ∀ s : St, p { s with
      c := { s.c with pi := { s.c.pi with unwindInfo := .null } }
      ciePool := s.ciePool.free } = p s) : Act.Keeps p putUnwindInfo := by
  refine Act.Keeps.bind Act.Keeps.get (fun s => ?_)
  split
  · exact Act.Keeps.modify h
  · exact Act.Keeps.pure _

/-- `put_unwind_info` always returns. -/
theorem putUnwindInfo_ok (s : St) : ∃ t, putUnwindInfo s = (.ok (), t) := by
  unfold putUnwindInfo
  rw [Act.get_bind]
  split
  · exact ⟨_, rfl⟩
  · exact ⟨s, rfl⟩

section Step

variable {k : Kernel} {v : Validator} {m : Mem} {fuel : ℕ} {s t : St}

/-- `dwarf_step` finds the row of the frame and applies it. -/
theorem dwarfStep_eq (k : Kernel) (v : Validator) (m : Mem) (fuel : ℕ) :
    dwarfStep k v m fuel = findRow k m fuel >>= fun sr =>
      applyRegState v m fuel sr.rsCurrent >>= fun _ =>
        putUnwindInfo >>= fun _ =>
          setCursor (fun c => { c with piValid := false }) >>= fun _ => pure 1 := by
  unfold dwarfStep uncachedDwarfFindSaveLocs findRow
  simp only [Act.bind_assoc]

/-- **No unwind info.** A step that returns `-UNW_ENOINFO` has failed in the lookup. -/
theorem fetchProcInfo_of_enoinfo (h : dwarfStep k v m fuel s = (.err .enoinfo, t)) :
    fetchProcInfo k m s.c.ip true s = (.err .enoinfo, t) := by
  rw [dwarfStep_eq] at h
  -- what follows the row, as one call
  have havoid : ∀ sr : StateRecord, Act.Avoids .enoinfo
      (applyRegState v m fuel sr.rsCurrent >>= fun _ => putUnwindInfo >>= fun _ =>
        setCursor (fun c => { c with piValid := false }) >>= fun _ => pure 1) := fun sr =>
    Act.Avoids.bind (applyRegState_avoids v m fuel _) fun _ =>
      Act.Avoids.bind putUnwindInfo_avoids fun _ =>
        Act.Avoids.bind (Act.Avoids.modify _) fun _ => Act.Avoids.pure _
  obtain hrow | ⟨sr, s', -, happly⟩ := Act.bind_eq_err h
  · unfold findRow at hrow
    rw [Act.get_bind] at hrow
    obtain hfetch | ⟨⟨⟩, s', -, hcreate⟩ := Act.bind_eq_err hrow
    · exact hfetch
    · -- the row is not found for other reasons
      rw [Act.get_bind] at hcreate
      exact absurd (congrArg Prod.fst hcreate) (createStateRecordFor_avoids m fuel _ s')
  · -- nothing after the row is known returns this code
    exact absurd (congrArg Prod.fst happly) (havoid sr s')

/-- A step that returns `-UNW_ENOINFO` leaves the frame as it was. -/
theorem dwarfStep_of_enoinfo (h : dwarfStep k v m fuel s = (.err .enoinfo, t)) :
    frameOf t = frameOf s :=
  (fetchProcInfo_keeps k m s.c.ip true).run (fetchProcInfo_of_enoinfo h)

/-! A step that succeeds has found a row, a CFA and the save locations of the caller, and
has read a return address through them. -/

theorem tdepStashFrame_keeps (rs : RegState) : Act.Keeps frameOf (tdepStashFrame rs) := by
  refine Act.Keeps.bind Act.Keeps.get (fun s => ?_)
  split
  · split
    · exact setCursor_keeps fun c => ⟨rfl, rfl, rfl⟩
    · split
      · exact Act.Keeps.lift _
      · exact Act.Keeps.pure _
  · exact Act.Keeps.lift _

theorem finishFrame_keeps (rs : RegState) (prevIp prevCfa : Word) :
    Act.Keeps frameOf (finishFrame rs prevIp prevCfa) := by
  refine Act.Keeps.bind Act.Keeps.get (fun s => ?_)
  split
  · exact Act.Keeps.fail _
  · split
    · exact tdepStashFrame_keeps rs
    · exact Act.Keeps.pure _

/-- A frame that is accepted is not the one before it. -/
theorem finishFrame_changes {rs : RegState} {prevIp prevCfa : Word}
    (h : finishFrame rs prevIp prevCfa s = (.ok (), t)) :
    ¬(s.c.ip = prevIp ∧ s.c.cfa = prevCfa) := by
  intro heq
  unfold finishFrame at h
  rw [Act.get_bind, if_pos heq] at h
  cases h

section Views

variable {α β : Type} {f : St → β} (hf : ∀ (s : St) (g : Lga), f { s with lga := g } = f s)
include hf

/-- A read is not seen by a view that does not see the page cache. -/
theorem read_keeps (x : Cursor → Act UnwError Lga α) : Act.Keeps f (read x) :=
  Act.Keeps.bind Act.Keeps.get fun _ s => hf s _

theorem readReturnAddress_keeps (v : Validator) (m : Mem) :
    Act.Keeps f (readReturnAddress v m) := by
  refine Act.Keeps.bind Act.Keeps.get (fun s => ?_)
  split
  · split
    · exact Act.Keeps.pure _
    · exact read_keeps hf _
  · exact Act.Keeps.lift _

end Views

/-- The state in which the return address is read: the save locations of `s`, and the new
CFA. -/
def withCfa (s : St) (cfa : Word) : St := { s with c := { s.c with cfa := cfa } }

/-- The state in which the new frame is compared with the old one. -/
def withIp (s : St) (ip : Word) : St := { s with c := { s.c with ip := ip } }

/-- What a successful `dwarf_step` went through: the row, the CFA, the save locations,
the return address, and the test that the frame is a new one. -/
structure StepsTo (k : Kernel) (v : Validator) (m : Mem) (fuel : ℕ) (s : St) (sr : StateRecord)
    (cfa ip : Word) (s₁ s₂ s₃ s₄ s₅ : St) : Prop where
  row : findRow k m fuel s = (.ok sr, s₁)
  evaluated : evalCfa v m fuel sr.rsCurrent s₁ = (.ok cfa, s₂)
  locs : applyRules v m fuel sr.rsCurrent cfa (List.finRange dwarfNumPreservedRegs) s₂ =
    (.ok (), s₃)
  ret : readReturnAddress v m (withCfa s₃ cfa) = (.ok ip, s₄)
  accepted : finishFrame sr.rsCurrent s.c.ip s.c.cfa (withIp s₄ ip) = (.ok (), s₅)

/-- **A successful step**, taken apart. -/
theorem dwarfStep_eq_ok {n : ℕ} (h : dwarfStep k v m fuel s = (.ok n, t)) :
    n = 1 ∧ ∃ sr cfa ip s₁ s₂ s₃ s₄ s₅, StepsTo k v m fuel s sr cfa ip s₁ s₂ s₃ s₄ s₅ ∧
      frameOf t = (ip, cfa, s₃.c.loc) := by
  rw [dwarfStep_eq] at h
  obtain ⟨sr, s₁, hrow, h⟩ := Act.bind_eq_ok h
  obtain ⟨⟨⟩, s₅, happly, h⟩ := Act.bind_eq_ok h
  obtain ⟨⟨⟩, s₆, hput, h⟩ := Act.bind_eq_ok h
  cases h
  -- the parts of `apply_reg_state`, in order
  unfold applyRegState at happly
  rw [Act.get_bind] at happly
  obtain ⟨cfa, s₂, hcfa, happly⟩ := Act.bind_eq_ok happly
  obtain ⟨⟨⟩, s₃, hlocs, happly⟩ := Act.bind_eq_ok happly
  obtain ⟨⟨⟩, s₃', hset, happly⟩ := Act.bind_eq_ok happly
  cases hset
  obtain ⟨ip, s₄, hret, happly⟩ := Act.bind_eq_ok happly
  obtain ⟨⟨⟩, s₄', hset, happly⟩ := Act.bind_eq_ok happly
  cases hset
  -- the frame the row was found for is the frame of the call
  have hframe : frameOf s₁ = frameOf s := (findRow_keeps k m fuel).run hrow
  have hip : s₁.c.ip = s.c.ip := congrArg Prod.fst hframe
  have hcfa' : s₁.c.cfa = s.c.cfa := congrArg (fun f => f.2.1) hframe
  rw [hip, hcfa'] at happly
  refine ⟨rfl, sr, cfa, ip, s₁, s₂, s₃, s₄, s₅, ⟨hrow, hcfa, hlocs, hret, happly⟩, ?_⟩
  have h₄ : frameOf s₄ = frameOf (withCfa s₃ cfa) :=
    (readReturnAddress_keeps (f := frameOf) (fun _ _ => rfl) v m).run hret
  have h₅ : frameOf s₅ = frameOf (withIp s₄ ip) :=
    (finishFrame_keeps sr.rsCurrent s.c.ip s.c.cfa).run happly
  have h₆ : frameOf s₆ = frameOf s₅ :=
    (putUnwindInfo_keeps fun _ => rfl : Act.Keeps frameOf putUnwindInfo).run hput
  have hcfa₄ : s₄.c.cfa = cfa := congrArg (fun f => f.2.1) h₄
  have hloc₄ : s₄.c.loc = s₃.c.loc := congrArg (fun f => f.2.2) h₄
  change frameOf s₆ = _
  rw [h₆, h₅]
  change (ip, s₄.c.cfa, s₄.c.loc) = _
  rw [hcfa₄, hloc₄]

/-- **A successful step**, put together. -/
theorem dwarfStep_of_stepsTo {sr : StateRecord} {cfa ip : Word} {s₁ s₂ s₃ s₄ s₅ : St}
    (h : StepsTo k v m fuel s sr cfa ip s₁ s₂ s₃ s₄ s₅) :
    ∃ t, dwarfStep k v m fuel s = (.ok 1, t) := by
  have hframe : frameOf s₁ = frameOf s := (findRow_keeps k m fuel).run h.row
  have hip : s₁.c.ip = s.c.ip := congrArg Prod.fst hframe
  have hcfa : s₁.c.cfa = s.c.cfa := congrArg (fun f => f.2.1) hframe
  -- the row is applied to the frame the search has left unchanged
  have happly : applyRegState v m fuel sr.rsCurrent s₁ = (.ok (), s₅) := by
    unfold applyRegState
    rw [Act.get_bind, Act.bind_of_ok h.evaluated, Act.bind_of_ok h.locs]
    change (readReturnAddress v m >>= _) (withCfa s₃ cfa) = _
    rw [Act.bind_of_ok h.ret]
    change finishFrame _ s₁.c.ip s₁.c.cfa (withIp s₄ ip) = _
    rw [hip, hcfa, h.accepted]
  obtain ⟨s₆, hput⟩ := putUnwindInfo_ok s₅
  refine ⟨{ s₆ with c := { s₆.c with piValid := false } }, ?_⟩
  rw [dwarfStep_eq, Act.bind_of_ok h.row, Act.bind_of_ok happly, Act.bind_of_ok hput]
  rfl

end Step

end LibunwindKern
