import LibunwindKern.Dwarf.Cfi
import LibunwindKern.Dwarf.Expr
import LibunwindKern.Dwarf.FindProcInfo

/-!
# Finding the save locations of a frame

The model of `Gparser.c` from `fetch_proc_info` on, of `tdep_stash_frame`
(`Gstash_frame.c`), and of `dwarf_step` (`dwarf_Gstep.c`).

The state of these calls is the cursor, the cache of validated pages and the two
memory pools. `fetched` collects the addresses of the call-frame instructions that are
executed.

* `fetchProcInfo` looks the procedure up, one byte before the return address of a call.
* `createStateRecordFor` runs the instructions of the CIE and of the FDE.
* `applyRegState` turns the row into the save locations of the caller's registers. The
  columns are done in order, and an expression sees the locations written before it.

`dwarf_find_save_locs` returns `uncached_dwarf_find_save_locs` at once. The cache code after
that return is in `Dwarf.CachedSaveLocs`.
-/

namespace LibunwindKern

open CProg ByteMem

/-- What a step reads and writes, besides memory. -/
structure St where
  c : Cursor
  lga : Lga
  ciePool : Pool
  regStatePool : Pool
  fetched : List Word

/-- A call on a cursor. -/
abbrev Unw (α : Type) : Type := Act UnwError St α

namespace Unw

/-- Change the cursor. -/
def setCursor (f : Cursor → Cursor) : Unw Unit := Act.modify fun s => { s with c := f s.c }

/-- Read through the page cache, with the cursor as it is. -/
def read {α : Type} (x : Cursor → Act UnwError Lga α) : Unw α := do
  let s ← Act.get
  Act.zoom St.lga (fun g s => { s with lga := g }) (x s.c)

/-- A search that writes the cursor's procedure info. -/
def onPi {α : Type} (x : Act UnwError PiState α) : Unw α :=
  Act.zoom (fun s => ⟨s.c.pi, s.ciePool⟩)
    (fun t s => { s with c := { s.c with pi := t.pi }, ciePool := t.pool }) x

/-- Give a register a save location. -/
def setLoc (i : Fin dwarfNumPreservedRegs) (loc : Word) : Unw Unit :=
  setCursor fun c => { c with loc := Function.update c.loc i loc }

@[simp] theorem setCursor_bind {α : Type} (f : Cursor → Cursor) (g : Unit → Unw α) (s : St) :
    (setCursor f >>= g) s = g () { s with c := f s.c } := rfl

@[simp] theorem setLoc_bind {α : Type} (i : Fin dwarfNumPreservedRegs) (loc : Word)
    (g : Unit → Unw α) (s : St) :
    (setLoc i loc >>= g) s =
      g () { s with c := { s.c with loc := Function.update s.c.loc i loc } } := rfl

/-- Reading through the page cache changes nothing but the cache. -/
theorem read_eq {α : Type} (x : Cursor → Act UnwError Lga α) (s : St) :
    read x s = ((x s.c s.lga).1, { s with lga := (x s.c s.lga).2 }) := rfl

/-- A read that succeeds. -/
theorem read_eq_ok {α : Type} {x : Cursor → Act UnwError Lga α} {s t : St} {a : α}
    (h : read x s = (.ok a, t)) : ∃ g, x s.c s.lga = (.ok a, g) ∧ t = { s with lga := g } := by
  obtain ⟨hok, rfl⟩ := Prod.mk.inj h
  exact ⟨_, Prod.ext hok rfl, rfl⟩

theorem read_of_ok {α : Type} {x : Cursor → Act UnwError Lga α} {s : St} {a : α} {g : Lga}
    (h : x s.c s.lga = (.ok a, g)) : read x s = (.ok a, { s with lga := g }) := by
  rw [read_eq, h]

end Unw

open Unw

/-! ### The procedure info -/

/-- The `signal_frame` bit of what `unwind_info` points to. -/
def UnwindInfo.signalFrame : UnwindInfo → Option Bool
  | .null => none
  | .cie dci => some dci.signalFrame
  -- the word of an `unw_dyn_info_t` where a `dwarf_cie_info_t` has its flags
  | .dynamic pad0 => some (pad0.getLsbD 18)

/-- The address `fetch_proc_info` looks up for `ip`. -/
def lookupIp (c : Cursor) (ip : Word) : Word := if c.usePrevInstr then ip - 1 else ip

/-- The update of `use_prev_instr` for the next frame. -/
def updateUsePrevInstr (needUnwindInfo : Bool) : Unw Unit := do
  let s ← Act.get
  match needUnwindInfo, s.c.pi.unwindInfo.signalFrame with
  | true, some signalFrame => setCursor fun c => { c with usePrevInstr := !signalFrame }
  | _, _ => pure ()

/-- The end of `fetch_proc_info`, with the result `ret` of the search. An error of the
dynamic search is returned only after the cursor has been updated. -/
def fetchDone (needUnwindInfo dynamic : Bool) (ret : Except UnwError Unit) : Unw Unit := do
  let s ← Act.get
  if s.c.pi.format = .armExidx then
    Act.fail .enoinfo
  else do
    setCursor fun c => { c with piValid := true, piIsDynamic := dynamic }
    updateUsePrevInstr needUnwindInfo
    match ret with
    | .ok () => pure ()
    | .error e => Act.fail e

/-- `fetch_proc_info`. -/
def fetchProcInfo (k : Kernel) (m : Mem) (ip : Word) (needUnwindInfo : Bool) : Unw Unit := do
  let s ← Act.get
  if s.c.piValid ∧ ¬needUnwindInfo then
    pure ()
  else do
    setCursor fun c => { c with pi := ProcInfo.zero }
    let ret ← Act.attempt (onPi (unwiFindDynamicProcInfo k m (lookupIp s.c ip) needUnwindInfo))
    if ret = .error .enoinfo then do
      onPi (dwarfFindProcInfo k m (lookupIp s.c ip) needUnwindInfo)
      fetchDone needUnwindInfo false (.ok ())
    else
      fetchDone needUnwindInfo true ret

/-- `put_unwind_info`. Unwind info that came from the dynamic list is not freed, because
`dwarf_put_unwind_info` does nothing. -/
def putUnwindInfo : Unw Unit := do
  let s ← Act.get
  if s.c.piValid ∧ ¬s.c.piIsDynamic ∧ s.c.pi.unwindInfo ≠ .null then
    Act.modify fun s =>
      { s with
        c := { s.c with pi := { s.c.pi with unwindInfo := .null } }
        ciePool := s.ciePool.free }
  else
    pure ()

/-! ### The row -/

/-- The state record `create_state_record_for` starts from. -/
def StateRecord.init : StateRecord := ⟨0, fun _ => ⟨.undefined, 0⟩, fun _ => ⟨.same, 0⟩⟩

/-- Copy the current row to the initial row. -/
def StateRecord.setInitial (sr : StateRecord) : StateRecord :=
  { sr with rsInitial := sr.rsCurrent }

/-- The two runs of `parse_fde`: all instructions of the CIE, and those of the FDE up to
`ip`. -/
def parseFdePrograms (m : Mem) (pi : ProcInfo) (dci : CieInfo) (fuel : ℕ) (ip : Word) :
    Act UnwError RowState Unit := do
  runCfiProgram m pi dci fuel (BitVec.allOnes 64) dci.cieInstrStart dci.cieInstrEnd
  Act.modify fun s => { s with sr := s.sr.setInitial }
  runCfiProgram m pi dci fuel ip dci.fdeInstrStart dci.fdeInstrEnd

/-- `parse_fde`. -/
def parseFde (m : Mem) (fuel : ℕ) (ip : Word) : Unw StateRecord := do
  let s ← Act.get
  match s.c.pi.unwindInfo with
  | .cie dci => do
    setCursor fun c => { c with retAddrColumn := dci.retAddrColumn }
    Act.zoom (fun s => ⟨StateRecord.init, s.regStatePool, s.fetched⟩)
      (fun t s => { s with regStatePool := t.pool, fetched := t.fetched })
      (do
        parseFdePrograms m s.c.pi dci fuel ip
        let t ← Act.get
        pure t.sr)
  | _ => Act.lift .undefined

/-- `create_state_record_for`. -/
def createStateRecordFor (m : Mem) (fuel : ℕ) (ip : Word) : Unw StateRecord := do
  let s ← Act.get
  if s.c.piValid then
    match s.c.pi.format with
    | .table => parseFde m fuel ip
    | .remoteTable => parseFde m fuel ip
    | _ => Act.fail .einval
  else
    Act.lift .panic

/-! ### The save locations -/

/-- `DWARF_REG_LOC`. -/
def regLoc (c : Cursor) (reg : ℕ) : Word := (x86_64RUcAddr c.uc reg).getD 0

/-- `DWARF_IS_REG_LOC`. A location has no type in the local-only build. -/
def dwarfIsRegLoc (_ : Word) : Bool := false

section

variable (v : Validator) (m : Mem) (fuel : ℕ)

/-- `eval_location_expr`, on the block at `addr`. -/
def evalLocationExpr (addr : Word) : Unw Word := do
  let s ← Act.get
  match dwarfReadUleb128 m addr with
  | (.ok len, addr) => do
    let r ← read fun c => dwarfEvalExpr v m c fuel addr len
    if r.2 then do
      let regnum ← Act.lift (dwarfToUnwRegnum r.1)
      pure (regLoc s.c regnum)
    else
      pure r.1
  | _ => Act.lift .diverge

/-- The CFA of a row. -/
def evalCfa (rs : RegState) : Unw Word := do
  let s ← Act.get
  match (rs cfaRegColumn).whereSaved with
  | .reg =>
    if (rs cfaRegColumn).val = 7 ∧ (rs (column RSP)).whereSaved = .same then
      -- popping the CFA pops the stack pointer as well
      pure (s.c.cfa + (rs cfaOffColumn).val)
    else do
      let regnum ← Act.lift (dwarfToUnwRegnum (rs cfaRegColumn).val)
      let cfa ← read fun c => unwGetReg v m c regnum
      pure (cfa + (rs cfaOffColumn).val)
  | .expr => do
    let cfaLoc ← evalLocationExpr v m fuel (rs cfaRegColumn).val
    -- the returned location better be a memory location
    if dwarfIsRegLoc cfaLoc then Act.fail .ebadframe else pure cfaLoc
  | _ => Act.lift .panic

/-- The `switch` over the rule of a register. -/
def applyRule (rs : RegState) (cfa : Word) (i : Fin dwarfNumPreservedRegs) : Unw Unit := do
  let s ← Act.get
  match (rs (column i)).whereSaved with
  | .undefined => setLoc i 0
  | .same => pure ()
  | .cfarel => setLoc i (cfa + (rs (column i)).val)
  | .reg => do
    let regnum ← Act.lift (dwarfToUnwRegnum (rs (column i)).val)
    setLoc i (regLoc s.c regnum)
  | .expr => do
    let loc ← evalLocationExpr v m fuel (rs (column i)).val
    setLoc i loc

/-- The loop over the registers. -/
def applyRules (rs : RegState) (cfa : Word) : List (Fin dwarfNumPreservedRegs) → Unw Unit
  | [] => pure ()
  | i :: is => do
    applyRule v m fuel rs cfa i
    applyRules rs cfa is

/-- The return address, which is `0` without a location. -/
def readReturnAddress : Unw Word := do
  let s ← Act.get
  if h : s.c.retAddrColumn.toNat < dwarfNumPreservedRegs then
    if s.c.loc ⟨_, h⟩ = 0 then pure 0
    else read fun c => dwarfGet v m c (s.c.loc ⟨_, h⟩)
  else
    Act.lift .undefined

end

/-- `labs`, as the processor computes it. -/
def labs (x : Word) : Word := if x.msb then -x else x

/-- A register of a standard frame: unsaved, or saved near the CFA and not at `-1`. -/
def stashable (loc : SaveLoc) : Bool :=
  match loc.whereSaved with
  | .undefined => true
  | .same => true
  | .cfarel => (labs loc.val).slt (2 ^ 14) ∧ loc.val + 1 ≠ 0
  | _ => false

/-- The test for a standard frame: the CFA is an offset from `RBP` or `RSP`, and the
return address is at the CFA minus 8. -/
def isStandardFrame (c : Cursor) (rs : RegState) (retLoc : Word) : Bool :=
  c.frameInfo.frameType = .other ∧ (rs cfaRegColumn).whereSaved = .reg ∧
    ((rs cfaRegColumn).val = 6 ∨ (rs cfaRegColumn).val = 7) ∧
    (labs (rs cfaOffColumn).val).slt (2 ^ 29) ∧ retLoc = c.cfa - 8 ∧
    stashable (rs (column RBP)) ∧ stashable (rs (column RSP))

/-- The frame info of a standard frame. -/
def standardFrame (f : FrameInfo) (rs : RegState) : FrameInfo :=
  { f with
    frameType := .standard
    cfaRegRsp := (rs cfaRegColumn).val = 7
    cfaRegOffset := (rs cfaOffColumn).val.setWidth 30
    rbpCfaOffset :=
      if (rs (column RBP)).whereSaved = .cfarel then (rs (column RBP)).val.setWidth 15
      else f.rbpCfaOffset
    rspCfaOffset :=
      if (rs (column RSP)).whereSaved = .cfarel then (rs (column RSP)).val.setWidth 15
      else f.rspCfaOffset }

/-- The locations the assertions about a signal frame expect. -/
def sigreturnLocs (c : Cursor) : Bool :=
  c.loc RIP - c.sigcontextAddr = ucOffset RIP ∧ c.loc RBP - c.sigcontextAddr = ucOffset RBP ∧
    c.loc RSP - c.sigcontextAddr = ucOffset RSP

/-- `tdep_stash_frame`. -/
def tdepStashFrame (rs : RegState) : Unw Unit := do
  let s ← Act.get
  if h : s.c.retAddrColumn.toNat < dwarfNumPreservedRegs then
    if isStandardFrame s.c rs (s.c.loc ⟨_, h⟩) then
      setCursor fun c => { c with frameInfo := standardFrame c.frameInfo rs }
    else if s.c.frameInfo.frameType = .sigreturn ∧ ¬sigreturnLocs s.c then
      Act.lift .panic
    else
      pure ()
  else
    Act.lift .undefined

/-- The end of `apply_reg_state`, once the return address is known. -/
def finishFrame (rs : RegState) (prevIp prevCfa : Word) : Unw Unit := do
  let s ← Act.get
  if s.c.ip = prevIp ∧ s.c.cfa = prevCfa then
    Act.fail .ebadframe
  else if s.c.stashFrames then
    tdepStashFrame rs
  else
    pure ()

/-- `apply_reg_state`. -/
def applyRegState (v : Validator) (m : Mem) (fuel : ℕ) (rs : RegState) : Unw Unit := do
  let s ← Act.get
  let cfa ← evalCfa v m fuel rs
  applyRules v m fuel rs cfa (List.finRange dwarfNumPreservedRegs)
  setCursor fun c => { c with cfa := cfa }
  let ip ← readReturnAddress v m
  setCursor fun c => { c with ip := ip }
  finishFrame rs s.c.ip s.c.cfa

/-! ### One step -/

/-- `uncached_dwarf_find_save_locs`. -/
def uncachedDwarfFindSaveLocs (k : Kernel) (v : Validator) (m : Mem) (fuel : ℕ) : Unw Unit := do
  let s ← Act.get
  fetchProcInfo k m s.c.ip true
  let s ← Act.get
  let sr ← createStateRecordFor m fuel s.c.ip
  applyRegState v m fuel sr.rsCurrent
  putUnwindInfo

/-- `dwarf_step`, which returns 1 for success. -/
def dwarfStep (k : Kernel) (v : Validator) (m : Mem) (fuel : ℕ) : Unw ℕ := do
  uncachedDwarfFindSaveLocs k v m fuel
  setCursor fun c => { c with piValid := false }
  pure 1

end LibunwindKern
