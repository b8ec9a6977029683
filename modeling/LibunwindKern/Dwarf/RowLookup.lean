import LibunwindKern.Dwarf.Fetch
import LibunwindKern.Dwarf.FrameBlind
import LibunwindKern.Dwarf.Untouched

/-!
# What the row of an address depends on

The row for an address is found by `fetch_proc_info` and `create_state_record_for`. Both work on
the cursor and on the memory pools, and the row depends on neither: it is determined by the address
that is looked up, by the unwind info there, and by the address up to which the CFI programs are
run.

* `unwindInfoAt` is the procedure info that `fetch_proc_info` finds for an address, and `rowOfInfo` the
  row that `create_state_record_for` makes from it. Both start from a blank cursor.
* `findRow_ok` and `findRow_of_row` say that a search from any other cursor finds the same row.
* `applyRegState_ignores` says that the save locations do not depend on what the search has left
  behind.
-/

namespace LibunwindKern

open CProg ByteMem Unw

/-! ### The searches and the pool -/

/-- The state with another pool. -/
def FdeState.withPool (g : Pool) (s : FdeState) : FdeState := { s with pool := g }

/-- The state with another pool. -/
def PiState.withPool (g : Pool) (s : PiState) : PiState := { s with pool := g }

/-- The state with another pool. -/
def CbState.withPool (g : Pool) (s : CbState) : CbState := { s with pool := g }

section Records

variable (m : Mem)

theorem onAddr_ignores_pool {α : Type} (x : Reader α) :
    Act.Ignores FdeState.withPool (onAddr x) := fun _ g => ⟨rfl, g, rfl⟩

theorem fdeHeader_ignores_pool (base : Word) : Act.Ignores FdeState.withPool (fdeHeader m base) := by
  refine (onAddr_ignores_pool _).bind fun u32val => ?_
  split
  · split
    · exact Act.Ignores.fail _
    · refine Act.Ignores.get_bind (fun _ _ => rfl) fun s => ?_
      refine Act.Ignores.bind (Act.Ignores.modify fun _ g => ⟨g, rfl⟩) fun _ => ?_
      exact (onAddr_ignores_pool _).bind fun _ => Act.Ignores.pure _
  · -- the length is an extended one
    refine (onAddr_ignores_pool _).bind fun u64val => ?_
    refine Act.Ignores.get_bind (fun _ _ => rfl) fun s => ?_
    refine Act.Ignores.bind (Act.Ignores.modify fun _ g => ⟨g, rfl⟩) fun _ => ?_
    exact (onAddr_ignores_pool _).bind fun _ => Act.Ignores.pure _

theorem fdeRange_ignores_pool (dci : CieInfo) : Act.Ignores FdeState.withPool (fdeRange m dci) := by
  refine Act.Ignores.get_bind (fun _ _ => rfl) fun s => ?_
  refine (onAddr_ignores_pool _).bind fun startIp => (onAddr_ignores_pool _).bind fun ipRange => ?_
  exact Act.Ignores.modify fun _ g => ⟨g, rfl⟩

theorem fdeAugmentationEnd_ignores_pool (dci : CieInfo) :
    Act.Ignores FdeState.withPool (fdeAugmentationEnd m dci) := by
  unfold fdeAugmentationEnd
  split
  · refine (onAddr_ignores_pool _).bind fun augSize => ?_
    exact Act.Ignores.get_bind (fun _ _ => rfl) fun _ => Act.Ignores.pure _
  · exact Act.Ignores.pure _

theorem fdeLsda_ignores_pool (dci : CieInfo) : Act.Ignores FdeState.withPool (fdeLsda m dci) := by
  refine Act.Ignores.get_bind (fun _ _ => rfl) fun s => ?_
  exact (onAddr_ignores_pool _).bind fun lsda => Act.Ignores.modify fun _ g => ⟨g, rfl⟩

theorem fdeAbiMarker_ignores_pool (dci : CieInfo) :
    Act.Ignores FdeState.withPool (fdeAbiMarker m dci) := by
  unfold fdeAbiMarker
  split
  · exact (onAddr_ignores_pool _).bind fun _ => (onAddr_ignores_pool _).bind fun _ =>
      Act.Ignores.pure _
  · exact Act.Ignores.pure _

theorem fdeUnwindInfo_ignores_pool (dci : CieInfo) (fdeEndAddr augEndAddr : Word) :
    Act.Ignores FdeState.withPool (fdeUnwindInfo m dci fdeEndAddr augEndAddr) := by
  -- the other pool has one object less as well
  refine Act.Ignores.bind (Act.Ignores.modify fun _ g => ⟨g.alloc, rfl⟩) fun _ => ?_
  refine (fdeAbiMarker_ignores_pool m dci).bind fun dci => ?_
  refine Act.Ignores.get_bind (fun _ _ => rfl) fun s => ?_
  exact Act.Ignores.modify fun _ g => ⟨g, rfl⟩

theorem fdeBody_ignores_pool (need : Bool) (base fdeEndAddr cieAddr : Word) :
    Act.Ignores FdeState.withPool (fdeBody m need base fdeEndAddr cieAddr) := by
  refine Act.Ignores.get_bind (fun _ _ => rfl) fun s => ?_
  refine (Act.Ignores.lift _).bind fun dci => (fdeRange_ignores_pool m dci).bind fun _ => ?_
  refine (fdeAugmentationEnd_ignores_pool m dci).bind fun augEndAddr => ?_
  refine (fdeLsda_ignores_pool m dci).bind fun _ => ?_
  split
  · exact fdeUnwindInfo_ignores_pool m dci fdeEndAddr augEndAddr
  · exact Act.Ignores.pure _

theorem dwarfExtractProcInfoFromFde_ignores_pool (need : Bool) (base : Word) :
    Act.Ignores FdeState.withPool (dwarfExtractProcInfoFromFde m need base) := by
  refine Act.Ignores.bind (Act.Ignores.modify fun _ g => ⟨g, rfl⟩) fun _ => ?_
  refine (fdeHeader_ignores_pool m base).bind fun h => ?_
  split
  · exact Act.Ignores.pure _
  · exact fdeBody_ignores_pool m need base _ _

end Records

section Searches

variable (k : Kernel) (m : Mem) (ip : Word) (need : Bool)

theorem linearSearch_ignores_pool (ehFrameEnd : Word) (n : ℕ) :
    Act.Ignores FdeState.withPool (linearSearch m ip ehFrameEnd need n) := by
  induction n with
  | zero => exact Act.Ignores.fail _
  | succ n ih =>
    refine Act.Ignores.get_bind (fun _ _ => rfl) fun s => ?_
    split
    · refine (dwarfExtractProcInfoFromFde_ignores_pool m false 0).attempt.bind fun ret => ?_
      cases ret with
      -- a record that cannot be read is passed over
      | error e => exact ih
      | ok _ =>
        refine Act.Ignores.get_bind (fun _ _ => rfl) fun s' => ?_
        split
        · split
          · -- the record is read again, this time for its unwind info
            refine Act.Ignores.bind (Act.Ignores.modify fun _ g => ⟨g, rfl⟩) fun _ => ?_
            exact dwarfExtractProcInfoFromFde_ignores_pool m need 0
          · exact Act.Ignores.pure _
        · exact ih
    · exact Act.Ignores.fail _

theorem extractAt_ignores_pool (base fdeAddr : Word) :
    Act.Ignores PiState.withPool (extractAt m need base fdeAddr) :=
  (dwarfExtractProcInfoFromFde_ignores_pool m need base).zoom (fun _ g => ⟨g, rfl⟩)
    fun _ _ _ g => ⟨g, rfl⟩

theorem searchTable_ignores_pool (format : InfoFormat)
    (table tableLen debugFrameBase segbase : Word) :
    Act.Ignores PiState.withPool
      (searchTable m ip format table tableLen debugFrameBase segbase need) := by
  -- the check at the end, with a table of either kind
  have hcheck : Act.Ignores PiState.withPool (do
      let s ← Act.get
      if ip < s.pi.startIp ∨ s.pi.endIp ≤ ip then Act.fail .enoinfo else pure () :
        Act UnwError PiState Unit) := by
    refine Act.Ignores.get_bind (fun _ _ => rfl) fun s => ?_
    split
    · exact Act.Ignores.fail _
    · exact Act.Ignores.pure _
  unfold searchTable
  split
  · exact Act.Ignores.fail _
  · refine (extractAt_ignores_pool m need _ _).bind fun _ => ?_
    split
    · exact Act.Ignores.bind (Act.Ignores.modify fun _ g => ⟨g, rfl⟩) fun _ => hcheck
    · exact hcheck

theorem dwarfSearchUnwindTable_ignores_pool (di : DynInfo) :
    Act.Ignores PiState.withPool (dwarfSearchUnwindTable m ip di need) := by
  unfold dwarfSearchUnwindTable
  split
  · exact Act.Ignores.lift _
  · split
    · exact Act.Ignores.lift _
    · split
      · exact searchTable_ignores_pool m ip need _ _ _ _ _
      · exact searchTable_ignores_pool m ip need _ _ _ _ _
      · exact Act.Ignores.lift _

theorem dwarfCallback_ignores_pool (file : LinkerFile) :
    Act.Ignores CbState.withPool (dwarfCallback k m ip need file) := by
  unfold dwarfCallback
  split
  · exact Act.Ignores.pure _
  · split
    · exact Act.Ignores.pure _
    · split
      · exact Act.Ignores.bind (Act.Ignores.modify fun _ g => ⟨g, rfl⟩) fun _ => Act.Ignores.pure _
      · rename_i sect _
        -- the section is searched on a state of its own
        have hsect : Act.Ignores CbState.withPool (searchSection m ip need sect) :=
          (linearSearch_ignores_pool m ip need _ _).zoom (fun _ g => ⟨g, rfl⟩)
            fun _ _ _ g => ⟨g, rfl⟩
        refine Act.Ignores.bind (Act.Ignores.modify fun _ g => ⟨g, rfl⟩) fun _ => ?_
        refine hsect.attempt.bind fun ret => ?_
        cases ret with
        | error e => exact Act.Ignores.pure _
        | ok _ => exact Act.Ignores.pure _

theorem linkerFileForeach_ignores_pool (files : List LinkerFile) :
    Act.Ignores CbState.withPool (linkerFileForeach (dwarfCallback k m ip need) files) := by
  induction files with
  | nil => exact Act.Ignores.pure _
  | cons file files ih =>
    refine (dwarfCallback_ignores_pool k m ip need file).bind fun ret => ?_
    split
    · exact Act.Ignores.pure _
    · exact ih

/-- **The search in the loaded files** does not depend on the pool. -/
theorem dwarfFindProcInfo_ignores_pool :
    Act.Ignores PiState.withPool (dwarfFindProcInfo k m ip need) := by
  -- what the callback leaves in its data is read out at the end
  have hfiles : Act.Ignores CbState.withPool (do
      let ret ← linkerFileForeach (dwarfCallback k m ip need) k.linkerFiles
      let t ← Act.get
      pure (ret, t.singleFde, t.di) : Act UnwError CbState (ℕ × Bool × Option DynInfo)) :=
    (linkerFileForeach_ignores_pool k m ip need _).bind fun _ =>
      Act.Ignores.get_bind (fun _ _ => rfl) fun _ => Act.Ignores.pure _
  refine Act.Ignores.bind (hfiles.zoom (fun _ g => ⟨g, rfl⟩) fun _ _ _ g => ⟨g, rfl⟩) fun r => ?_
  split
  · exact Act.Ignores.fail _
  · split
    · exact Act.Ignores.pure _
    · split
      · -- no single FDE was found, but a table
        exact dwarfSearchUnwindTable_ignores_pool m ip need _
      · exact Act.Ignores.fail _

theorem unwiExtractDynamicProcInfo_ignores_pool (di : DynInfo) :
    Act.Ignores PiState.withPool (unwiExtractDynamicProcInfo m ip di need) := by
  refine Act.Ignores.bind (Act.Ignores.modify fun _ g => ⟨g, rfl⟩) fun _ => ?_
  split
  · exact Act.Ignores.modify fun _ g => ⟨g, rfl⟩
  · exact dwarfSearchUnwindTable_ignores_pool m ip need di
  · exact dwarfSearchUnwindTable_ignores_pool m ip need di
  · exact Act.Ignores.fail _

/-- **The search in the dynamic list** does not depend on the pool. -/
theorem unwiFindDynamicProcInfo_ignores_pool :
    Act.Ignores PiState.withPool (unwiFindDynamicProcInfo k m ip need) := by
  unfold unwiFindDynamicProcInfo
  induction k.dynInfoList with
  | nil => exact Act.Ignores.fail _
  | cons di dis ih =>
    unfold localFindProcInfo
    split
    · exact unwiExtractDynamicProcInfo_ignores_pool m ip need di
    · exact ih

end Searches

/-! ### The CFI programs and the pool -/

/-- The state with another pool and other instructions executed before. -/
def CfiState.withAside (g : Pool × List Word) (s : CfiState) : CfiState :=
  { s with pool := g.1, fetched := g.2 }

/-- The state with another pool and other instructions executed before. -/
def RowState.withAside (g : Pool × List Word) (s : RowState) : RowState :=
  { s with pool := g.1, fetched := g.2 }

section Programs

variable (m : Mem) (pi : ProcInfo) (dci : CieInfo)

/-- The call looks neither at the pool nor at the instructions executed before. -/
abbrev IgnoresAside {α : Type} (x : Cfi α) : Prop := Act.Ignores CfiState.withAside x

theorem operand_ignores {α : Type} (x : Reader α) : IgnoresAside (Cfi.onAddr x) :=
  fun _ g => ⟨rfl, g, rfl⟩

theorem setRow_ignores (f : RegState → RegState) : IgnoresAside (Cfi.setRow f) :=
  Act.Ignores.modify fun _ g => ⟨g, rfl⟩

theorem setReg_ignores (i : Fin (dwarfNumPreservedRegs + 2)) (w : Where) (val : Word) :
    IgnoresAside (Cfi.setReg i w val) := setRow_ignores _

theorem advance_ignores (delta : Word) : IgnoresAside (Cfi.advance delta) :=
  Act.Ignores.modify fun _ g => ⟨g, rfl⟩

theorem restoreReg_ignores (reg : Word) : IgnoresAside (Cfi.restoreReg reg) := by
  refine Act.Ignores.get_bind (fun _ _ => rfl) fun s => ?_
  split
  · exact setRow_ignores _
  · exact Act.Ignores.fail _

theorem skipBlock_ignores : IgnoresAside (Cfi.skipBlock m) :=
  (operand_ignores _).bind fun _ => Act.Ignores.modify fun _ g => ⟨g, rfl⟩

/-- **One instruction.** -/
theorem execCfa_ignores (op : DwCfa) : IgnoresAside (execCfa m pi dci op) := by
  cases op with
  | advanceLoc delta => exact advance_ignores _
  | advanceLoc1 => exact (operand_ignores _).bind fun _ => advance_ignores _
  | advanceLoc2 => exact (operand_ignores _).bind fun _ => advance_ignores _
  | advanceLoc4 => exact (operand_ignores _).bind fun _ => advance_ignores _
  | offset reg =>
    simp only [execCfa]
    split
    · exact (operand_ignores _).bind fun _ => setReg_ignores _ _ _
    · exact Act.Ignores.fail _
  | restore reg => exact restoreReg_ignores _
  | restoreExtended => exact (operand_ignores _).bind fun _ => restoreReg_ignores _
  | nop => exact Act.Ignores.pure _
  | setLoc =>
    exact (operand_ignores _).bind fun _ => Act.Ignores.modify fun _ g => ⟨g, rfl⟩
  -- the row is pushed on a node from the other pool
  | rememberState => exact Act.Ignores.modify fun _ g => ⟨(g.1.alloc, g.2), rfl⟩
  | restoreState =>
    refine Act.Ignores.get_bind (fun _ _ => rfl) fun s => ?_
    split
    · exact Act.Ignores.fail _
    · -- and the node goes back to it
      exact (setRow_ignores _).bind fun _ =>
        Act.Ignores.modify fun _ g => ⟨(g.1.free, g.2), rfl⟩
  | undefined => exact (operand_ignores _).bind fun _ => setReg_ignores _ _ _
  | sameValue => exact (operand_ignores _).bind fun _ => setReg_ignores _ _ _
  | defCfaRegister => exact (operand_ignores _).bind fun _ => setReg_ignores _ _ _
  | defCfaOffset => exact (operand_ignores _).bind fun _ => setReg_ignores _ _ _
  | defCfaOffsetSf => exact (operand_ignores _).bind fun _ => setReg_ignores _ _ _
  | defCfa =>
    exact (operand_ignores _).bind fun _ => (operand_ignores _).bind fun _ =>
      (setReg_ignores _ _ _).bind fun _ => setReg_ignores _ _ _
  | defCfaSf =>
    exact (operand_ignores _).bind fun _ => (operand_ignores _).bind fun _ =>
      (setReg_ignores _ _ _).bind fun _ => setReg_ignores _ _ _
  | defCfaExpression =>
    exact Act.Ignores.get_bind (fun _ _ => rfl) fun _ =>
      (setReg_ignores _ _ _).bind fun _ => skipBlock_ignores m
  | expression =>
    -- the address of the block is the value of the rule
    exact (operand_ignores _).bind fun _ => Act.Ignores.get_bind (fun _ _ => rfl) fun _ =>
      (setReg_ignores _ _ _).bind fun _ => skipBlock_ignores m
  | gnuArgsSize =>
    exact (operand_ignores _).bind fun _ => Act.Ignores.modify fun _ g => ⟨g, rfl⟩
  | offsetExtended | offsetExtendedSf | register | gnuNegativeOffsetExtended =>
    exact (operand_ignores _).bind fun _ => (operand_ignores _).bind fun _ =>
      setReg_ignores _ _ _
  | mipsAdvanceLoc8 | gnuWindowSave | loUser | hiUser => exact Act.Ignores.fail _

theorem cfiTurn_ignores : IgnoresAside (cfiTurn m pi dci) := by
  refine Act.Ignores.bind (Act.Ignores.modify fun s g => ⟨(g.1, g.2 ++ [s.addr]), rfl⟩) fun _ => ?_
  -- the opcode is read and decoded, and a byte without a case does nothing
  refine (operand_ignores _).bind fun op => ?_
  split
  · exact Act.Ignores.pure _
  · exact execCfa_ignores m pi dci _

/-- **A program** runs alike with every pool. -/
theorem runCfiProgram_ignores (fuel : ℕ) (ip addr endAddr : Word) :
    Act.Ignores RowState.withAside (runCfiProgram m pi dci fuel ip addr endAddr) :=
  -- rows that are still remembered go back to the pool at the end
  ((cfiTurn_ignores m pi dci).loop (fun _ _ => rfl) fuel).zoom (fun _ g => ⟨g, rfl⟩)
    fun _ _ t g => ⟨(g.1.freeAll t.rsStack.length, g.2), rfl⟩

theorem parseFdePrograms_ignores (fuel : ℕ) (ip : Word) :
    Act.Ignores RowState.withAside (parseFdePrograms m pi dci fuel ip) :=
  (runCfiProgram_ignores m pi dci fuel _ _ _).bind fun _ =>
    Act.Ignores.bind (Act.Ignores.modify fun _ g => ⟨g, rfl⟩) fun _ =>
      runCfiProgram_ignores m pi dci fuel ip _ _

end Programs

/-! ### The unwind info of an address -/

/-- The state with everything but the procedure info taken from another one. -/
def St.withRest (rest s : St) : St := { rest with c := { rest.c with pi := s.c.pi } }

section Search

variable (k : Kernel) (m : Mem)

theorem onPi_ignores_rest {x : Act UnwError PiState Unit} (hx : Act.Ignores PiState.withPool x) :
    Act.Ignores St.withRest (onPi x) :=
  hx.zoom (fun _ g => ⟨g.ciePool, rfl⟩) fun _ g _ g' => ⟨{ g with ciePool := g' }, rfl⟩

theorem setCursor_ignores_rest {f : Cursor → Cursor}
    (hf : ∀ c c' : Cursor, f { c with pi := c'.pi } = { f c with pi := (f c').pi }) :
    Act.Ignores St.withRest (setCursor f) :=
  Act.Ignores.modify fun s g =>
    ⟨{ g with c := f g.c }, congrArg (fun c => { g with c := c }) (hf g.c s.c)⟩

theorem fetchDone_ignores_rest (need dynamic : Bool) (ret : Except UnwError Unit) :
    Act.Ignores St.withRest (fetchDone need dynamic ret) := by
  refine Act.Ignores.get_bind (fun _ _ => rfl) fun s => ?_
  split
  · exact Act.Ignores.fail _
  · refine (setCursor_ignores_rest fun _ _ => rfl).bind fun _ => ?_
    -- `use_prev_instr` is set from the unwind info, which is in the procedure info
    refine Act.Ignores.bind ?_ fun _ => ?_
    · refine Act.Ignores.get_bind (fun _ _ => rfl) fun s => ?_
      split
      · exact setCursor_ignores_rest fun _ _ => rfl
      · exact Act.Ignores.pure _
    · cases ret with
      | ok _ => exact Act.Ignores.pure _
      | error e => exact Act.Ignores.fail _

/-- What follows the search in the dynamic list. -/
theorem fetchRest_ignores_rest (ip : Word) (need : Bool) :
    Act.Ignores St.withRest
      (Act.attempt (onPi (unwiFindDynamicProcInfo k m ip need)) >>= fun ret =>
        if ret = .error .enoinfo then do
          onPi (dwarfFindProcInfo k m ip need)
          fetchDone need false (.ok ())
        else
          fetchDone need true ret : Unw Unit) := by
  refine (onPi_ignores_rest (unwiFindDynamicProcInfo_ignores_pool k m ip need)).attempt.bind
    fun ret => ?_
  -- the files are searched if the dynamic list has nothing
  split
  · refine (onPi_ignores_rest (dwarfFindProcInfo_ignores_pool k m ip need)).bind fun _ => ?_
    exact fetchDone_ignores_rest need false _
  · exact fetchDone_ignores_rest need true ret

/-- A cursor with nothing but a procedure info. -/
def blankCursor (pi : ProcInfo) : Cursor where
  cfa := 0
  ip := 0
  argsSize := 0
  retAddrColumn := 0
  ehArgs := fun _ => 0
  ehValidMask := 0
  loc := fun _ => 0
  stashFrames := false
  usePrevInstr := false
  piValid := true
  piIsDynamic := false
  pi := pi
  frameInfo := ⟨0, .standard, false, false, 0, 0, 0⟩
  sigcontextFormat := .none
  sigcontextAddr := 0
  validate := false
  uc := 0

/-- The state with such a cursor. -/
def blankSt (pi : ProcInfo) : St := ⟨blankCursor pi, Lga.empty, ⟨0, 0⟩, ⟨0, 0⟩, []⟩

/-- The procedure info, with unwind info, that `fetch_proc_info` finds for an address. -/
def unwindInfoAt (addr : Word) : Res UnwError ProcInfo :=
  ((do
    fetchProcInfo k m addr true
    let s ← Act.get
    pure s.c.pi : Unw ProcInfo) (blankSt ProcInfo.zero)).1

theorem fetchProcInfo_alike (ip : Word) (s : St) :
    Act.Alike St.withRest (fetchProcInfo k m (lookupIp s.c ip) true (blankSt ProcInfo.zero))
      (fetchProcInfo k m ip true s) := by
  -- a lookup starts by clearing the procedure info, so nothing of the old one is seen
  rw [fetchProcInfo_eq (Or.inl rfl), fetchProcInfo_eq (Or.inl rfl)]
  exact fetchRest_ignores_rest k m (lookupIp s.c ip) true
    (withPi (blankSt ProcInfo.zero) ⟨ProcInfo.zero, ⟨0, 0⟩⟩) (withPi s ⟨ProcInfo.zero, s.ciePool⟩)

variable {k m}

/-- **The lookup** finds the same procedure info from every cursor. -/
theorem fetchProcInfo_info {ip : Word} {s t : St} {r : Res UnwError Unit}
    (h : fetchProcInfo k m ip true s = (r, t)) :
    unwindInfoAt k m (lookupIp s.c ip) = (r >>= fun _ => .ok t.c.pi) := by
  obtain ⟨hout, g, hstate⟩ := fetchProcInfo_alike k m ip s
  rw [h] at hout hstate
  unfold unwindInfoAt
  -- the procedure info is the part of the state that is not ignored
  have hpi : t.c.pi =
      (fetchProcInfo k m (lookupIp s.c ip) true (blankSt ProcInfo.zero)).2.c.pi := by
    rw [show t = _ from hstate]
    rfl
  rw [Act.bind_view, ← hout, hpi]

end Search

/-! ### The row of an address -/

section Row

variable (m : Mem) (fuel : ℕ)

theorem parseFde_ignores_rest (ip : Word) : Act.Ignores St.withRest (parseFde m fuel ip) := by
  refine Act.Ignores.get_bind (fun _ _ => rfl) fun s => ?_
  split
  · rename_i dci _
    refine (setCursor_ignores_rest fun _ _ => rfl).bind fun _ => ?_
    -- the programs run on a state of their own, made from the procedure info
    have hrow : Act.Ignores RowState.withAside (do
        parseFdePrograms m s.c.pi dci fuel ip
        let t ← Act.get
        pure t.sr : Act UnwError RowState StateRecord) :=
      (parseFdePrograms_ignores m s.c.pi dci fuel ip).bind fun _ =>
        Act.Ignores.get_bind (fun _ _ => rfl) fun _ => Act.Ignores.pure _
    exact hrow.zoom (fun _ g => ⟨(g.regStatePool, g.fetched), rfl⟩) fun _ g _ g' =>
      ⟨{ g with regStatePool := g'.1, fetched := g'.2 }, rfl⟩
  · exact Act.Ignores.lift _

/-- The row for `ip` that `create_state_record_for` makes from a procedure info. -/
def rowOfInfo (pi : ProcInfo) (ip : Word) : Res UnwError RegState :=
  (createStateRecordFor m fuel ip (blankSt pi)).1 >>= fun sr => .ok sr.rsCurrent

variable {m fuel}

/-- **The row** depends on the procedure info only. -/
theorem createStateRecordFor_row {ip : Word} {s t : St} {r : Res UnwError StateRecord}
    (hvalid : s.c.piValid = true) (h : createStateRecordFor m fuel ip s = (r, t)) :
    rowOfInfo m fuel s.c.pi ip = (r >>= fun sr => .ok sr.rsCurrent) := by
  have hparse : (parseFde m fuel ip s).1 = (parseFde m fuel ip (blankSt s.c.pi)).1 :=
    (parseFde_ignores_rest m fuel ip (blankSt s.c.pi) s).1
  -- the format decides who makes the row; only the tables have a CIE
  have hblank : (createStateRecordFor m fuel ip (blankSt s.c.pi)).1 = r := by
    refine Eq.trans ?_ (congrArg Prod.fst h)
    unfold createStateRecordFor
    rw [Act.get_bind, Act.get_bind, if_pos hvalid, if_pos (show (blankSt s.c.pi).c.piValid from rfl)]
    have hpi : (blankSt s.c.pi).c.pi = s.c.pi := rfl
    rw [hpi]
    cases s.c.pi.format with
    | table => exact hparse.symm
    | remoteTable => exact hparse.symm
    | dynamic => rfl
    | armExidx => rfl
  unfold rowOfInfo
  rw [hblank]

end Row

/-! ### What a search leaves behind -/

/-- What a search for a row leaves behind, besides the row. -/
structure Leftover where
  pi : ProcInfo
  piValid : Bool
  piIsDynamic : Bool
  ciePool : Pool
  regStatePool : Pool
  fetched : List Word

/-- The state with this left behind. -/
def St.withLeftover (g : Leftover) (s : St) : St :=
  { s with
    c := { s.c with pi := g.pi, piValid := g.piValid, piIsDynamic := g.piIsDynamic }
    ciePool := g.ciePool
    regStatePool := g.regStatePool
    fetched := g.fetched }

/-- The cursor with the return-address column and `use_prev_instr` of a row. -/
def St.withRow (s : St) (retAddrColumn : Word) (usePrevInstr : Bool) : St :=
  { s with c := { s.c with retAddrColumn := retAddrColumn, usePrevInstr := usePrevInstr } }

section FindRow

variable {k : Kernel} {m : Mem} {fuel : ℕ} {s t : St}

theorem fetchProcInfo_left {ip : Word} (h : fetchProcInfo k m ip true s = (.ok (), t)) :
    t.c.piValid = true ∧ ∃ g, t =
      St.withLeftover g (s.withRow s.c.retAddrColumn
        (nextUsePrevInstr true t.c.pi s.c.usePrevInstr)) := by
  cases FetchEnd.of_run (Or.inl rfl) h with
  | @dynamic p hd hf => exact ⟨rfl, ⟨p.pi, true, true, p.pool, s.regStatePool, s.fetched⟩, rfl⟩
  | @file p hd hs hf => exact ⟨rfl, ⟨p.pi, true, false, p.pool, s.regStatePool, s.fetched⟩, rfl⟩
  -- a search that ends in any other way does not succeed
  | stuck hok herr hs => exact absurd rfl (hok ())

theorem createStateRecordFor_left {ip : Word} {sr : StateRecord}
    (h : createStateRecordFor m fuel ip s = (.ok sr, t)) :
    ∃ dci g, s.c.pi.unwindInfo = .cie dci ∧
      t = St.withLeftover g (s.withRow dci.retAddrColumn s.c.usePrevInstr) := by
  have hparse := createStateRecordFor_ok h
  obtain ⟨dci, hcie⟩ := parseFde_cie hparse
  unfold parseFde at hparse
  rw [Act.get_bind, hcie] at hparse
  -- the return-address column is written before the programs are run
  obtain ⟨⟨⟩, u, hcolumn, hparse⟩ := Act.bind_eq_ok hparse
  cases hcolumn
  obtain ⟨w, -, rfl⟩ := Act.zoom_eq_ok hparse
  exact ⟨dci, ⟨s.c.pi, s.c.piValid, s.c.piIsDynamic, s.ciePool, w.pool, w.fetched⟩, hcie, rfl⟩

/-- **A row that is found** is the row of the unwind info at the address that is looked up, and
its CIE gives the return-address column and `use_prev_instr`. -/
theorem findRow_ok {sr : StateRecord} (h : findRow k m fuel s = (.ok sr, t)) :
    ∃ pi dci g, unwindInfoAt k m (lookupIp s.c s.c.ip) = .ok pi ∧
      rowOfInfo m fuel pi s.c.ip = .ok sr.rsCurrent ∧ pi.unwindInfo = .cie dci ∧
      t = St.withLeftover g (s.withRow dci.retAddrColumn (!dci.signalFrame)) := by
  unfold findRow at h
  rw [Act.get_bind] at h
  obtain ⟨⟨⟩, u, hfetch, h⟩ := Act.bind_eq_ok h
  rw [Act.get_bind] at h
  obtain ⟨hvalid, g, hu⟩ := fetchProcInfo_left hfetch
  have hip : u.c.ip = s.c.ip := by rw [hu]; rfl
  rw [hip] at h
  obtain ⟨dci, g', hcie, ht⟩ := createStateRecordFor_left h
  -- the CIE is there, so `use_prev_instr` comes from its signal bit
  have hsignal : nextUsePrevInstr true u.c.pi s.c.usePrevInstr = !dci.signalFrame := by
    unfold nextUsePrevInstr
    rw [hcie]
    rfl
  refine ⟨u.c.pi, dci, g', fetchProcInfo_info hfetch, createStateRecordFor_row hvalid h, hcie, ?_⟩
  rw [hsignal] at hu
  rw [ht, hu]
  rfl

/-- **A row that there is** is found from every cursor. -/
theorem findRow_of_row {pi : ProcInfo} {rs : RegState}
    (hinfo : unwindInfoAt k m (lookupIp s.c s.c.ip) = .ok pi)
    (hrow : rowOfInfo m fuel pi s.c.ip = .ok rs) :
    ∃ sr t, findRow k m fuel s = (.ok sr, t) ∧ sr.rsCurrent = rs := by
  rcases hfetch : fetchProcInfo k m s.c.ip true s with ⟨r, u⟩
  rw [fetchProcInfo_info hfetch] at hinfo
  -- the lookup succeeds, as it does from the blank cursor
  obtain ⟨⟨⟩, rfl, hpi⟩ := Res.bind_eq_ok hinfo
  cases hpi
  obtain ⟨hvalid, g, hu⟩ := fetchProcInfo_left hfetch
  have hip : u.c.ip = s.c.ip := by rw [hu]; rfl
  -- and so does making the row
  rcases hcreate : createStateRecordFor m fuel s.c.ip u with ⟨r, t⟩
  rw [createStateRecordFor_row hvalid hcreate] at hrow
  obtain ⟨sr, rfl, hrs⟩ := Res.bind_eq_ok hrow
  refine ⟨sr, t, ?_, by cases hrs; rfl⟩
  unfold findRow
  rw [Act.get_bind, Act.bind_of_ok hfetch, Act.get_bind, hip]
  exact hcreate

/-- Putting the unwind info back changes only what the search has left behind. -/
theorem putUnwindInfo_left {w w' : St} {g : Leftover}
    (h : putUnwindInfo (w.withLeftover g) = (.ok (), w')) : ∃ g', w' = w.withLeftover g' := by
  unfold putUnwindInfo at h
  rw [Act.get_bind] at h
  split at h
  · cases h
    exact ⟨{ g with pi := { g.pi with unwindInfo := .null }, ciePool := g.ciePool.free }, rfl⟩
  · cases h
    exact ⟨g, rfl⟩

end FindRow

/-! ### Applying a row -/

section Apply

variable (v : Validator) (m : Mem) (fuel : ℕ) (rs : RegState)

/-- The call does not look at what a search has left behind. -/
abbrev IgnoresLeftover {α : Type} (x : Unw α) : Prop := Act.Ignores St.withLeftover x

theorem withLeftover_frameBlind : FrameBlind St.withLeftover where
  commutes _ _ _ := rfl
  getReg _ _ _ _ _ := rfl
  stashFrames _ _ := rfl

theorem tdepStashFrame_ignores : IgnoresLeftover (tdepStashFrame rs) := by
  refine Act.Ignores.get_bind (fun _ _ => rfl) fun s => ?_
  split
  · split
    · exact Act.Ignores.modify fun _ g => ⟨g, rfl⟩
    · split
      · exact Act.Ignores.lift _
      · exact Act.Ignores.pure _
  · exact Act.Ignores.lift _

theorem finishFrame_ignores (prevIp prevCfa : Word) :
    IgnoresLeftover (finishFrame rs prevIp prevCfa) := by
  refine Act.Ignores.get_bind (fun _ _ => rfl) fun s => ?_
  split
  · exact Act.Ignores.fail _
  · split
    · exact tdepStashFrame_ignores rs
    · exact Act.Ignores.pure _

/-- **Applying a row** does not depend on what the search for it has left behind. -/
theorem applyRegState_ignores : IgnoresLeftover (applyRegState v m fuel rs) :=
  applyRegState_blind withLeftover_frameBlind v m fuel rs (finishFrame_ignores rs)

end Apply

end LibunwindKern
