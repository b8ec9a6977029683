import LibunwindKern.Dwarf.EncodedRow
import LibunwindKern.X86.Callers

/-!
# From the bytes of a table to the registers of the callers

A stack whose frames belong to the procedures of a search table. `TableChain` says of two frames, one
outside the other, that every call between them is described by the row that is encoded for it.
`unwSteps_of_table` is a run of `unw_step` on the bytes: each step searches the table, decodes the
records of the procedure, runs its programs, and restores the registers, and in the end the cursor
has the registers of the last caller.
-/

namespace LibunwindKern

open CProg ByteMem StraightLine Unw

/-- A chain of calls whose rows are those of the procedures that the frames are in. -/
inductive TableChain (m : Mem) (uc : Word) (procs : List Procedure) :
    ℕ → Bool → RegFile → Bool → RegFile → Prop
  | here (prev : Bool) (regs : RegFile) : TableChain m uc procs 0 prev regs prev regs
  | out {n : ℕ} {p : Procedure} {prev prev' : Bool} {callee caller regs : RegFile} (hp : p ∈ procs)
      (covers : p.Covers (if prev then callee RIP - 1 else callee RIP))
      (calls : Calls m uc (p.row (callee RIP)) callee caller)
      (rest : TableChain m uc procs n (!p.signal) caller prev' regs) :
      TableChain m uc procs (n + 1) prev callee prev' regs

section Table

variable {k : Kernel} {m : Mem} {fuel n : ℕ} {uc : Word} {di : DynInfo} {procs : List Procedure}
  {prev prev' : Bool} {callee regs : RegFile}

/-- The code finds the row that is encoded. -/
theorem hasRow_of_table (hreg : Registered k di) (h : UnwindTableAt m di procs) {p : Procedure}
    (hp : p ∈ procs) (hcie : p.cieProgram.length < fuel) (hfde : p.fdeProgram.length < fuel)
    {ip : Word} (hcov : p.Covers (if prev then ip - 1 else ip)) :
    HasRow k m fuel prev ip (p.row ip) p.signal := by
  obtain ⟨pi, dci, hinfo, hdecoded⟩ := unwindInfoAt_of_table hreg h hp hcov
  have hwf := h.wellFormed hp
  exact ⟨pi, dci, hinfo, hdecoded.rowOfInfo_eq hwf hcie hfde ip, hdecoded.unwindInfo,
    hdecoded.retAddrColumn.trans hwf.column, hdecoded.signalFrame⟩

theorem TableChain.callChain (hreg : Registered k di) (h : UnwindTableAt m di procs)
    (hfuel : ∀ p ∈ procs, p.cieProgram.length < fuel ∧ p.fdeProgram.length < fuel)
    (hchain : TableChain m uc procs n prev callee prev' regs) :
    CallChain k m fuel uc n prev callee prev' regs := by
  induction hchain with
  | here prev regs => exact .here prev regs
  | @out n p prev prev' callee caller regs hp covers calls _ ih =>
    obtain ⟨hcie, hfde⟩ := hfuel p hp
    exact .out (.call (hasRow_of_table hreg h hp hcie hfde covers) calls) ih

/-- **Stepping through encoded frames.** A table of procedures is in memory and registered, and a
cursor is at a frame from which `n` calls lead outwards, each as the row says that is encoded for it.
Then `n` calls of `unw_step` return 1, and `unw_get_reg` has the registers of the frame at the end. -/
theorem unwSteps_of_table (hreg : Registered k di) (h : UnwindTableAt m di procs)
    (hfuel : ∀ p ∈ procs, p.cieProgram.length < fuel ∧ p.fdeProgram.length < fuel)
    (hchain : TableChain m uc procs n prev callee prev' regs) {s : St} (hs : CursorAt m uc callee s.c)
    (hprev : s.c.usePrevInstr = prev) :
    ∃ t, unwSteps k msyncValidate m fuel n s = (.ok (List.replicate n 1), t) ∧
      CursorAt m uc regs t.c ∧ t.c.usePrevInstr = prev' ∧
      ∀ i, Saved i → (unwGetReg msyncValidate m t.c i t.lga).1 = .ok (regs i) := by
  obtain ⟨t, hsteps, ht, hlast⟩ := unwSteps_callers (hchain.callChain hreg h hfuel) hs hprev
  exact ⟨t, hsteps, ht, hlast, fun i hi => ht.unwGetReg_eq hi t.lga⟩

end Table

/-! ### The procedure with two rows -/

/-- What is encoded at `0x2000`. -/
def twoRowsProcedure : Procedure where
  cieAddr := 0x2008
  fdeAddr := 0x201a
  cie := ⟨.one, none, 1, -8, 16, ⟨.udata8, .absptr, false⟩, 0, ⟨.udata8, .absptr, false⟩,
    ⟨.udata8, .absptr, false⟩⟩
  fde := ⟨0x5000, 0x100, 0⟩
  cieProgram := [.defCfa RSP 8, .offset RIP 1]
  fdeProgram := [.advanceLoc 16, .defCfaOffset 16]

/-- The entry that is registered for it. -/
def twoRowsEntry : DynInfo := ⟨0x5000, 0x5100, 0, .remoteTable 0 1 0x2000⟩

/-- An absolute pointer of eight bytes. -/
theorem ptrAt_udata8 {m : Mem} {pi : ProcInfo} {a v : Word} (h : load64 m a = v) (hv : v ≠ 0) :
    PtrAt m pi ⟨.udata8, .absptr, false⟩ a v v 8 := by
  refine ⟨h ▸ .udata8, ?_⟩
  unfold ptrValue
  rw [if_neg hv, if_neg Bool.false_ne_true]
  exact (BitVec.add_zero v).symm

/-- Both records and both programs, in the memory of the machine that has saved its context. -/
theorem twoRows_procedureAt : ProcedureAt (call getcontext nestedMachine).mem 0 twoRowsProcedure := by
  have hcie : CieAt (call getcontext nestedMachine).mem (freshPi 0) twoRowsProcedure.cie 0x2008 0x201a
      0x2015 := by
    refine @CieAt.mk _ _ _ _ _ _ 0x200c 0x2010 0x2012 0x2014 0x2015 1 1
      (recordAt_of32 ?_ ?_ ?_ ?_) ?_ ?_ ?_ (ulebAt_byte ?_ ?_)
      ⟨[0x78], ⟨_, _, .last 0x78 (by decide), by decide⟩, rfl, by decide, ?_, trivial⟩ ?_ ⟨?_, ?_⟩ rfl
    all_goals decide +kernel
  have hfde : FdeAt (call getcontext nestedMachine).mem (freshPi 0) twoRowsProcedure.cie
      twoRowsProcedure.fde 0x201a 0x2035 0x2008 0x2032 := by
    refine @FdeAt.mk _ _ _ _ _ _ _ _ _ 0x16 _ 0x5000 0x100 8 8 (recordAt_of32 ?_ ?_ ?_ ?_) ?_ ?_
      (ptrAt_udata8 ?_ ?_) (ptrAt_udata8 ?_ ?_) ⟨?_, ?_⟩
    all_goals decide +kernel
  refine .mk hcie hfde ?_ ?_
  · refine .cons (.defCfa (by decide +kernel) (ulebAt_byte (by decide +kernel) (by decide))
      (ulebAt_byte (by decide +kernel) (by decide))) (by decide) ?_
    exact .cons (.offset 16 (by decide +kernel) rfl (ulebAt_byte (by decide +kernel) (by decide)))
      (by decide) .nil
  · refine .cons (.advanceLoc 16 (by decide +kernel)) (by decide) ?_
    exact .cons (.defCfaOffset (by decide +kernel) (ulebAt_byte (by decide +kernel) (by decide)))
      (by decide) .nil

theorem twoRows_tableAt : UnwindTableAt (call getcontext nestedMachine).mem twoRowsEntry
    [twoRowsProcedure] := by
  have hwf : twoRowsProcedure.WellFormed :=
    ⟨⟨List.nodup_nil, ⟨nofun, nofun⟩, ⟨nofun, nofun⟩, ⟨nofun, nofun⟩⟩, by decide, rfl, trivial, trivial⟩
  have htable : TableAt (call getcontext nestedMachine).mem 0x2000 0
      ([twoRowsProcedure].map Procedure.entry) := by
    have hone : ∀ i x, ([twoRowsProcedure].map Procedure.entry)[i]? = some x →
        i = 0 ∧ x = twoRowsProcedure.entry := by
      intro i x hx
      match i, hx with
      | 0, hx => exact ⟨rfl, (Option.some.inj hx).symm⟩
    refine ⟨fun i x hx => ?_, fun i x hx => ?_, fun x hx => ?_, fun x hx => ?_,
      List.pairwise_singleton _ _⟩
    · obtain ⟨rfl, rfl⟩ := hone i x hx
      decide +kernel
    · obtain ⟨rfl, rfl⟩ := hone i x hx
      decide +kernel
    · rw [List.mem_singleton.1 hx]
      decide +kernel
    · rw [List.mem_singleton.1 hx]
      decide +kernel
  refine .mk rfl (by decide) htable (List.pairwise_singleton _ _) ?_ ?_ ?_
  · simp only [List.forall_mem_singleton]
    decide
  · simp only [List.forall_mem_singleton]
    rintro ip ⟨-, hlt⟩
    have hlt : ip.toNat < 0x5100 := BitVec.lt_def.1 hlt
    unfold Fits32 distance
    simp
    omega
  · simp only [List.forall_mem_singleton]
    exact ⟨hwf, twoRows_procedureAt⟩

/-- The chain of the two calls, by the rows of the procedure. -/
theorem nested_tableChain : TableChain (call getcontext nestedMachine).mem 0x40000 [twoRowsProcedure] 2
    true (nestedRegs 0x5012 0x7008) true (nestedRegs 0x6000 0x7020) := by
  have hinner : twoRowsProcedure.row 0x5012 = nestedRow 16 := funext (by decide +kernel)
  have houter : twoRowsProcedure.row 0x5005 = nestedRow 8 := funext (by decide +kernel)
  have hcalls : Calls (call getcontext nestedMachine).mem 0x40000
      (twoRowsProcedure.row (nestedRegs 0x5012 0x7008 RIP)) (nestedRegs 0x5012 0x7008)
      (nestedRegs 0x5005 0x7018) := hinner ▸ nested_inner_calls
  have hcalls' : Calls (call getcontext nestedMachine).mem 0x40000
      (twoRowsProcedure.row (nestedRegs 0x5005 0x7018 RIP)) (nestedRegs 0x5005 0x7018)
      (nestedRegs 0x6000 0x7020) := houter ▸ nested_outer_calls
  exact .out (List.mem_singleton_self _) (by decide +kernel) hcalls
    (.out (List.mem_singleton_self _) (by decide +kernel) hcalls' (.here _ _))

/-- The cursor that is initialised on the saved context steps through both calls. -/
theorem unwSteps_of_table_nested :
    ∃ t, unwSteps twoRowsKernel msyncValidate (call getcontext nestedMachine).mem 9 2
        { callFrame 0 with
          c := initialCursor (call getcontext nestedMachine).mem 0x40000 (callFrame 0).c } =
        (.ok [1, 1], t) ∧
      (unwGetReg msyncValidate (call getcontext nestedMachine).mem t.c RIP t.lga).1 = .ok 0x6000 ∧
      (unwGetReg msyncValidate (call getcontext nestedMachine).mem t.c RSP t.lga).1 = .ok 0x7020 := by
  have hreg : Registered twoRowsKernel twoRowsEntry := ⟨[], [], rfl, List.forall_mem_nil _⟩
  have hfuel : ∀ p ∈ [twoRowsProcedure], p.cieProgram.length < 9 ∧ p.fdeProgram.length < 9 := by
    simp only [List.forall_mem_singleton]
    decide
  obtain ⟨t, hrun, -, -, hregs⟩ := unwSteps_of_table hreg twoRows_tableAt hfuel nested_tableChain
    (s := { callFrame 0 with
      c := initialCursor (call getcontext nestedMachine).mem 0x40000 (callFrame 0).c })
    nested_cursorAt rfl
  exact ⟨t, hrun, hregs RIP (by decide), hregs RSP (by decide)⟩

end LibunwindKern
