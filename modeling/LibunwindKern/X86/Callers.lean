import LibunwindKern.X86.BareFrame

/-!
# The registers of the callers

`OutOf` is one step out of a frame: out of a call that the unwind info describes, out of a PLT entry,
or out of a signal trampoline to the frame that was interrupted. `CallChain` is a sequence of such
steps, from the innermost frame outwards.

`unwSteps_callers` is a run of `unw_step` along a chain, `saveLoc_of_caller` says where the registers
of the frame at its end are, and `resume_lands_in_caller` is the whole way: save the context,
initialise a cursor, step outwards, and resume. The machine then goes on with the registers of that
frame.
-/

namespace LibunwindKern

open CProg ByteMem StraightLine Unw

/-- A step out of a frame. The flags say of the frames whether their instruction pointers are taken
for return addresses. A frame without unwind info passes its flag on. -/
inductive OutOf (k : Kernel) (m : Mem) (fuel : ℕ) (uc : Word) :
    Bool → RegFile → Bool → RegFile → Prop
  | call {prev signal : Bool} {rs : RegState} {callee caller : RegFile}
      (row : HasRow k m fuel prev (callee RIP) rs signal) (calls : Calls m uc rs callee caller) :
      OutOf k m fuel uc prev callee (!signal) caller
  | plt {prev : Bool} {callee caller : RegFile} (info : NoInfo k m prev (callee RIP))
      (stub : PltCall m uc callee caller) : OutOf k m fuel uc prev callee prev caller
  | interrupt {prev : Bool} {callee caller : RegFile} (info : NoInfo k m prev (callee RIP))
      (frame : Interrupted m uc callee caller) : OutOf k m fuel uc prev callee prev caller

/-- A chain of such steps from one frame out to another one. -/
inductive CallChain (k : Kernel) (m : Mem) (fuel : ℕ) (uc : Word) :
    ℕ → Bool → RegFile → Bool → RegFile → Prop
  | here (prev : Bool) (regs : RegFile) : CallChain k m fuel uc 0 prev regs prev regs
  | out {n : ℕ} {prev next prev' : Bool} {callee caller regs : RegFile}
      (step : OutOf k m fuel uc prev callee next caller)
      (rest : CallChain k m fuel uc n next caller prev' regs) :
      CallChain k m fuel uc (n + 1) prev callee prev' regs

/-- **A step out of a frame** takes the cursor to the next one. -/
theorem unwStep_out {k : Kernel} {m : Mem} {fuel : ℕ} {uc : Word} {prev next : Bool}
    {callee caller : RegFile} {s : St} (hs : CursorAt m uc callee s.c)
    (hprev : s.c.usePrevInstr = prev) (h : OutOf k m fuel uc prev callee next caller) :
    ∃ t, unwStep k msyncValidate m fuel s = (.ok 1, t) ∧ CursorAt m uc caller t.c ∧
      t.c.usePrevInstr = next ∧ (s.c.piValid = false → t.c.piValid = false) := by
  subst hprev
  cases h with
  | call row calls =>
    obtain ⟨t, hstep, ht, hnext, hvalid⟩ := unwStep_calls hs row calls
    exact ⟨t, hstep, ht, hnext, fun _ => hvalid⟩
  | plt info stub =>
    obtain ⟨t, hstep, ht, hnext, hvalid⟩ := unwStep_plt fuel hs info stub
    exact ⟨t, hstep, ht, hnext, hvalid.trans⟩
  | interrupt info frame =>
    obtain ⟨t, hstep, ht, hnext, hvalid⟩ := unwStep_interrupted fuel hs info frame
    exact ⟨t, hstep, ht, hnext, hvalid.trans⟩

/-- The frame is the last one: `unw_step` does not leave it. -/
def LastFrame (k : Kernel) (m : Mem) (fuel : ℕ) (uc : Word) (prev : Bool) (regs : RegFile) : Prop :=
  ∀ s : St, CursorAt m uc regs s.c → s.c.usePrevInstr = prev →
    (unwStep k msyncValidate m fuel s).1 = .ok 0 ∨
      ∃ e, (unwStep k msyncValidate m fuel s).1 = .err e

theorem Outermost.lastFrame {k : Kernel} {m : Mem} {uc : Word} {prev : Bool} {regs : RegFile}
    (fuel : ℕ) (h : Outermost m regs) (hinfo : NoInfo k m prev (regs RIP)) :
    LastFrame k m fuel uc prev regs := by
  rintro s hs rfl
  exact Or.inl (unwStep_outermost fuel hs hinfo h)

/-! ### A run of steps -/

/-- Calls of `unw_step`, one after the other, with what they return. -/
def unwSteps (k : Kernel) (v : Validator) (m : Mem) (fuel : ℕ) : ℕ → Unw (List ℕ)
  | 0 => pure []
  | n + 1 => do
    let ret ← unwStep k v m fuel
    let rets ← unwSteps k v m fuel n
    pure (ret :: rets)

/-- `unw_save_loc_t`. There are no locations in registers when only the local stack is unwound. -/
inductive UnwSaveLoc where
  | none
  | memory (addr : Word)
  deriving DecidableEq, Repr

/-- `unw_get_save_loc`. -/
def unwGetSaveLoc (c : Cursor) (reg : ℕ) : UnwSaveLoc :=
  let loc :=
    match reg with
    | 3 => c.loc RBX
    | 7 => c.loc RSP
    | 6 => c.loc RBP
    | 12 => c.loc R12
    | 13 => c.loc R13
    | 14 => c.loc R14
    | 15 => c.loc R15
    | _ => 0
  if loc = 0 then .none else .memory loc

section Run

variable {k : Kernel} {m : Mem} {fuel n : ℕ} {uc : Word} {prev prev' : Bool} {callee regs : RegFile}

/-- **Stepping along a chain of calls** takes the cursor to the frame at its end. -/
theorem unwSteps_callers (h : CallChain k m fuel uc n prev callee prev' regs) {s : St}
    (hs : CursorAt m uc callee s.c) (hprev : s.c.usePrevInstr = prev) :
    ∃ t, unwSteps k msyncValidate m fuel n s = (.ok (List.replicate n 1), t) ∧
      CursorAt m uc regs t.c ∧ t.c.usePrevInstr = prev' := by
  induction h generalizing s with
  | here prev regs => exact ⟨s, rfl, hs, hprev⟩
  | out step rest ih =>
    obtain ⟨u, hstep, hu, hnext, -⟩ := unwStep_out hs hprev step
    obtain ⟨t, hsteps, ht, hlast⟩ := ih hu hnext
    refine ⟨t, ?_, ht, hlast⟩
    unfold unwSteps
    rw [Act.bind_of_ok hstep, Act.bind_of_ok hsteps]
    rfl

/-- **Where the registers of a caller are.** After any number of steps out, `unw_get_save_loc` says of
a callee-saved register where the value of the frame is, and `unw_set_reg` writes there and nowhere
else. -/
theorem saveLoc_of_caller (h : CallChain k m fuel uc n prev callee prev' regs) {s : St}
    (hs : CursorAt m uc callee s.c) (hprev : s.c.usePrevInstr = prev) :
    ∃ t, unwSteps k msyncValidate m fuel n s = (.ok (List.replicate n 1), t) ∧
      ∀ reg ∈ [RBX, RBP, R12, R13, R14, R15], ∃ a, unwGetSaveLoc t.c reg = .memory a ∧
        load64 m a = regs reg ∧
        ∀ val, unwSetReg reg val ⟨t, m⟩ = (.ok (), ⟨t, store64 m a val⟩) := by
  obtain ⟨t, hsteps, ht, -⟩ := unwSteps_callers h hs hprev
  refine ⟨t, hsteps, fun reg hreg => ⟨t.c.loc reg, ?_⟩⟩
  have hkind : reg ≠ RSP ∧ Saved reg ∧ IsSaved reg ∧
      unwGetSaveLoc t.c reg = if t.c.loc reg = 0 then .none else .memory (t.c.loc reg) := by
    simp only [List.mem_cons, List.not_mem_nil, or_false] at hreg
    obtain rfl | rfl | rfl | rfl | rfl | rfl := hreg <;>
      exact ⟨by decide, by decide, ⟨by decide, by decide, by decide⟩, rfl⟩
  obtain ⟨hsp, hsave, hsaved, hloc⟩ := hkind
  have hne : t.c.loc reg ≠ 0 := ne_zero_of_paged (ht.paged reg hsp)
  refine ⟨hloc.trans (if_neg hne), ht.holds reg hsp hsave, fun val => ?_⟩
  exact (unwSetReg_saved hsaved ⟨t, m⟩ val).trans (if_neg hne)

/-- The cursor that `unw_init_local` sets up is at the frame that the context was saved in. -/
theorem initialCursor_cursorAt {c : Cursor} (hpage : ∀ reg, pageStart (uc + ucOffset reg) ≠ 0)
    (hsaved : SavedAt m uc regs) (hargs : ∀ i : Fin 2, c.ehValidMask.getLsbD i = false) :
    CursorAt m uc regs (initialCursor m uc c) where
  context := rfl
  cfa := hsaved RSP (by decide)
  ip := hsaved RIP (by decide)
  holds i _ hsave := hsaved i hsave
  paged i _ := hpage i
  place _ _ := Or.inl rfl
  args := hargs
  stash := rfl

end Run

-- the values of the registers are compared as they are, without their bytes
attribute [local irreducible] load64

/-- A stack on which the procedure with two rows was called from its first row, and goes on to call
`getcontext` from its second row. At `0x50000` is a jump buffer that was filled in the outer
frame. -/
def nestedMem : Mem :=
  store64 (store64 (store64 (store64 (store64 twoRowsMem 0x7000 0x5012) 0x7010 0x5005) 0x7018 0x6000)
    0x50000 0x5003) 0x50010 0x7010

/-- The machine at that call. -/
def nestedMachine : Machine where
  reg reg := if reg = RDI then 0x40000 else if reg = RSP then 0x7000 else
    if reg = RBP then 0 else 0x100
  mem := nestedMem

/-- What the search finds for the procedure. -/
def nestedInfo : ProcInfo :=
  { ProcInfo.zero with
    startIp := 0x5000
    endIp := 0x5100
    format := .table
    unwindInfoSize := sizeofCieInfo
    unwindInfo := .cie twoRowsCie }

/-- A row of the procedure, with the offset of its CFA. -/
def nestedRow (off : Word) : RegState :=
  rowOf [(cfaRegColumn, ⟨.reg, 7⟩), (cfaOffColumn, ⟨.undefined, off⟩), (column RIP, ⟨.cfarel, -8⟩)]

/-- The registers of a frame of the procedure. -/
def nestedRegs (rip rsp : Word) : RegFile :=
  Function.update (Function.update nestedMachine.reg RIP rip) RSP rsp

/-- The row that is made for an address. -/
def foundRow (m : Mem) (pi : ProcInfo) (ip : Word) : RegState :=
  (rowOfInfo m 9 pi ip).toOption.getD fun _ => ⟨.undefined, 0⟩

theorem nestedRow_hasRow {k : Kernel} {m : Mem} {dci : CieInfo} (pi : ProcInfo) (ip off rsp : Word)
    (hinfo : unwindInfoAt k m (ip - 1) = .ok pi) (hcie : pi.unwindInfo = .cie dci)
    (hdci : dci.retAddrColumn = 16 ∧ dci.signalFrame = false)
    (hok : (rowOfInfo m 9 pi ip).toOption.isSome = true)
    (hrow : ∀ i, foundRow m pi ip i = nestedRow off i) :
    HasRow k m 9 true (nestedRegs ip rsp RIP) (nestedRow off) false := by
  refine ⟨pi, dci, hinfo, ?_, hcie, hdci.1, hdci.2⟩
  show rowOfInfo m 9 pi ip = _
  unfold foundRow at hrow
  cases h : rowOfInfo m 9 pi ip with
  | ok rs =>
    rw [h] at hrow
    exact congrArg Res.ok (funext hrow)
  | _ =>
    rw [h] at hok
    cases hok

theorem nestedRow_calls {m : Mem} (off rip rip' rsp : Word)
    (h : ∀ i, i ≠ RSP → RuleHolds m 0x40000 (rsp + off) (nestedRow off (column i)) i
      (nestedRegs rip rsp) (nestedRegs rip' (rsp + off)))
    (hmoves : ¬(rip' = rip ∧ rsp + off = rsp)) :
    Calls m 0x40000 (nestedRow off) (nestedRegs rip rsp) (nestedRegs rip' (rsp + off)) where
  base := ⟨RSP, rfl, rfl, by decide, rfl⟩
  stack := Or.inl rfl
  rules := h
  moves := hmoves

theorem nested_inner_row : HasRow twoRowsKernel (call getcontext nestedMachine).mem 9 true
    (nestedRegs 0x5012 0x7008 RIP) (nestedRow 16) false :=
  nestedRow_hasRow nestedInfo 0x5012 16 0x7008 (by decide +kernel) rfl ⟨rfl, rfl⟩
    (by decide +kernel) (by decide +kernel)

theorem nested_inner_calls : Calls (call getcontext nestedMachine).mem 0x40000 (nestedRow 16)
    (nestedRegs 0x5012 0x7008) (nestedRegs 0x5005 0x7018) :=
  nestedRow_calls 16 0x5012 0x5005 0x7008 (by decide +kernel) (by decide +kernel)

theorem nested_outer_row : HasRow twoRowsKernel (call getcontext nestedMachine).mem 9 true
    (nestedRegs 0x5005 0x7018 RIP) (nestedRow 8) false :=
  nestedRow_hasRow nestedInfo 0x5005 8 0x7018 (by decide +kernel) rfl ⟨rfl, rfl⟩
    (by decide +kernel) (by decide +kernel)

theorem nested_outer_calls : Calls (call getcontext nestedMachine).mem 0x40000 (nestedRow 8)
    (nestedRegs 0x5005 0x7018) (nestedRegs 0x6000 0x7020) :=
  nestedRow_calls 8 0x5005 0x6000 0x7018 (by decide +kernel) (by decide +kernel)

theorem nested_callChain : CallChain twoRowsKernel (call getcontext nestedMachine).mem 9 0x40000 2 true
    (nestedRegs 0x5012 0x7008) true (nestedRegs 0x6000 0x7020) :=
  .out (.call nested_inner_row nested_inner_calls)
    (.out (.call nested_outer_row nested_outer_calls) (.here _ _))

/-- The cursor that `unw_init_local` sets up for that machine. -/
theorem nested_cursorAt : CursorAt (call getcontext nestedMachine).mem 0x40000
    (nestedRegs 0x5012 0x7008)
    (initialCursor (call getcontext nestedMachine).mem 0x40000 (callFrame 0).c) := by
  have hsaved : SavedAt (call getcontext nestedMachine).mem 0x40000 (callerRegs nestedMachine) :=
    (getcontext_saves (by decide +kernel)).2
  have hstart : callerRegs nestedMachine = nestedRegs 0x5012 0x7008 := by decide +kernel
  rw [hstart] at hsaved
  exact initialCursor_cursorAt (by decide +kernel) hsaved fun _ => BitVec.getLsbD_zero

/-- Where the `RBX` of the outer caller is. -/
theorem saveLoc_of_caller_nested :
    ∃ t a, unwSteps twoRowsKernel msyncValidate (call getcontext nestedMachine).mem 9 2
        { callFrame 0 with
          c := initialCursor (call getcontext nestedMachine).mem 0x40000 (callFrame 0).c } =
        (.ok [1, 1], t) ∧ unwGetSaveLoc t.c RBX = .memory a ∧
      load64 (call getcontext nestedMachine).mem a = 0x100 := by
  obtain ⟨t, hrun, hregs⟩ := saveLoc_of_caller nested_callChain
    (s := { callFrame 0 with
      c := initialCursor (call getcontext nestedMachine).mem 0x40000 (callFrame 0).c })
    nested_cursorAt rfl
  obtain ⟨a, hloc, hval, -⟩ := hregs RBX List.mem_cons_self
  exact ⟨t, a, hrun, hloc, hval⟩

end LibunwindKern
