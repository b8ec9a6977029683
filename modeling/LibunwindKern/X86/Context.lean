import LibunwindKern.Lib.StraightLine
import LibunwindKern.X86.Regs

/-!
# Saving and restoring the machine context

The routines of `getcontext.S` and `setcontext.S`, and `_UI_longjmp_cont` (`longjmp.S`) and
`_UI_siglongjmp_cont` (`siglongjmp.S`), as the instructions they are written in. The register file
of the machine has the numbers of the cursor's registers, with `RIP` for the place where the
machine goes on.

* `callerRegs` are the registers the caller of a routine has when the routine returns.
* `SavedAt` says that a saved context holds these registers. It says nothing of `R10` and `R11`,
  which `getcontext` does not save.
* `getcontext_saves` and `setcontext_restores` are the rules for the two routines, and
  `setcontext_returns_again` puts them together: a context that was saved and is still intact is
  restored by returning from `getcontext` a second time.
-/

namespace LibunwindKern

open ByteMem StraightLine

/-- The machine. -/
abbrev Machine := Cpu (Fin dwarfNumPreservedRegs)

/-- The machine when the routine has returned. -/
abbrev call (code : List (Instr (Fin dwarfNumPreservedRegs))) : Machine → Machine :=
  run RSP RIP code

/-- `_Ux86_64_getcontext`. -/
def getcontext : List (Instr (Fin dwarfNumPreservedRegs)) :=
  [ .store R12 (ucOffset R12) RDI,
    .store R13 (ucOffset R13) RDI,
    .store R14 (ucOffset R14) RDI,
    .store R15 (ucOffset R15) RDI,
    .store RBP (ucOffset RBP) RDI,
    .store RBX (ucOffset RBX) RDI,
    .store R8 (ucOffset R8) RDI,
    .store R9 (ucOffset R9) RDI,
    .store RDI (ucOffset RDI) RDI,
    .store RSI (ucOffset RSI) RDI,
    .store RDX (ucOffset RDX) RDI,
    .store RAX (ucOffset RAX) RDI,
    .store RCX (ucOffset RCX) RDI,
    .lea 8 RSP RAX, -- exclude this call
    .store RAX (ucOffset RSP) RDI,
    .load 0 RSP RAX,
    .store RAX (ucOffset RIP) RDI,
    .xor RAX RAX,
    .ret ]

/-- `_Ux86_64_getcontext_trace`. -/
def getcontextTrace : List (Instr (Fin dwarfNumPreservedRegs)) :=
  [ .store RBP (ucOffset RBP) RDI,
    .store RBX (ucOffset RBX) RDI,
    .lea 8 RSP RAX,
    .store RAX (ucOffset RSP) RDI,
    .load 0 RSP RAX,
    .store RAX (ucOffset RIP) RDI,
    .xor RAX RAX,
    .ret ]

/-- `_Ux86_64_setcontext`. -/
def setcontext : List (Instr (Fin dwarfNumPreservedRegs)) :=
  [ .load (ucOffset R8) RDI R8,
    .load (ucOffset R9) RDI R9,
    .load (ucOffset RBX) RDI RBX,
    .load (ucOffset RBP) RDI RBP,
    .load (ucOffset R12) RDI R12,
    .load (ucOffset R13) RDI R13,
    .load (ucOffset R14) RDI R14,
    .load (ucOffset R15) RDI R15,
    .load (ucOffset RSI) RDI RSI,
    .load (ucOffset RDX) RDI RDX,
    .load (ucOffset RAX) RDI RAX,
    .load (ucOffset RCX) RDI RCX,
    .load (ucOffset RSP) RDI RSP,
    -- push the return address on the stack
    .load (ucOffset RIP) RDI RCX,
    .push RCX,
    .load (ucOffset RCX) RDI RCX,
    .load (ucOffset RDI) RDI RDI,
    .ret ]

/-- `_UI_longjmp_cont`. -/
def uiLongjmpCont : List (Instr (Fin dwarfNumPreservedRegs)) :=
  [ .push RAX, -- push target IP as return address
    .mov RDX RAX, -- set up return-value
    .ret ]

/-- `_UI_siglongjmp_cont`. -/
def uiSiglongjmpCont : List (Instr (Fin dwarfNumPreservedRegs)) := [.ret]

/-! ### The specification -/

/-- The registers that the caller of a routine has when the routine returns, if it changes
none. -/
def callerRegs (s : Machine) : Fin dwarfNumPreservedRegs → Word :=
  Function.update (Function.update s.reg RIP (load64 s.mem (s.reg RSP))) RSP (s.reg RSP + 8)

/-- The registers that a saved context holds. -/
def Saved (reg : Fin dwarfNumPreservedRegs) : Prop := reg ≠ R10 ∧ reg ≠ R11

instance : DecidablePred Saved := fun _ => inferInstanceAs (Decidable (_ ∧ _))

/-- The saved context at `uc` holds these registers. -/
def SavedAt (m : Mem) (uc : Word) (regs : Fin dwarfNumPreservedRegs → Word) : Prop :=
  ∀ reg, Saved reg → load64 m (uc + ucOffset reg) = regs reg

/-- The word at `a` shares no byte with the slots of the saved context at `uc`. -/
def OffContext (uc a : Word) : Prop := ∀ reg, Disjoint64 (uc + ucOffset reg) a

instance (uc a : Word) : Decidable (OffContext uc a) := inferInstanceAs (Decidable (∀ _, _))

/-- The registers of a context that was restored on this machine. -/
def restored (regs : Fin dwarfNumPreservedRegs → Word) (t : Machine) :
    Fin dwarfNumPreservedRegs → Word :=
  fun reg => if Saved reg then regs reg else t.reg reg

theorem ucOffset_apart : Apart ucOffset := by
  unfold Apart
  decide

/-! ### `getcontext` -/

/-- The registers that `getcontext` stores as they are, in this order. -/
def storedRegs : List (Fin dwarfNumPreservedRegs) :=
  [R12, R13, R14, R15, RBP, RBX, R8, R9, RDI, RSI, RDX, RAX, RCX]

/-- The part of `getcontext` after the block of stores. -/
def getcontextTail : List (Instr (Fin dwarfNumPreservedRegs)) :=
  [.lea 8 RSP RAX, .store RAX (ucOffset RSP) RDI, .load 0 RSP RAX, .store RAX (ucOffset RIP) RDI,
    .xor RAX RAX, .ret]

theorem getcontext_eq :
    getcontext = storedRegs.map (fun reg => .store reg (ucOffset reg) RDI) ++ getcontextTail := rfl

theorem getcontextTrace_eq :
    getcontextTrace =
      [RBP, RBX].map (fun reg => .store reg (ucOffset reg) RDI) ++ getcontextTail := rfl

/-- The memory that the tail leaves. -/
def tailMem (s : Machine) : Mem :=
  store64 (store64 s.mem (s.reg RDI + ucOffset RSP) (s.reg RSP + 8)) (s.reg RDI + ucOffset RIP)
    (load64 (store64 s.mem (s.reg RDI + ucOffset RSP) (s.reg RSP + 8)) (s.reg RSP))

theorem call_getcontextTail (s : Machine) :
    (call getcontextTail s).mem = tailMem s ∧
      (call getcontextTail s).reg =
        Function.update (Function.update (Function.update s.reg RAX 0) RIP
          (load64 (tailMem s) (s.reg RSP))) RSP (s.reg RSP + 8) := by
  have hclear : ∀ x : Word, x ^^^ x = 0 := fun x => BitVec.xor_self
  constructor
  · simp (disch := decide) only [call, getcontextTail, run_cons, run_nil, exec,
      Function.update_self, Function.update_of_ne, add_zero, tailMem]
  · simp (disch := decide) only [call, getcontextTail, run_cons, run_nil, exec,
      Function.update_self, Function.update_of_ne, add_zero, tailMem, hclear, Function.update_idem]

/-- The tail of `getcontext` saves where the caller goes on. -/
theorem getcontextTail_saves {s : Machine} (hstack : OffContext (s.reg RDI) (s.reg RSP)) :
    load64 (tailMem s) (s.reg RSP) = load64 s.mem (s.reg RSP) ∧
      load64 (tailMem s) (s.reg RDI + ucOffset RSP) = s.reg RSP + 8 ∧
      load64 (tailMem s) (s.reg RDI + ucOffset RIP) = load64 s.mem (s.reg RSP) ∧
      ∀ reg, reg ≠ RSP → reg ≠ RIP →
        load64 (tailMem s) (s.reg RDI + ucOffset reg) = load64 s.mem (s.reg RDI + ucOffset reg) := by
  have hslot : ∀ reg reg', reg ≠ reg' →
      Disjoint64 (s.reg RDI + ucOffset reg) (s.reg RDI + ucOffset reg') :=
    fun reg reg' h => disjoint64_add_left.mpr (ucOffset_apart reg reg' h)
  unfold tailMem
  refine ⟨?_, ?_, ?_, fun reg hsp hip => ?_⟩
  · rw [load64_store64_of_disjoint (hstack RIP), load64_store64_of_disjoint (hstack RSP)]
  · rw [load64_store64_of_disjoint (hslot RIP RSP (by decide)), load64_store64_self]
  · rw [load64_store64_self, load64_store64_of_disjoint (hstack RSP)]
  · rw [load64_store64_of_disjoint (hslot RIP reg (Ne.symm hip)),
      load64_store64_of_disjoint (hslot RSP reg (Ne.symm hsp))]

section Getcontext

variable {s : Machine}

/-- The machine before the tail of `getcontext`. -/
def storedMachine (rs : List (Fin dwarfNumPreservedRegs)) (s : Machine) : Machine :=
  { s with mem := storeAll (s.reg RDI) ucOffset s.reg rs s.mem }

theorem call_stores_tail (rs : List (Fin dwarfNumPreservedRegs)) (s : Machine) :
    call (rs.map (fun reg => .store reg (ucOffset reg) RDI) ++ getcontextTail) s =
      call getcontextTail (storedMachine rs s) := by
  show run _ _ _ _ = _
  rw [run_append, run_stores]
  rfl

/-- The stores leave the stack alone, so the routine still returns to its caller. -/
theorem stored_return (hstack : OffContext (s.reg RDI) (s.reg RSP))
    (rs : List (Fin dwarfNumPreservedRegs)) :
    load64 (storedMachine rs s).mem (s.reg RSP) = load64 s.mem (s.reg RSP) :=
  storeAll_of_disjoint fun reg _ => hstack reg

theorem call_stores_tail_reg (hstack : OffContext (s.reg RDI) (s.reg RSP))
    (rs : List (Fin dwarfNumPreservedRegs)) :
    (call (rs.map (fun reg => .store reg (ucOffset reg) RDI) ++ getcontextTail) s).reg =
      Function.update (callerRegs s) RAX 0 := by
  have hret : load64 (tailMem (storedMachine rs s)) (s.reg RSP) = load64 s.mem (s.reg RSP) :=
    (getcontextTail_saves (s := storedMachine rs s) hstack).1.trans (stored_return hstack rs)
  rw [call_stores_tail, (call_getcontextTail _).2]
  show Function.update (Function.update (Function.update s.reg RAX 0) RIP
    (load64 (tailMem (storedMachine rs s)) (s.reg RSP))) RSP (s.reg RSP + 8) = _
  unfold callerRegs
  rw [hret, Function.update_comm (show RAX ≠ RIP by decide),
    Function.update_comm (show RAX ≠ RSP by decide)]

theorem call_stores_tail_slot (hstack : OffContext (s.reg RDI) (s.reg RSP))
    {rs : List (Fin dwarfNumPreservedRegs)} {reg : Fin dwarfNumPreservedRegs}
    (hreg : reg = RSP ∨ reg = RIP ∨ reg ∈ rs ∧ reg ≠ RSP ∧ reg ≠ RIP) :
    load64 (call (rs.map (fun reg => .store reg (ucOffset reg) RDI) ++ getcontextTail) s).mem
      (s.reg RDI + ucOffset reg) = callerRegs s reg := by
  obtain ⟨-, hsp, hip, hother⟩ := getcontextTail_saves (s := storedMachine rs s) hstack
  rw [call_stores_tail, (call_getcontextTail _).1]
  obtain rfl | rfl | ⟨hmem, hnesp, hneip⟩ := hreg
  · rw [callerRegs, Function.update_self]
    exact hsp
  · rw [callerRegs, Function.update_of_ne (by decide), Function.update_self]
    exact hip.trans (stored_return hstack rs)
  · rw [callerRegs, Function.update_of_ne hnesp, Function.update_of_ne hneip]
    exact (hother reg hnesp hneip).trans (load64_storeAll ucOffset_apart hmem)

/-- **What `getcontext` saves.** It returns zero and changes no other register of its caller,
and the saved context holds the registers of the caller as they are after the return, with `RAX`
as it was at the call. -/
theorem getcontext_saves (hstack : OffContext (s.reg RDI) (s.reg RSP)) :
    (call getcontext s).reg = Function.update (callerRegs s) RAX 0 ∧
      SavedAt (call getcontext s).mem (s.reg RDI) (callerRegs s) := by
  rw [getcontext_eq]
  refine ⟨call_stores_tail_reg hstack _, fun reg hreg => call_stores_tail_slot hstack ?_⟩
  revert reg
  decide

/-- `getcontext_trace` returns the same registers and saves the four that a fast trace reads. -/
theorem getcontextTrace_saves (hstack : OffContext (s.reg RDI) (s.reg RSP)) :
    (call getcontextTrace s).reg = Function.update (callerRegs s) RAX 0 ∧
      ∀ reg ∈ [RBP, RBX, RSP, RIP],
        load64 (call getcontextTrace s).mem (s.reg RDI + ucOffset reg) = callerRegs s reg := by
  rw [getcontextTrace_eq]
  refine ⟨call_stores_tail_reg hstack _, fun reg hreg => call_stores_tail_slot hstack ?_⟩
  revert reg
  decide

end Getcontext

/-! ### `setcontext` -/

/-- The registers that `setcontext` loads first, in this order. -/
def loadedRegs : List (Fin dwarfNumPreservedRegs) :=
  [R8, R9, RBX, RBP, R12, R13, R14, R15, RSI, RDX, RAX, RCX, RSP]

/-- The part of `setcontext` after the block of loads. -/
def setcontextTail : List (Instr (Fin dwarfNumPreservedRegs)) :=
  [.load (ucOffset RIP) RDI RCX, .push RCX, .load (ucOffset RCX) RDI RCX,
    .load (ucOffset RDI) RDI RDI, .ret]

theorem setcontext_eq :
    setcontext = loadedRegs.map (fun reg => .load (ucOffset reg) RDI reg) ++ setcontextTail := rfl

/-- The memory in which the tail has pushed the place where the machine goes on. -/
def pushedMem (s : Machine) : Mem :=
  store64 s.mem (s.reg RSP - 8) (load64 s.mem (s.reg RDI + ucOffset RIP))

theorem call_setcontextTail (s : Machine) :
    (call setcontextTail s).mem = pushedMem s ∧
      (call setcontextTail s).reg RIP = load64 s.mem (s.reg RDI + ucOffset RIP) ∧
      (call setcontextTail s).reg RSP = s.reg RSP ∧
      (∀ reg ∈ [RCX, RDI],
        (call setcontextTail s).reg reg = load64 (pushedMem s) (s.reg RDI + ucOffset reg)) ∧
      ∀ reg ∉ [RIP, RSP, RCX, RDI], (call setcontextTail s).reg reg = s.reg reg := by
  have hpop : s.reg RSP - 8 + 8 = s.reg RSP := sub_add_cancel _ _
  have hrun : call setcontextTail s = ⟨(call setcontextTail s).reg, pushedMem s⟩ := by
    simp (disch := decide) only [call, setcontextTail, run_cons, run_nil, exec,
      Function.update_self, Function.update_of_ne, pushedMem]
  refine ⟨congrArg Cpu.mem hrun, ?_, ?_, fun reg hreg => ?_, fun reg hreg => ?_⟩
  · simp (disch := decide) only [call, setcontextTail, run_cons, run_nil, exec,
      Function.update_self, Function.update_of_ne, load64_store64_self]
  · simp (disch := decide) only [call, setcontextTail, run_cons, run_nil, exec,
      Function.update_self, Function.update_of_ne, hpop]
  · obtain rfl | rfl : reg = RCX ∨ reg = RDI := by simpa using hreg
    · simp (disch := decide) only [call, setcontextTail, run_cons, run_nil, exec,
        Function.update_self, Function.update_of_ne, pushedMem]
    · simp (disch := decide) only [call, setcontextTail, run_cons, run_nil, exec,
        Function.update_self, Function.update_of_ne, pushedMem]
  · simp only [List.mem_cons, List.not_mem_nil, or_false, not_or] at hreg
    obtain ⟨hip, hsp, hcx, hdi⟩ := hreg
    simp only [call, setcontextTail, run_cons, run_nil, exec, Function.update_of_ne hip,
      Function.update_of_ne hsp, Function.update_of_ne hcx, Function.update_of_ne hdi]

/-- **What `setcontext` restores.** From a context that holds these registers, it goes on with
them. The place where it goes on is left below the stack pointer, and that word must not be the
slot of `RCX` or of `RDI`, which are loaded after it was written. -/
theorem setcontext_restores {t : Machine} (regs : Fin dwarfNumPreservedRegs → Word)
    (hsaved : SavedAt t.mem (t.reg RDI) regs)
    (hpush : ∀ reg ∈ [RCX, RDI], Disjoint64 (regs RSP - 8) (t.reg RDI + ucOffset reg)) :
    (call setcontext t).reg = restored regs t ∧
      (call setcontext t).mem = store64 t.mem (regs RSP - 8) (regs RIP) := by
  -- the machine after the block of loads
  obtain ⟨u, hu⟩ : ∃ u : Machine, u = call (loadedRegs.map fun reg =>
    .load (ucOffset reg) RDI reg) t := ⟨_, rfl⟩
  have hrun : call setcontext t = call setcontextTail u := by
    rw [setcontext_eq, hu]
    exact run_append _ _ _
  replace hu := hu.trans (run_loads ucOffset (by decide) t)
  have humem : u.mem = t.mem := by rw [hu]
  have hureg : ∀ reg, u.reg reg = if reg ∈ loadedRegs then load64 t.mem (t.reg RDI + ucOffset reg)
      else t.reg reg := by
    intro reg
    rw [hu]
  have hbase : u.reg RDI = t.reg RDI := by rw [hureg, if_neg (by decide)]
  have hsp : u.reg RSP = regs RSP := by
    rw [hureg, if_pos (by decide), hsaved RSP (by decide)]
  have hip : load64 t.mem (t.reg RDI + ucOffset RIP) = regs RIP := hsaved RIP (by decide)
  have hpushed : pushedMem u = store64 t.mem (regs RSP - 8) (regs RIP) := by
    unfold pushedMem
    rw [hsp, hbase, humem, hip]
  obtain ⟨hmem, hrip, hrsp, hlate, hother⟩ := call_setcontextTail u
  rw [hrun]
  refine ⟨funext fun reg => ?_, hmem.trans hpushed⟩
  unfold restored
  by_cases hreg : reg ∈ [RIP, RSP, RCX, RDI]
  · simp only [List.mem_cons, List.not_mem_nil, or_false] at hreg
    obtain rfl | rfl | hlast : reg = RIP ∨ reg = RSP ∨ reg ∈ [RCX, RDI] := by simpa using hreg
    · rw [if_pos (by decide), hrip, hbase, humem, hip]
    · rw [if_pos (by decide), hrsp, hsp]
    · have hsave : Saved reg := by
        revert reg
        decide
      rw [if_pos hsave, hlate reg hlast, hpushed, hbase,
        load64_store64_of_disjoint (hpush reg hlast), hsaved reg hsave]
  · rw [hother reg hreg, hureg]
    have hsame : (reg ∈ loadedRegs ↔ Saved reg) := by
      revert reg
      decide
    by_cases hsave : Saved reg
    · rw [if_pos (hsame.mpr hsave), if_pos hsave, hsaved reg hsave]
    · rw [if_neg fun h => hsave (hsame.mp h), if_neg hsave]

/-! ### Returning twice -/

/-- **Saving and restoring.** `getcontext` comes back to its caller with zero. As long as the
context is intact, `setcontext` comes back to the same caller again, with all registers as they
were at the return but for `RAX`, which is as it was at the call, and for `R10` and `R11`, which
are as they were when the context was restored. Memory is as it was then, but for the word that
held the return address. -/
theorem setcontext_returns_again {s t : Machine} (hstack : OffContext (s.reg RDI) (s.reg RSP))
    (huc : t.reg RDI = s.reg RDI)
    (hkept : ∀ reg, Saved reg → load64 t.mem (s.reg RDI + ucOffset reg) =
      load64 (call getcontext s).mem (s.reg RDI + ucOffset reg)) :
    (call getcontext s).reg = Function.update (callerRegs s) RAX 0 ∧
      (call setcontext t).reg = restored (callerRegs s) t ∧
      (call setcontext t).mem = store64 t.mem (s.reg RSP) (load64 s.mem (s.reg RSP)) := by
  obtain ⟨hreturn, hsaved⟩ := getcontext_saves hstack
  have hslot : callerRegs s RSP - 8 = s.reg RSP := by
    rw [callerRegs, Function.update_self]
    exact add_sub_cancel_right _ _
  have hrip : callerRegs s RIP = load64 s.mem (s.reg RSP) := by
    rw [callerRegs, Function.update_of_ne (by decide), Function.update_self]
  have hrestore := setcontext_restores (t := t) (callerRegs s)
    (fun reg hreg => by rw [huc, hkept reg hreg, hsaved reg hreg])
    (fun reg _ => by
      rw [hslot, huc]
      exact Disjoint64.symm (hstack reg))
  rw [hslot, hrip] at hrestore
  exact ⟨hreturn, hrestore⟩

/-- A machine that calls `getcontext` with a context at `0x40000`, and returns to `0x5012`. -/
def callingMachine : Machine where
  reg reg := if reg = RDI then 0x40000 else if reg = RSP then 0x7000 else BitVec.ofNat 64 reg
  mem := store64 (fun _ => 0) 0x7000 0x5012

/-- The same machine later, when all its registers have changed and it calls `setcontext`. -/
def laterMachine : Machine where
  reg := Function.update (fun _ => 7) RDI 0x40000
  mem := (call getcontext callingMachine).mem

theorem setcontext_returns_again_later :
    (call getcontext callingMachine).reg = Function.update (callerRegs callingMachine) RAX 0 ∧
      (call setcontext laterMachine).reg = restored (callerRegs callingMachine) laterMachine ∧
      (call setcontext laterMachine).mem = store64 laterMachine.mem 0x7000 0x5012 :=
  setcontext_returns_again (s := callingMachine) (t := laterMachine) (by decide +kernel) rfl
    fun _ _ => rfl

end LibunwindKern
