import LibunwindKern.Trace.Backtrace
import LibunwindKern.X86.Callers

/-!
# The addresses in a backtrace

The model of `unw_backtrace` (`src/backtrace.c`). It tries `tdep_trace`, and if that fails it saves the
context again and calls `slow_backtrace`.

`CallPath` is a chain of frames with the registers of each of them. The slow backtrace stores their
instruction pointers, the innermost one first, as many as there is room for.

* `slowLoop_callers` is the loop.
* `tdepTrace_length`, `unwBacktrace_length`: never more addresses than there is room for.
* `unwBacktrace_stores_callers`: what the buffer holds when the fast backtrace fails.
-/

namespace LibunwindKern

open CProg ByteMem StraightLine Unw Fast

/-! ### `unw_backtrace` -/

/-- The call of a routine that saves the context. -/
def saveContext (code : List (Instr (Fin dwarfNumPreservedRegs))) (regs : RegFile) : Fast Unit :=
  onSession (Act.modify fun w => { w with mem := (call code ⟨regs, w.mem⟩).mem })

/-- `slow_backtrace`, with a cursor of its own. -/
def slowBacktraceOn (k : Kernel) (v : Validator) (fuel : ℕ) (size : ℤ) (uc : Word) (c : Cursor) :
    Fast (List Word) := do
  setCursor fun _ => c
  onSession (Session.onCursor fun m => slowBacktrace k v m fuel size uc)

/-- `unw_backtrace`, called by thread `t`. `regs` are the registers at the call of
`tdep_getcontext_trace`, and `regs'` the ones at the call of `unw_getcontext`. `c` is what is on the
stack where `slow_backtrace` has its cursor. -/
def unwBacktrace (K : KernMalloc) (k : Kernel) (v : Validator) (fuel : ℕ) (t : Tid)
    (regs regs' : RegFile) (c : Cursor) (size : ℤ) : Fast (List Word) := do
  saveContext getcontextTrace regs
  let ret ← Act.attempt (onSession (Session.onCursor fun m => unwInitLocal v m (regs RDI)))
  match ret with
  | .error _ => pure []
  | .ok () => do
    let (ret, addrs) ← tdepTrace K k v fuel t size
    match ret with
    | .ok () => pure addrs
    | .error _ => do
      saveContext getcontext regs'
      slowBacktraceOn k v fuel size (regs' RDI) c

/-! ### The size of the buffer -/

section Size

variable {K : KernMalloc} {k : Kernel} {v : Validator} {m : Mem} {fuel : ℕ}

theorem slowLoop_length : ∀ (n : ℕ) {s t : St} {addrs : List Word},
    slowLoop k v m fuel n s = (.ok addrs, t) → addrs.length ≤ n
  | 0, s, t, addrs, h => by
    obtain ⟨_, _, -, hret⟩ := Act.bind_eq_ok h
    cases hret
    exact le_rfl
  | n + 1, s, t, addrs, h => by
    obtain ⟨ret, u, -, h⟩ := Act.bind_eq_ok h
    split at h
    · obtain ⟨ip, w, -, h⟩ := Act.bind_eq_ok h
      cases ip with
      | error _ =>
        cases h
        exact Nat.zero_le _
      | ok ip =>
        obtain ⟨rest, w', hrest, hret⟩ := Act.bind_eq_ok h
        cases hret
        exact Nat.succ_le_succ (slowLoop_length n hrest)
    · cases h
      exact Nat.zero_le _

theorem slowBacktrace_length {size : ℤ} {uc : Word} {s t : St} {addrs : List Word}
    (h : slowBacktrace k v m fuel size uc s = (.ok addrs, t)) : addrs.length ≤ size.toNat := by
  obtain ⟨ret, _, -, h⟩ := Act.bind_eq_ok h
  cases ret with
  | error _ =>
    cases h
    exact Nat.zero_le _
  | ok _ => exact slowLoop_length _ h

theorem traceLoop_length {cache : Word} : ∀ (n : ℕ) {r : TraceRegs} {s t : Tracer}
    {x : Except UnwError Unit × List Word}, traceLoop K k v fuel cache n r s = (.ok x, t) →
      x.2.length ≤ n
  | 0, r, s, t, x, h => by
    cases h
    exact le_rfl
  | n + 1, r, s, t, x, h => by
    obtain ⟨turn, u, -, h⟩ := Act.bind_eq_ok h
    cases turn with
    | inl ret =>
      cases h
      exact Nat.zero_le _
    | inr r' =>
      obtain ⟨_, _, -, h⟩ := Act.bind_eq_ok h
      obtain ⟨rest, w, hrest, hret⟩ := Act.bind_eq_ok h
      cases hret
      exact Nat.succ_le_succ (traceLoop_length n hrest)

theorem tdepTrace_length {t : Tid} {size : ℤ} {s u : Tracer} {x : Except UnwError Unit × List Word}
    (h : tdepTrace K k v fuel t size s = (.ok x, u)) : x.2.length ≤ size.toNat := by
  unfold tdepTrace at h
  split at h
  · cases h
    exact Nat.zero_le _
  · obtain ⟨_, _, -, h⟩ := Act.bind_eq_ok h
    rw [Act.get_bind] at h
    obtain ⟨cache, w, -, h⟩ := Act.bind_eq_ok h
    split at h
    · obtain ⟨_, _, -, h⟩ := Act.bind_eq_ok h
      cases h
      exact Nat.zero_le _
    · exact traceLoop_length _ h

/-- **The buffer does not overflow.** -/
theorem unwBacktrace_length {t : Tid} {regs regs' : RegFile} {c : Cursor} {size : ℤ} {s u : Tracer}
    {addrs : List Word} (h : unwBacktrace K k v fuel t regs regs' c size s = (.ok addrs, u)) :
    addrs.length ≤ size.toNat := by
  obtain ⟨_, _, -, h⟩ := Act.bind_eq_ok h
  obtain ⟨ret, _, -, h⟩ := Act.bind_eq_ok h
  cases ret with
  | error _ =>
    cases h
    exact Nat.zero_le _
  | ok _ =>
    obtain ⟨x, _, htrace, h⟩ := Act.bind_eq_ok h
    obtain ⟨ret, found⟩ := x
    cases ret with
    | ok _ =>
      cases h
      exact tdepTrace_length htrace
    | error _ =>
      obtain ⟨_, _, -, h⟩ := Act.bind_eq_ok h
      obtain ⟨_, w, -, h⟩ := Act.bind_eq_ok h
      obtain ⟨_, hslow, -⟩ := Act.zoom_eq_ok h
      obtain ⟨_, _, -, hslow⟩ := Act.bind_eq_ok hslow
      obtain ⟨_, hslow, -⟩ := Act.zoom_eq_ok hslow
      exact slowBacktrace_length hslow

end Size

/-! ### The callers -/

/-- A chain of steps from one frame out to the last one of the list, with the registers of all the
frames on it. -/
inductive CallPath (k : Kernel) (m : Mem) (fuel : ℕ) (uc : Word) :
    Bool → RegFile → List RegFile → Bool → Prop
  | here (prev : Bool) (regs : RegFile) : CallPath k m fuel uc prev regs [] prev
  | out {prev next prev' : Bool} {callee caller : RegFile} {callers : List RegFile}
      (step : OutOf k m fuel uc prev callee next caller)
      (rest : CallPath k m fuel uc next caller callers prev') :
      CallPath k m fuel uc prev callee (caller :: callers) prev'

section Callers

variable {k : Kernel} {m : Mem} {fuel : ℕ} {uc : Word} {prev prev' : Bool} {callee : RegFile}
  {callers : List RegFile}

/-- **The loop of the slow backtrace** stores the instruction pointers of the callers. -/
theorem slowLoop_callers (h : CallPath k m fuel uc prev callee callers prev') : ∀ (n : ℕ) {s : St},
    CursorAt m uc callee s.c → s.c.usePrevInstr = prev →
    (callers.length ≤ n → LastFrame k m fuel uc prev' ((callee :: callers).getLast nofun)) →
      (slowLoop k msyncValidate m fuel n s).1 = .ok ((callers.map (· RIP)).take n) := by
  induction h with
  | here prev regs =>
    intro n s hs hprev hlast
    rcases hstep : unwStep k msyncValidate m fuel s with ⟨r, t⟩
    have hstop := hlast (Nat.zero_le n) s hs hprev
    rw [hstep] at hstop
    rw [List.map_nil, List.take_nil]
    obtain rfl | ⟨e, rfl⟩ := hstop
    · cases n <;> exact congrArg Prod.fst (Act.bind_of_ok (Act.attempt_of_ok hstep))
    · cases n <;> exact congrArg Prod.fst (Act.bind_of_ok (Act.attempt_of_err hstep))
  | out step rest ih =>
    intro n s hs hprev hlast
    obtain ⟨u, hstep, hu, hnext, -⟩ := unwStep_out hs hprev step
    cases n with
    | zero => exact congrArg Prod.fst (Act.bind_of_ok (Act.attempt_of_ok hstep))
    | succ n =>
      have hrest := ih n hu hnext fun hle => hlast (Nat.succ_le_succ hle)
      have hip : Act.attempt (read fun c => unwGetReg msyncValidate m c 16) u =
          (.ok (.ok u.c.ip), u) := Act.attempt_of_ok rfl
      rw [List.map_cons, List.take_succ_cons, ← hu.ip]
      unfold slowLoop
      rw [Act.bind_of_ok (Act.attempt_of_ok hstep)]
      dsimp only
      rw [Act.bind_of_ok hip]
      dsimp only
      rw [Act.bind_of_ok (Act.run_of_outcome hrest)]
      rfl

end Callers

-- the values of the registers are compared as they are, without their bytes
attribute [local irreducible] load64

/-- **What a backtrace stores.** The fast backtrace fails, and leaves memory such that the unwind info
describes the frames from the machine that calls `unw_getcontext` outwards. Then the buffer holds the
addresses where these frames go on, the innermost one first, up to its size. -/
theorem unwBacktrace_stores_callers {K : KernMalloc} {k : Kernel} {fuel : ℕ} {t : Tid}
    {regs regs' : RegFile} {c : Cursor} {size : ℤ} {s u : Tracer} {e : UnwError} {prev : Bool}
    {found : List Word} {callers : List RegFile}
    (hfast : (saveContext getcontextTrace regs >>= fun _ =>
      onSession (Session.onCursor fun m => unwInitLocal msyncValidate m (regs RDI)) >>= fun _ =>
        tdepTrace K k msyncValidate fuel t size) s = (.ok (.error e, found), u))
    (hpage : ∀ reg, pageStart (regs' RDI + ucOffset reg) ≠ 0)
    (hstack : OffContext (regs' RDI) (regs' RSP))
    (hargs : ∀ i : Fin 2, c.ehValidMask.getLsbD i = false)
    (hpath : CallPath k (call getcontext ⟨regs', u.session.mem⟩).mem fuel (regs' RDI) true
      (callerRegs ⟨regs', u.session.mem⟩) callers prev)
    (hlast : callers.length ≤ size.toNat →
      LastFrame k (call getcontext ⟨regs', u.session.mem⟩).mem fuel (regs' RDI) prev
        ((callerRegs ⟨regs', u.session.mem⟩ :: callers).getLast nofun)) :
    (unwBacktrace K k msyncValidate fuel t regs regs' c size s).1 =
      .ok ((callers.map (· RIP)).take size.toNat) := by
  obtain ⟨_, u₁, hsave, hrest⟩ := Act.bind_eq_ok hfast
  obtain ⟨_, u₂, hinit, htrace⟩ := Act.bind_eq_ok hrest
  obtain ⟨-, hsaved⟩ := getcontext_saves (s := ⟨regs', u.session.mem⟩) hstack
  have hslow : (unwBacktrace K k msyncValidate fuel t regs regs' c size s).1 =
      (slowBacktrace k msyncValidate (call getcontext ⟨regs', u.session.mem⟩).mem fuel size (regs' RDI)
        { u.session.st with c := c }).1 := by
    unfold unwBacktrace
    rw [Act.bind_of_ok hsave, Act.bind_of_ok (Act.attempt_of_ok hinit)]
    dsimp only
    rw [Act.bind_of_ok htrace]
    rfl
  rw [hslow]
  generalize (call getcontext ⟨regs', u.session.mem⟩).mem = m at *
  have hlocal := unwInitLocal_eq (v := msyncValidate) (m := m) (ne_zero_of_paged (hpage RIP))
    (ne_zero_of_paged (hpage RSP)) { u.session.st with c := c }
  unfold slowBacktrace
  rw [Act.bind_of_ok (Act.attempt_of_ok hlocal)]
  exact slowLoop_callers hpath size.toNat (initialCursor_cursorAt hpage hsaved hargs) rfl hlast

/-! ### A thread that is about to exit -/

/-- The stack of the two calls. The thread is about to exit, and gets no frame cache. -/
def exitingTracer : Tracer :=
  ⟨⟨callFrame 0, nestedMem⟩, { bootTrace with tlsCacheDestroyed := fun _ => true }⟩

/-- The fast backtrace of that thread. -/
def exitingTrace : Res UnwError (Except UnwError Unit × List Word) × Tracer :=
  (saveContext getcontextTrace nestedMachine.reg >>= fun _ =>
    onSession (Session.onCursor fun m => unwInitLocal msyncValidate m (nestedMachine.reg RDI)) >>=
      fun _ => tdepTrace bumpKernel twoRowsKernel msyncValidate 9 1 5) exitingTracer

/-- Memory when the slow backtrace starts. -/
def exitingMem : Mem := (call getcontext ⟨nestedMachine.reg, exitingTrace.2.session.mem⟩).mem

theorem exitingTrace_fails :
    (saveContext getcontextTrace nestedMachine.reg >>= fun _ =>
      onSession (Session.onCursor fun m => unwInitLocal msyncValidate m (nestedMachine.reg RDI)) >>=
        fun _ => tdepTrace bumpKernel twoRowsKernel msyncValidate 9 1 5) exitingTracer =
      (.ok (.error .enomem, []), exitingTrace.2) :=
  Act.run_of_outcome (q := exitingTrace) (by decide +kernel)

-- what the fast backtrace has done is only looked at by the kernel
attribute [local irreducible] exitingTrace

theorem exiting_path : CallPath twoRowsKernel exitingMem 9 0x40000 true
    (callerRegs ⟨nestedMachine.reg, exitingTrace.2.session.mem⟩)
    [nestedRegs 0x5005 0x7018, nestedRegs 0x6000 0x7020] true := by
  have hstart : callerRegs ⟨nestedMachine.reg, exitingTrace.2.session.mem⟩ =
      nestedRegs 0x5012 0x7008 := by decide +kernel
  rw [hstart]
  have hinner := nestedRow_hasRow (k := twoRowsKernel) (m := exitingMem) nestedInfo 0x5012 16 0x7008
    (by decide +kernel) rfl ⟨rfl, rfl⟩ (by decide +kernel) (by decide +kernel)
  have houter := nestedRow_hasRow (k := twoRowsKernel) (m := exitingMem) nestedInfo 0x5005 8 0x7018
    (by decide +kernel) rfl ⟨rfl, rfl⟩ (by decide +kernel) (by decide +kernel)
  refine .out (.call hinner (nestedRow_calls 16 0x5012 0x5005 0x7008 ?_ ?_))
    (.out (.call houter (nestedRow_calls 8 0x5005 0x6000 0x7018 ?_ ?_)) (.here _ _))
  all_goals decide +kernel

theorem exiting_outermost : Outermost exitingMem (nestedRegs 0x6000 0x7020) :=
  ⟨by decide +kernel, by decide +kernel, by decide +kernel⟩

/-- The addresses behind the two calls. The frame at the second one has a null frame pointer. -/
theorem unwBacktrace_stores_callers_exiting :
    (unwBacktrace bumpKernel twoRowsKernel msyncValidate 9 1 nestedMachine.reg nestedMachine.reg
      (callFrame 0).c 5 exitingTracer).1 = .ok [0x5005, 0x6000] :=
  unwBacktrace_stores_callers exitingTrace_fails (by decide +kernel) (by decide +kernel)
    (fun _ => BitVec.getLsbD_zero) exiting_path fun _ =>
      exiting_outermost.lastFrame 9 (by unfold NoInfo; decide +kernel)

end LibunwindKern
