import LibunwindKern.Unwind.FrameView
import LibunwindKern.Unwind.LandingPad

/-!
# The frames that a trace function sees

The model of `_Unwind_Backtrace` (`Unwind.c`), which calls a trace function for every frame it steps
out to, until the function objects. The function looks at the frame through `_Unwind_GetGR`.

On the stack of a machine the calls are the callers, the innermost one first, with their registers
(`unwindBacktrace_visits`). A function that objects is not told from a step that fails.
-/

namespace LibunwindKern.Unwind

open CProg ByteMem StraightLine Unw

variable {υ κ ω : Type}

/-- A trace function with its parameter. -/
abbrev TraceFn (κ ω : Type) : Type := UnwindContext κ → World ω → ReasonCode × World ω

/-- `(*trace) (&context, trace_parameter)`. -/
def callTrace (trace : TraceFn κ ω) : UnwAct κ ω ReasonCode := fun s =>
  (.ok (trace s.context s.world).1, { s with world := (trace s.context s.world).2 })

/-- One turn of the loop of `_Unwind_Backtrace`. -/
def backtraceTurn (env : Env υ κ ω) (trace : TraceFn κ ω) :
    Unit → UnwAct κ ω (Unit ⊕ ReasonCode) := fun _ => do
  let ret ← stepContext env
  if ret ≤ 0 then
    if ret = 0 then
      pure (.inr .endOfStack)
    else
      pure (.inr .fatalPhase1Error)
  else do
    let reason ← callTrace trace
    if reason ≠ .noReason then
      pure (.inr .fatalPhase1Error)
    else
      pure (.inl ())

/-- `_Unwind_Backtrace`. -/
def unwindBacktrace (env : Env υ κ ω) (trace : TraceFn κ ω) (fuel : ℕ) : UnwAct κ ω ReasonCode := do
  let r ← unwindInitContext env
  match r with
  | none => pure .fatalPhase1Error
  | some _ => Act.iter (backtraceTurn env trace) fuel ()

section Turn

variable {env : Env υ κ ω} {c : κ} (trace : TraceFn κ ω) (b : Bool) (w : World ω)
  (calls : List (Call κ))

/-- A step that does not lead to another frame. -/
theorem backtraceTurn_of_last (h : (env.unwStep c).1 ≤ 0) :
    backtraceTurn env trace () ⟨⟨c, b⟩, w, calls⟩ =
      (.ok (.inr (if (env.unwStep c).1 = 0 then .endOfStack else .fatalPhase1Error)),
        ⟨⟨(env.unwStep c).2, b⟩, w, calls⟩) := by
  unfold backtraceTurn
  rw [stepContext_bind, if_pos h]
  by_cases hend : (env.unwStep c).1 = 0
  · rw [if_pos hend, if_pos hend]
    rfl
  · rw [if_neg hend, if_neg hend]
    rfl

/-- A step to another frame, which the function is called for. -/
theorem backtraceTurn_of_step (h : 0 < (env.unwStep c).1) :
    backtraceTurn env trace () ⟨⟨c, b⟩, w, calls⟩ =
      (.ok (if (trace ⟨(env.unwStep c).2, b⟩ w).1 = .noReason then .inl ()
          else .inr .fatalPhase1Error),
        ⟨⟨(env.unwStep c).2, b⟩, (trace ⟨(env.unwStep c).2, b⟩ w).2, calls⟩) := by
  unfold backtraceTurn
  rw [stepContext_bind, if_neg (not_le_of_gt h)]
  show (if (trace ⟨(env.unwStep c).2, b⟩ w).1 ≠ .noReason then pure (.inr .fatalPhase1Error)
    else pure (.inl ()) : UnwAct κ ω (Unit ⊕ ReasonCode)) _ = _
  by_cases hgo : (trace ⟨(env.unwStep c).2, b⟩ w).1 = .noReason
  · rw [if_neg (not_not_intro hgo), if_pos hgo]
    rfl
  · rw [if_pos hgo, if_neg hgo]
    rfl

end Turn

/-! ### On the stack of a machine -/

/-- What `_Unwind_GetGR` says about the registers that a context keeps. -/
def seenRegs (m : Mem) (s : St) (endOfStack : Bool) : RegFile := fun index =>
  if Saved index then
    match (unwindGetGR m endOfStack index s).1 with
    | .ok val => val
    | _ => 0
  else 0

/-- A trace function that looks at the registers of the frame. -/
def traceRegs (m : Mem) (visit : RegFile → World ω → ReasonCode × World ω) :
    TraceFn MachineCursor ω := fun context w =>
  visit (seenRegs m context.cursor.st context.endOfStack) w

/-- The registers of a frame that a context keeps. -/
def savedRegs (regs : RegFile) : RegFile := fun index => if Saved index then regs index else 0

/-- Calls of a function for the frames of a stack, until it objects. -/
def visitFrames (visit : RegFile → World ω → ReasonCode × World ω) (last : Int) :
    List MachineFrame → World ω → ReasonCode × World ω
  | [], w => (if last = 0 then .endOfStack else .fatalPhase1Error, w)
  | f :: outer, w =>
    if (visit (savedRegs f.regs) w).1 = .noReason then
      visitFrames visit last outer (visit (savedRegs f.regs) w).2
    else (.fatalPhase1Error, (visit (savedRegs f.regs) w).2)

section Visits

variable {k : Kernel} {m : Mem} {fuel : ℕ} {uc : Word} {st : MachineStack k m fuel uc}
  {f : MachineFrame} {outer : List MachineFrame} {c : MachineCursor}

/-- What the trace function reads at a frame. -/
theorem OnFrame.seenRegs_eq (h : OnFrame st f outer c) : seenRegs m c.st false = savedRegs f.regs := by
  funext index
  unfold seenRegs savedRegs
  by_cases hsave : Saved index
  · rw [if_pos hsave, if_pos hsave, unwindGetGR_eq, Unw.read_eq, h.frame.cursor.unwGetReg_eq hsave]
  · rw [if_neg hsave, if_neg hsave]

/-- **The loop** calls the function for the frames that are still outside. -/
theorem backtraceLoop_visits (visit : RegFile → World ω → ReasonCode × World ω) (val : Word)
    (prior : St) (P : Routines ω) (calls : List (Call MachineCursor)) :
    ∀ (outer : List MachineFrame) (f : MachineFrame) (c : MachineCursor) (w : World ω) (bound : ℕ),
      OnFrame st f outer c → outer.length < bound →
      ∃ c', Act.iter (backtraceTurn (machineEnv k m fuel false uc val prior P) (traceRegs m visit))
          bound () ⟨⟨c, false⟩, w, calls⟩ =
        (.ok (visitFrames visit st.last outer w).1,
          ⟨⟨c', false⟩, (visitFrames visit st.last outer w).2, calls⟩)
  | [], f, c, w, bound, h, hbound => by
    obtain ⟨bound, rfl⟩ := Nat.exists_eq_succ_of_ne_zero (Nat.ne_of_gt hbound)
    obtain ⟨-, hlast⟩ | ⟨g, rest, hcons, -⟩ := h.step false
    · have hret : ((machineEnv k m fuel false uc val prior P).unwStep c).1 = st.last := hlast
      have hturn := backtraceTurn_of_last (traceRegs m visit) false w calls
        (hret.trans_le st.last_nonpos)
      rw [hret] at hturn
      exact ⟨_, Act.iter_of_inr bound hturn⟩
    · cases hcons
  | g :: rest, f, c, w, bound, h, hbound => by
    obtain ⟨bound, rfl⟩ := Nat.exists_eq_succ_of_ne_zero (Nat.ne_of_gt (Nat.zero_lt_of_lt hbound))
    obtain ⟨hnil, -⟩ | ⟨g', rest', hcons, hstep, hnext⟩ := h.step false
    · cases hnil
    · cases hcons
      have hret : ((machineEnv k m fuel false uc val prior P).unwStep c).1 = 1 := hstep
      have hturn := backtraceTurn_of_step (traceRegs m visit) false w calls (hret ▸ Int.one_pos)
      -- the function sees the registers of the caller
      have hsees : ∀ w', traceRegs m visit
          ⟨((machineEnv k m fuel false uc val prior P).unwStep c).2, false⟩ w' =
            visit (savedRegs g.regs) w' := fun w' =>
        congrArg (fun regs => visit regs w') hnext.seenRegs_eq
      rw [hsees] at hturn
      unfold visitFrames
      by_cases hgo : (visit (savedRegs g.regs) w).1 = .noReason
      · rw [if_pos hgo] at hturn ⊢
        rw [Act.iter_of_inl bound hturn]
        exact backtraceLoop_visits visit val prior P calls rest g _ _ bound hnext
          (Nat.lt_of_succ_lt_succ hbound)
      · rw [if_neg hgo] at hturn ⊢
        exact ⟨_, Act.iter_of_inr bound hturn⟩

/-- **What a trace function sees.** On the stack of a machine, `_Unwind_Backtrace` calls it for every
frame outside its own, the innermost one first, with the registers of that frame, until it objects.
It returns `_URC_END_OF_STACK` when the function never objects and the last frame is found to be the
last one. -/
theorem unwindBacktrace_visits (st : MachineStack k m fuel uc) {val : Word} (prior : St)
    {P : Routines ω} (bound : ℕ) (visit : RegFile → World ω → ReasonCode × World ω)
    (hpage : ∀ reg, pageStart (uc + ucOffset reg) ≠ 0) (hsaved : SavedAt m uc st.self.regs)
    (hself : st.self.prev = true) (hargs : ∀ i : Fin 2, prior.c.ehValidMask.getLsbD i = false)
    (hbound : st.frames.length < bound) (s : UnwState MachineCursor ω) :
    ∃ t, unwindBacktrace (machineEnv k m fuel false uc val prior P) (traceRegs m visit) bound s =
        (.ok (visitFrames visit st.last st.frames s.world).1, t) ∧
      t.world = (visitFrames visit st.last st.frames s.world).2 ∧ t.calls = s.calls := by
  have hinit := machineEnv_init k fuel false val prior P hpage (m := m)
  have hstart : unwindInitContext (machineEnv k m fuel false uc val prior P) s =
      (.ok (some uc),
        { s with context := ⟨⟨{ prior with c := initialCursor m uc prior.c }, false⟩, false⟩ }) := by
    have hget : (machineEnv k m fuel false uc val prior P).unwGetcontext = some uc := rfl
    unfold unwindInitContext
    rw [hget]
    dsimp only
    rw [hinit]
  obtain ⟨c', hloop⟩ := backtraceLoop_visits visit val prior P s.calls st.frames st.self _ s.world
    bound (.start st hpage hsaved hself hargs) hbound
  unfold unwindBacktrace
  rw [Act.bind_of_ok hstart]
  exact ⟨_, hloop, rfl, rfl⟩

end Visits

/-- A trace function that collects the addresses where the frames go on. -/
def collectIps (regs : RegFile) (w : World (List Word)) : ReasonCode × World (List Word) :=
  (.noReason, { w with rest := w.rest ++ [regs RIP] })

/-- Routines that are never called. -/
def noRoutines : Routines ω where
  answer _ _ _ _ w := (.continueUnwind, w)
  stop _ _ _ _ _ w := (.noReason, w)
  sets _ := []
  searchAnswer _ _ := .continueUnwind
  search_by_ip _ _ _ _ := rfl

/-- On the stack of the exception. -/
theorem unwindBacktrace_visits_throwing :
    ∃ t, unwindBacktrace (machineEnv throwingKernel (call getcontext throwingMachine).mem 9 false
          0x40000 0 (callFrame 0) noRoutines)
        (traceRegs (call getcontext throwingMachine).mem collectIps) 4
        ⟨⟨⟨callFrame 0, false⟩, false⟩, ⟨⟨7, 0, 0⟩, []⟩, []⟩ = (.ok .endOfStack, t) ∧
      t.world.rest = [0x5005, 0x6005, 0x8000] := by
  obtain ⟨t, hrun, hworld, -⟩ := unwindBacktrace_visits throwingStack (callFrame 0) 4 collectIps
    (by decide +kernel) throwing_saved rfl (fun _ => BitVec.getLsbD_zero) (by decide)
    ⟨⟨⟨callFrame 0, false⟩, false⟩, ⟨⟨7, 0, 0⟩, []⟩, []⟩
  refine ⟨t, hrun, ?_⟩
  rw [hworld]
  rfl

end LibunwindKern.Unwind
