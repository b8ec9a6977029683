import LibunwindKern.Lib.Res
import LibunwindKern.Lib.ByteMem

/-!
# The two phases of exception unwinding

The model of `_Unwind_RaiseException`, `_Unwind_ForcedUnwind`,
`_Unwind_Resume_or_Rethrow` (`Unwind.c`) and `_Unwind_Phase2`
(`unwind-internal.h`).

The routines see the rest of the library only through a cursor, and everything
else through function pointers. `Env` collects what they call: `unw_init_local`,
`unw_step`, `unw_get_proc_info`, `unw_get_reg` for the IP, `unw_resume`, the
personality routines and the stop function. The callbacks may change the
exception object and the rest of the world, so both are in `World`.

* The order of the calls is what the two phases are about, so the state carries
  the list of calls made so far (`UnwState.calls`, oldest first).
* `unw_resume` does not come back when it works. A run then ends with
  `Exit.resumed`. When it does come back, the routine panics.
* The two `while (1)` loops are `Act.iter` over the body of one turn. `actions`
  is declared outside the loop of `_Unwind_Phase2`, so it is carried from turn to
  turn.
* The lines that only print (`Debug`, `unw_get_proc_name`, the first
  `unw_get_reg` of a turn) are left out.
-/

namespace LibunwindKern.Unwind

open CProg ByteMem

/-- `_Unwind_Reason_Code`. -/
inductive ReasonCode where
  | noReason
  | foreignExceptionCaught
  | fatalPhase2Error
  | fatalPhase1Error
  | normalStop
  | endOfStack
  | handlerFound
  | installContext
  | continueUnwind
  deriving DecidableEq, Repr

/-- `_Unwind_Action`: a set of `_UA_*` flags. -/
abbrev Action := BitVec 32

def uaSearchPhase : Action := 1
def uaCleanupPhase : Action := 2
def uaHandlerFrame : Action := 4
def uaForceUnwind : Action := 8
def uaEndOfStack : Action := 16

/-- `struct _Unwind_Exception`, the fields the unwinder reads. -/
structure UnwindException where
  exceptionClass : Word
  private1 : Word
  private2 : Word
  deriving DecidableEq, Repr

/-- `struct _Unwind_Context`. -/
structure UnwindContext (κ : Type) where
  cursor : κ
  endOfStack : Bool
  deriving DecidableEq, Repr

/-- What a callback can change: the exception object and everything else. -/
structure World (ω : Type) where
  exc : UnwindException
  rest : ω
  deriving DecidableEq, Repr

/-- A call the unwinder makes, with the arguments that depend on the frame. -/
inductive Call (κ : Type) where
  | personality (handler : Word) (actions : Action) (context : UnwindContext κ)
  | stop (actions : Action) (context : UnwindContext κ)
  | resume (cursor : κ)
  deriving DecidableEq, Repr

/-- How an unwinding routine ends when it does not panic. -/
inductive Exit (κ : Type) where
  | reason (r : ReasonCode)
  | resumed (cursor : κ)
  deriving DecidableEq, Repr

/-- The functions the unwinding routines call. `υ` is the saved machine context,
`κ` the cursor and `ω` the rest of the world. A negative result is `none`. -/
structure Env (υ κ ω : Type) where
  unwGetcontext : Option υ
  unwInitLocal : υ → Option κ
  unwStep : κ → Int × κ
  unwGetProcInfo : κ → Option Word
  unwGetIp : κ → Option Word
  /-- Whether `unw_resume` comes back. -/
  unwResume : κ → World ω → Bool
  personality : Word → Action → Word → UnwindContext κ → World ω → ReasonCode × World ω
  stop : Word → Action → Word → UnwindContext κ → Word → World ω → ReasonCode × World ω

/-- The state of an unwinding routine: its context, the world, and the calls it
has made so far. -/
structure UnwState (κ ω : Type) where
  context : UnwindContext κ
  world : World ω
  calls : List (Call κ)
  deriving DecidableEq, Repr

variable {υ κ ω : Type}

/-- Calls on the state of an unwinding routine. There are no error codes: every
return value is a reason code. -/
abbrev UnwAct (κ ω α : Type) : Type := Act Empty (UnwState κ ω) α

/-- `unw_step (&context->cursor)`. -/
def stepContext (env : Env υ κ ω) : UnwAct κ ω Int := fun s =>
  (.ok (env.unwStep s.context.cursor).1,
    { s with context := { s.context with cursor := (env.unwStep s.context.cursor).2 } })

/-- `(*personality) (_U_VERSION, actions, exception_class, exception_object, context)`. -/
def callPersonality (env : Env υ κ ω) (handler : Word) (actions : Action) (exceptionClass : Word) :
    UnwAct κ ω ReasonCode := fun s =>
  (.ok (env.personality handler actions exceptionClass s.context s.world).1,
    { s with
      world := (env.personality handler actions exceptionClass s.context s.world).2
      calls := s.calls ++ [.personality handler actions s.context] })

/-- `(*stop) (_U_VERSION, actions, exception_class, exception_object, context,
stop_parameter)`. -/
def callStop (env : Env υ κ ω) (stop : Word) (actions : Action)
    (exceptionClass stopParameter : Word) : UnwAct κ ω ReasonCode := fun s =>
  (.ok (env.stop stop actions exceptionClass s.context stopParameter s.world).1,
    { s with
      world := (env.stop stop actions exceptionClass s.context stopParameter s.world).2
      calls := s.calls ++ [.stop actions s.context] })

/-- `unw_resume (&context->cursor); panic ("Couldn't resume!'");`. -/
def resumeContext (env : Env υ κ ω) : UnwAct κ ω (Exit κ) := fun s =>
  (if env.unwResume s.context.cursor s.world then .panic else .ok (.resumed s.context.cursor),
    { s with calls := s.calls ++ [.resume s.context.cursor] })

@[simp] theorem stepContext_bind {α : Type} (env : Env υ κ ω) (k : Int → UnwAct κ ω α)
    (s : UnwState κ ω) :
    (stepContext env >>= k) s =
      k (env.unwStep s.context.cursor).1
        ⟨⟨(env.unwStep s.context.cursor).2, s.context.endOfStack⟩, s.world, s.calls⟩ := rfl

@[simp] theorem callPersonality_bind {α : Type} (env : Env υ κ ω) (handler : Word)
    (actions : Action) (cls : Word) (k : ReasonCode → UnwAct κ ω α) (s : UnwState κ ω) :
    (callPersonality env handler actions cls >>= k) s =
      k (env.personality handler actions cls s.context s.world).1
        ⟨s.context, (env.personality handler actions cls s.context s.world).2,
          s.calls ++ [.personality handler actions s.context]⟩ := rfl

@[simp] theorem callStop_bind {α : Type} (env : Env υ κ ω) (stop : Word) (actions : Action)
    (cls param : Word) (k : ReasonCode → UnwAct κ ω α) (s : UnwState κ ω) :
    (callStop env stop actions cls param >>= k) s =
      k (env.stop stop actions cls s.context param s.world).1
        ⟨s.context, (env.stop stop actions cls s.context param s.world).2,
          s.calls ++ [.stop actions s.context]⟩ := rfl

/-! ### Phase 2 -/

/-- The part of a turn of `_Unwind_Phase2` after the personality has answered. The
`if` that tests `_UA_HANDLER_FRAME` guards the `Debug` line only, so `panic` runs
after every personality that answers `_URC_CONTINUE_UNWIND`. -/
def phase2Answer (env : Env υ κ ω) (reason : ReasonCode) : UnwAct κ ω (Action ⊕ Exit κ) :=
  if reason = .continueUnwind then
    Act.lift .panic
  else if reason = .installContext then do
    let e ← resumeContext env
    pure (.inr e)
  else
    pure (.inr (.reason .fatalPhase2Error))

/-- The part of a turn of `_Unwind_Phase2` that calls the personality routine. -/
def phase2Personality (env : Env υ κ ω) (handler : Word) (actions : Action)
    (exceptionClass : Word) : UnwAct κ ω (Action ⊕ Exit κ) := do
  let reason ← callPersonality env handler actions exceptionClass
  phase2Answer env reason

/-- The part of a turn of `_Unwind_Phase2` after the stop function was called. -/
def phase2Frame (env : Env υ κ ω) (stop exceptionClass stopParameter : Word) (actions : Action) :
    UnwAct κ ω (Action ⊕ Exit κ) := do
  let s ← Act.get
  if s.context.endOfStack then
    pure (.inr (.reason .fatalPhase2Error))
  else
    match env.unwGetProcInfo s.context.cursor with
    | none => pure (.inr (.reason .fatalPhase2Error))
    | some handler =>
      if handler = 0 then
        pure (.inl actions)
      else if stop = 0 then
        match env.unwGetIp s.context.cursor with
        | none => pure (.inr (.reason .fatalPhase2Error))
        | some ip =>
          phase2Personality env handler
            (if stopParameter = ip then actions ||| uaHandlerFrame else actions) exceptionClass
      else
        phase2Personality env handler actions exceptionClass

/-- The part of a turn of `_Unwind_Phase2` after a step that did not fail. -/
def phase2Stop (env : Env υ κ ω) (stop exceptionClass stopParameter : Word) (actions : Action) :
    UnwAct κ ω (Action ⊕ Exit κ) :=
  if stop = 0 then
    phase2Frame env stop exceptionClass stopParameter actions
  else do
    let reason ← callStop env stop actions exceptionClass stopParameter
    if reason = .noReason then
      phase2Frame env stop exceptionClass stopParameter actions
    else
      pure (.inr (.reason .fatalPhase2Error))

/-- One turn of the loop of `_Unwind_Phase2`. -/
def phase2Turn (env : Env υ κ ω) (stop exceptionClass stopParameter : Word) (actions : Action) :
    UnwAct κ ω (Action ⊕ Exit κ) := do
  let ret ← stepContext env
  if ret < 0 then
    pure (.inr (.reason .fatalPhase2Error))
  else if ret = 0 then do
    Act.modify fun s => { s with context := { s.context with endOfStack := true } }
    phase2Stop env stop exceptionClass stopParameter (actions ||| uaEndOfStack)
  else
    phase2Stop env stop exceptionClass stopParameter actions

/-- `_Unwind_Phase2`. -/
def unwindPhase2 (env : Env υ κ ω) (fuel : ℕ) : UnwAct κ ω (Exit κ) := do
  let s ← Act.get
  Act.iter
    (phase2Turn env s.world.exc.private1 s.world.exc.exceptionClass s.world.exc.private2)
    fuel
    (if s.world.exc.private1 = 0 then uaCleanupPhase else uaCleanupPhase ||| uaForceUnwind)

/-! ### Phase 1 and the entry points -/

/-- `_Unwind_InitContext (&context, &uc)`: the saved context, when neither call
fails. -/
def unwindInitContext (env : Env υ κ ω) : UnwAct κ ω (Option υ) := fun s =>
  match env.unwGetcontext with
  | none => (.ok none, { s with context := { s.context with endOfStack := false } })
  | some uc =>
    match env.unwInitLocal uc with
    | none => (.ok none, { s with context := { s.context with endOfStack := false } })
    | some c => (.ok (some uc), { s with context := ⟨c, false⟩ })

/-- One turn of the search loop of `_Unwind_RaiseException`. The loop is left
with `none` at the `break`, and with the reason code at a `return`. -/
def searchTurn (env : Env υ κ ω) (exceptionClass : Word) :
    Unit → UnwAct κ ω (Unit ⊕ Option ReasonCode) := fun _ => do
  let ret ← stepContext env
  if ret = 0 then
    pure (.inr (some .endOfStack))
  else if ret < 0 then
    pure (.inr (some .fatalPhase1Error))
  else do
    let s ← Act.get
    match env.unwGetProcInfo s.context.cursor with
    | none => pure (.inr (some .fatalPhase1Error))
    | some handler =>
      if handler = 0 then
        pure (.inl ())
      else do
        let reason ← callPersonality env handler uaSearchPhase exceptionClass
        if reason = .continueUnwind then
          pure (.inl ())
        else if reason = .handlerFound then
          pure (.inr none)
        else
          pure (.inr (some .fatalPhase1Error))

/-- The part of `_Unwind_RaiseException` after a handler was found: the frame
marker is stored, the cursor is reset, and phase 2 runs. -/
def enterPhase2 (env : Env υ κ ω) (uc : υ) (fuel : ℕ) : UnwAct κ ω (Exit κ) := do
  let s ← Act.get
  match env.unwGetIp s.context.cursor with
  | none => pure (.reason .fatalPhase1Error)
  | some ip => do
    Act.modify fun s =>
      { s with world := { s.world with exc := { s.world.exc with private1 := 0, private2 := ip } } }
    match env.unwInitLocal uc with
    | none => pure (.reason .fatalPhase1Error)
    | some c => do
      Act.modify fun s => { s with context := { s.context with cursor := c } }
      unwindPhase2 env fuel

/-- `_Unwind_RaiseException`. -/
def unwindRaiseException (env : Env υ κ ω) (fuel : ℕ) : UnwAct κ ω (Exit κ) := do
  let s ← Act.get
  let r ← unwindInitContext env
  match r with
  | none => pure (.reason .fatalPhase1Error)
  | some uc => do
    let found ← Act.iter (searchTurn env s.world.exc.exceptionClass) fuel ()
    match found with
    | some reason => pure (.reason reason)
    | none => enterPhase2 env uc fuel

/-- `_Unwind_ForcedUnwind`. -/
def unwindForcedUnwind (env : Env υ κ ω) (stop stopParameter : Word) (fuel : ℕ) :
    UnwAct κ ω (Exit κ) :=
  if stop = 0 then
    pure (.reason .fatalPhase2Error)
  else do
    let r ← unwindInitContext env
    match r with
    | none => pure (.reason .fatalPhase2Error)
    | some _ => do
      Act.modify fun s =>
        { s with world :=
          { s.world with
            exc := { s.world.exc with private1 := stop, private2 := stopParameter } } }
      unwindPhase2 env fuel

/-- `_Unwind_Resume_or_Rethrow`. -/
def unwindResumeOrRethrow (env : Env υ κ ω) (fuel : ℕ) : UnwAct κ ω (Exit κ) := do
  let s ← Act.get
  if s.world.exc.private1 = 0 then
    unwindRaiseException env fuel
  else do
    let r ← unwindInitContext env
    match r with
    | none => pure (.reason .fatalPhase2Error)
    | some _ => unwindPhase2 env fuel

/-! ### Stacks -/

/-- A frame as the two phases see it: its IP and the handler that
`unw_get_proc_info` reports, `0` when the frame has no personality routine. -/
structure Frame where
  ip : Word
  handler : Word
  deriving DecidableEq, Repr

/-- A position in a finite stack: the current frame and the frames outside it. -/
structure StackCursor where
  frame : Frame
  outer : List Frame
  deriving DecidableEq, Repr

/-- A finite stack: the frame of the unwinding routine itself, the frames
`unw_step` yields from it, and what `unw_step` returns after the last of them. -/
structure Stack where
  self : Frame
  frames : List Frame
  last : Int
  last_nonpos : last ≤ 0

/-- `unw_step` on a stack whose last step returns `last`. -/
def stepStack (last : Int) (c : StackCursor) : Int × StackCursor :=
  match c.outer with
  | [] => (last, c)
  | f :: fs => (1, ⟨f, fs⟩)

/-- The callbacks of a run over a stack. The field `search_by_ip` is the
condition the code states where it stores the frame marker: an exception that is
handled at an IP is always handled at that IP. -/
structure Callbacks (ω : Type) where
  unwResume : StackCursor → World ω → Bool
  personality : Word → Action → Word → UnwindContext StackCursor → World ω →
    ReasonCode × World ω
  stop : Word → Action → Word → UnwindContext StackCursor → Word → World ω →
    ReasonCode × World ω
  searchAnswer : Word → Word → ReasonCode
  search_by_ip : ∀ handler exceptionClass context w,
    (personality handler uaSearchPhase exceptionClass context w).1 =
      searchAnswer exceptionClass context.cursor.frame.ip

/-- The environment of a run over a stack. -/
def stackEnv (st : Stack) (cb : Callbacks ω) : Env Unit StackCursor ω where
  unwGetcontext := some ()
  unwInitLocal _ := some ⟨st.self, st.frames⟩
  unwStep := stepStack st.last
  unwGetProcInfo c := some c.frame.handler
  unwGetIp c := some c.frame.ip
  unwResume := cb.unwResume
  personality := cb.personality
  stop := cb.stop

end LibunwindKern.Unwind
