import LibunwindKern.Lib.Commands
import LibunwindKern.X86.FallbackFrame

/-!
# The fallback as a program

The fallback of `unw_step`, with every read as a command: `access` is `access_mem`, under the
`validate` flag of the cursor, and `deref` is a pointer of the C code that is followed as it is. The
commands do not validate what the source does not validate.

The programs are the functions of the fallback one by one, and return their error codes as values.
`stepProgram_reports` says that the whole of them is `stepFallback`.
-/

namespace LibunwindKern

open CProg ByteMem Unw

/-! ### The fallback as a program -/

/-- What the fallback is made of. -/
inductive FallbackCmd : Type → Type where
  | state : FallbackCmd St
  | setCursor (f : Cursor → Cursor) : FallbackCmd Unit
  /-- `access_mem`. The word is there to be used only if the access has succeeded. -/
  | access (addr : Word) : FallbackCmd (Except UnwError Word)
  /-- `*(unw_word_t *) addr`. -/
  | deref (addr : Word) : FallbackCmd Word
  /-- The use of a variable that an access has not set. -/
  | uninitialised : FallbackCmd (Except UnwError ℕ)

/-- Execute a command. -/
def execFallback (v : Validator) (m : Mem) : {β : Type} → FallbackCmd β → Unw β
  | _, .state => Act.get
  | _, .setCursor f => Unw.setCursor f
  | _, .access addr => Act.attempt (accessMemAt v m addr)
  | _, .deref addr => pure (load64 m addr)
  | _, .uninitialised => Act.lift .undefined

/-- A program of the fallback. -/
abbrev FallbackProg (α : Type) : Type 1 := Prog FallbackCmd α

section Programs

open Prog

/-- `dwarf_get`. -/
def getProgram (loc : Word) : FallbackProg (Except UnwError Word) :=
  if loc = 0 then pure (.error .ebadreg) else cmd (.access loc)

/-- The part of `unw_is_signal_frame` that reads the code at `ip`. -/
def sigcontextProgram (ip : Word) : FallbackProg (Except UnwError SigcontextFormat) :=
  (cmd (.access ip)).andThen fun w0 =>
  (cmd (.access (ip + 8))).andThen fun w1 =>
  (cmd (.access (ip + 16))).andThen fun w2 =>
  if isSigreturnCode w0 w1 w2 then
    pure (.ok .freebsdSigframe)
  else
    (cmd (.access (ip - 5))).andThen fun b0 =>
    if isSyscallCode b0 then pure (.ok .freebsdSyscall) else pure (.ok .none)

/-- `unw_is_signal_frame`. -/
def signalProgram : FallbackProg (Except UnwError SigcontextFormat) := do
  cmd (.setCursor fun c => { c with sigcontextFormat := .none })
  let s ← cmd .state
  let format ← sigcontextProgram s.c.ip
  match format with
  | .error _ => pure (.ok .none)
  | .ok format => do
    cmd (.setCursor fun c => { c with sigcontextFormat := format })
    pure (.ok format)

/-- `unw_handle_signal_frame`. -/
def handleSignalProgram : FallbackProg (Except UnwError ℕ) := do
  let s ← cmd .state
  match s.c.sigcontextFormat with
  | .freebsdSigframe => do
    cmd (.setCursor fun c => { c with sigcontextAddr := c.cfa })
    (getProgram (s.c.cfa + sigfUc + ucOffset RSP)).andThen fun cfa => do
      cmd (.setCursor fun c =>
        { c with cfa := cfa, loc := fun reg => s.c.cfa + sigfUc + ucOffset reg })
      pure (.ok 0)
  | .freebsdSyscall => do
    cmd (.setCursor fun c => { c with loc := Function.update c.loc RCX (s.c.loc R10) })
    cmd (.setCursor fun c => { c with loc := Function.update c.loc RIP s.c.cfa })
    (getProgram s.c.cfa).andThen fun ip => do
      cmd (.setCursor fun c => { c with ip := ip, cfa := c.cfa + 8 })
      pure (.ok 1)
  | _ => pure (.error .ebadframe)

/-- `is_plt_entry`. -/
def pltProgram : FallbackProg (Except UnwError Bool) := do
  let s ← cmd .state
  let w ← (cmd (.access s.c.ip)).andThen fun w0 =>
    (cmd (.access (s.c.ip + 8))).andThen fun w1 => pure (.ok (w0, w1))
  match w with
  | .error _ => pure (.ok false)
  | .ok w => pure (.ok (isPltCode w.1 w.2))

/-- `unw_get_reg` of `RBP`. -/
def rbpProgram : FallbackProg (Except UnwError Word) := do
  let s ← cmd .state
  getProgram (s.c.loc RBP)

/-- The guess that `RBP` is the frame pointer. -/
def guessProgram (rbp : Word) : FallbackProg (Except UnwError (Except UnwError ℕ)) := do
  let s ← cmd .state
  let ret ← getProgram rbp
  cmd (.setCursor fun c => { c with frameInfo := guessedFrame c.frameInfo })
  let prevRbp ← rbpProgram
  match prevRbp with
  | .error _ => do
    let ret ← cmd .uninitialised
    pure (.ok ret)
  | .ok prevRbp => do
    let word ← cmd (.deref prevRbp)
    cmd (.setCursor fun c => { c with cfa := c.cfa + (word - prevRbp) })
    match ret with
    | .error e => do
      cmd (.setCursor fun c => { c with loc := guessedLocs 0 0 })
      pure (.ok (.error e))
    | .ok _ => do
      cmd (.setCursor fun c =>
        { c with loc :=
          if rbp ≤ s.c.cfa ∨ 0x4000 < rbp - s.c.cfa then guessedLocs 0 0
          else guessedLocs rbp (rbp + 8) })
      pure (.ok (.ok 0))

/-- The frame-chain case of `unw_step`. -/
def frameChainProgram : FallbackProg (Except UnwError (Except UnwError ℕ)) := do
  let s ← cmd .state
  (getProgram (s.c.loc RBP)).andThen fun rbp =>
    if rbp = 0 then do
      cmd (.setCursor fun c => { c with loc := guessedLocs 0 0 })
      pure (.ok (.ok 0))
    else
      guessProgram rbp

/-- The frames without unwind info that are not signal frames. -/
def plainFrameProgram : FallbackProg (Except UnwError (Option (Except UnwError ℕ))) :=
  pltProgram.andThen fun plt => do
    let s ← cmd .state
    if plt then do
      cmd (.setCursor pltFrame)
      pure (.ok (some (.error .enoinfo)))
    else if s.c.loc RBP = 0 then do
      cmd (.setCursor fun c => { c with loc := fun _ => 0 })
      pure (.ok (some (.error .enoinfo)))
    else
      frameChainProgram.andThen fun ret => pure (.ok (some ret))

/-- The save locations of the caller, for a frame without unwind info. -/
def frameProgram : FallbackProg (Except UnwError (Option (Except UnwError ℕ))) :=
  signalProgram.andThen fun format =>
    if format ≠ .none then do
      let ret ← handleSignalProgram
      match ret with
      | .error _ => pure (.ok none)
      | .ok n => pure (.ok (some (.ok n)))
    else
      plainFrameProgram

/-- The return address of a fallback frame. -/
def returnProgram (ret : Except UnwError ℕ) :
    FallbackProg (Except UnwError (Except UnwError ℕ)) := do
  let s ← cmd .state
  if s.c.loc RIP ≠ 0 then
    (getProgram (s.c.loc RIP)).andThen fun ip => do
      cmd (.setCursor fun c => { c with ip := ip })
      pure (.ok (.ok 1))
  else do
    cmd (.setCursor fun c => { c with ip := 0 })
    pure (.ok ret)

/-- The end of the fallback. -/
def finishProgram (prevIp prevCfa : Word) (ret : Except UnwError ℕ) :
    FallbackProg (Except UnwError ℕ) := do
  cmd (.setCursor fun c => { c with retAddrColumn := 16 })
  let s ← cmd .state
  if s.c.loc RBP = 0 then
    pure (.ok 0)
  else
    (returnProgram ret).andThen fun ret => do
      let s ← cmd .state
      if s.c.ip = prevIp ∧ s.c.cfa = prevCfa then
        pure (.error .ebadframe)
      else
        match ret with
        | .ok n => pure (.ok n)
        | .error e => pure (.error e)

/-- The part of `unw_step` after `dwarf_step` has found no unwind info. -/
def stepProgram : FallbackProg (Except UnwError ℕ) := do
  let s ← cmd .state
  cmd (.setCursor fun c => { c with validate := true })
  frameProgram.andThen fun ret =>
    match ret with
    | none => pure (.ok 0)
    | some ret => finishProgram s.c.ip s.c.cfa ret

/-! ### The program is the fallback -/

section Reports

variable {v : Validator} {m : Mem} {α : Type}

theorem reports_state {f : St → FallbackProg (Except UnwError α)} {g : St → Unw α}
    (h : ∀ s, Reports (execFallback v m) (f s) (g s)) :
    Reports (execFallback v m) (cmd .state >>= f) (Act.get >>= g) := by
  refine Reports.bind (run_single _) (fun s e => ?_) h
  exact Res.ok_ne_err s e

theorem reports_setCursor {f : Cursor → Cursor} {p : Unit → FallbackProg (Except UnwError α)}
    {g : Unit → Unw α} (h : ∀ u, Reports (execFallback v m) (p u) (g u)) :
    Reports (execFallback v m) (cmd (.setCursor f) >>= p) (Unw.setCursor f >>= g) := by
  refine Reports.bind (run_single _) (fun s e => ?_) h
  exact Res.ok_ne_err () e

theorem reports_deref {addr : Word} {f : Word → FallbackProg (Except UnwError α)} {g : Word → Unw α}
    (h : ∀ word, Reports (execFallback v m) (f word) (g word)) :
    Reports (execFallback v m) (cmd (.deref addr) >>= f) (g (load64 m addr)) := by
  have hbind :
      Reports (execFallback v m) (cmd (.deref addr) >>= f) (pure (load64 m addr) >>= g) := by
    refine Reports.bind (run_single _) (fun s e => ?_) h
    exact Res.ok_ne_err (load64 m addr) e
  exact hbind

theorem access_reports (addr : Word) :
    Reports (execFallback v m) (cmd (.access addr)) (accessMemAt v m addr) :=
  run_single _

theorem get_reports (loc : Word) :
    Reports (execFallback v m) (getProgram loc) (read fun c => dwarfGet v m c loc) := by
  unfold getProgram dwarfGet
  by_cases hloc : loc = 0
  · simp only [if_pos hloc]
    rfl
  · simp only [if_neg hloc]
    exact access_reports loc

theorem sigcontext_reports (ip : Word) :
    Reports (execFallback v m) (sigcontextProgram ip) (sigcontextFormatAt v m ip) := by
  unfold sigcontextProgram sigcontextFormatAt
  refine (access_reports ip).andThen fun w0 => ?_
  refine (access_reports (ip + 8)).andThen fun w1 => ?_
  refine (access_reports (ip + 16)).andThen fun w2 => ?_
  split
  · exact Reports.pure _
  · refine (access_reports (ip - 5)).andThen fun b0 => ?_
    split
    · exact Reports.pure _
    · exact Reports.pure _

theorem signal_reports : Reports (execFallback v m) signalProgram (unwIsSignalFrame v m) := by
  unfold signalProgram unwIsSignalFrame
  refine reports_setCursor fun _ => reports_state fun s => ?_
  refine (sigcontext_reports s.c.ip).attempt fun format => ?_
  cases format with
  | error e => exact Reports.pure _
  | ok format => exact reports_setCursor fun _ => Reports.pure format

theorem handleSignal_reports :
    Reports (execFallback v m) handleSignalProgram (unwHandleSignalFrame v m) := by
  unfold handleSignalProgram unwHandleSignalFrame
  refine reports_state fun s => ?_
  cases s.c.sigcontextFormat with
  | freebsdSigframe =>
    refine reports_setCursor fun _ => (get_reports _).andThen fun cfa => ?_
    exact reports_setCursor fun _ => Reports.pure 0
  | freebsdSyscall =>
    refine reports_setCursor fun _ => reports_setCursor fun _ => ?_
    refine (get_reports _).andThen fun ip => ?_
    exact reports_setCursor fun _ => Reports.pure 1
  | _ => exact Reports.fail _

theorem plt_reports : Reports (execFallback v m) pltProgram (isPltEntry v m) := by
  unfold pltProgram isPltEntry
  refine reports_state fun s => ?_
  have hwords := (access_reports (v := v) (m := m) s.c.ip).andThen fun w0 =>
    (access_reports (s.c.ip + 8)).andThen fun w1 => Reports.pure (w0, w1)
  refine hwords.attempt fun w => ?_
  cases w with
  | error e => exact Reports.pure false
  | ok w => exact Reports.pure _

theorem rbp_reports :
    Reports (execFallback v m) rbpProgram (read fun c => unwGetReg v m c 6) := by
  -- the cursor is read twice, to find the location and to access it
  have hread : (read fun c => unwGetReg v m c 6 : Unw Word) =
      Act.get >>= fun s => read fun c => dwarfGet v m c (s.c.loc RBP) := by
    funext s
    simp only [unwGetReg_rbp]
    rfl
  rw [hread]
  exact reports_state fun s => get_reports (s.c.loc RBP)

/-- The CFA is moved, and the save locations are set. -/
theorem moved_reports (prevRbp : Word) (locs : Fin dwarfNumPreservedRegs → Word)
    (ret : Except UnwError ℕ) :
    Reports (execFallback v m)
      (do
        let word ← cmd (.deref prevRbp)
        cmd (.setCursor fun c => { c with cfa := c.cfa + (word - prevRbp) })
        cmd (.setCursor fun c => { c with loc := locs })
        pure (.ok ret))
      (do
        Unw.setCursor fun c => { c with cfa := c.cfa + (load64 m prevRbp - prevRbp) }
        Unw.setCursor fun c => { c with loc := locs }
        pure ret) := by
  let g : Word → Unw (Except UnwError ℕ) := fun word => do
    Unw.setCursor fun c => { c with cfa := c.cfa + (word - prevRbp) }
    Unw.setCursor fun c => { c with loc := locs }
    pure ret
  refine reports_deref (g := g) fun word => reports_setCursor fun _ => ?_
  exact reports_setCursor fun _ => Reports.pure ret

theorem guess_reports (rbp : Word) :
    Reports (execFallback v m) (guessProgram rbp) (guessFrame v m rbp) := by
  unfold guessProgram guessFrame
  refine reports_state fun s => (get_reports rbp).attempt fun ret => reports_setCursor fun _ => ?_
  refine rbp_reports.attempt fun prevRbp => ?_
  cases prevRbp with
  | error e => rfl
  | ok prevRbp =>
    cases ret with
    | error e => exact moved_reports prevRbp (guessedLocs 0 0) (.error e)
    | ok _ => exact moved_reports prevRbp _ (.ok 0)

theorem frameChain_reports :
    Reports (execFallback v m) frameChainProgram (frameChain v m) := by
  unfold frameChainProgram frameChain
  refine reports_state fun s => (get_reports _).andThen fun rbp => ?_
  split
  · exact reports_setCursor fun _ => Reports.pure _
  · exact guess_reports rbp

theorem frame_reports : Reports (execFallback v m) frameProgram (fallbackFrame v m) := by
  unfold frameProgram fallbackFrame
  refine signal_reports.andThen fun format => ?_
  split
  · refine handleSignal_reports.attempt fun ret => ?_
    cases ret with
    | error e => exact Reports.pure _
    | ok n => exact Reports.pure _
  · refine plt_reports.andThen fun plt => reports_state fun s => ?_
    split
    · exact reports_setCursor fun _ => Reports.pure _
    · split
      · exact reports_setCursor fun _ => Reports.pure _
      · exact frameChain_reports.andThen fun ret => Reports.pure _

theorem return_reports (ret : Except UnwError ℕ) :
    Reports (execFallback v m) (returnProgram ret) (fallbackReturn v m ret) := by
  unfold returnProgram fallbackReturn
  refine reports_state fun s => ?_
  split
  · refine (get_reports _).andThen fun ip => ?_
    exact reports_setCursor fun _ => Reports.pure _
  · exact reports_setCursor fun _ => Reports.pure _

theorem finish_reports (prevIp prevCfa : Word) (ret : Except UnwError ℕ) :
    Reports (execFallback v m) (finishProgram prevIp prevCfa ret)
      (fallbackFinish v m prevIp prevCfa ret) := by
  unfold finishProgram fallbackFinish
  refine reports_setCursor fun _ => reports_state fun s => ?_
  split
  · exact Reports.pure 0
  · refine (return_reports ret).andThen fun ret => reports_state fun s => ?_
    split
    · exact Reports.fail _
    · cases ret with
      | ok n => exact Reports.pure n
      | error e => exact Reports.fail e

/-- **The program is the fallback.** -/
theorem stepProgram_reports : Reports (execFallback v m) stepProgram (stepFallback v m) := by
  unfold stepProgram stepFallback
  refine reports_state fun s => reports_setCursor fun _ => frame_reports.andThen fun ret => ?_
  cases ret with
  | none => exact Reports.pure 0
  | some ret => exact finish_reports _ _ ret

end Reports

end Programs

end LibunwindKern
