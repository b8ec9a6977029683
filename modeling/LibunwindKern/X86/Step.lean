import LibunwindKern.Dwarf.Parser

/-!
# One step of the unwinder

The model of `unw_step` and `is_plt_entry` (`Gstep.c`) and of `unw_is_signal_frame` and
`unw_handle_signal_frame` (`Gos-freebsd.c`).

`unw_step` first tries `dwarf_step`. If that finds no unwind info it looks at the code
at the instruction pointer: a signal trampoline, a system call, a PLT entry, and in any
other case a guess that `RBP` is a frame pointer. The three kinds of fallback frame set
save locations, and `fallbackFinish` reads the return address through them.

A result that is not negative is `ok`, with the value the C function returns.
-/

namespace LibunwindKern

open CProg ByteMem Unw

section

variable (v : Validator) (m : Mem)

/-- `access_mem`, reading, with the cursor as its argument. -/
def accessMemAt (addr : Word) : Unw Word := read fun c => accessMem v m c.validate addr

/-- The words of the sigreturn sequence. -/
def isSigreturnCode (w0 w1 w2 : Word) : Bool :=
  w0 = 0x48006a10247c8d48 ∧ w1 = 0x050f000001a1c0c7 ∧ w2 &&& 0xffffff = 0xfdebf4

/-- The word at `ip - 5` of the standard system-call sequence. -/
def isSyscallCode (b0 : Word) : Bool :=
  b0 &&& 0xffffffffffffff = 0x050fca89490000 ∨ b0 &&& 0xffffffffff = 0x050fca8949

/-- The part of `unw_is_signal_frame` that reads the code at `ip`. -/
def sigcontextFormatAt (ip : Word) : Unw SigcontextFormat := do
  let w0 ← accessMemAt v m ip
  let w1 ← accessMemAt v m (ip + 8)
  let w2 ← accessMemAt v m (ip + 16)
  if isSigreturnCode w0 w1 w2 then
    pure .freebsdSigframe
  else do
    let b0 ← accessMemAt v m (ip - 5)
    if isSyscallCode b0 then pure .freebsdSyscall else pure .none

/-- `unw_is_signal_frame`. It also sets the format in the cursor, which is its result. -/
def unwIsSignalFrame : Unw SigcontextFormat := do
  setCursor fun c => { c with sigcontextFormat := .none }
  let s ← Act.get
  let format ← Act.attempt (sigcontextFormatAt v m s.c.ip)
  match format with
  | .error _ => pure .none
  | .ok format => do
    setCursor fun c => { c with sigcontextFormat := format }
    pure format

/-- `offsetof (struct sigframe, sf_uc)`, the `SIGF_UC` of the sigreturn sequence. -/
def sigfUc : Word := 0x10

/-- `unw_handle_signal_frame`. -/
def unwHandleSignalFrame : Unw ℕ := do
  let s ← Act.get
  match s.c.sigcontextFormat with
  | .freebsdSigframe => do
    setCursor fun c => { c with sigcontextAddr := c.cfa }
    let cfa ← read fun c => dwarfGet v m c (s.c.cfa + sigfUc + ucOffset RSP)
    setCursor fun c =>
      { c with cfa := cfa, loc := fun reg => s.c.cfa + sigfUc + ucOffset reg }
    pure 0
  | .freebsdSyscall => do
    setLoc RCX (s.c.loc R10)
    setLoc RIP s.c.cfa
    let ip ← read fun c => dwarfGet v m c s.c.cfa
    setCursor fun c => { c with ip := ip, cfa := c.cfa + 8 }
    pure 1
  | _ => Act.fail .ebadframe

/-- The code of a PLT entry. -/
def isPltCode (w0 w1 : Word) : Bool :=
  w0 &&& 0xffff = 0x25ff ∧ (w0 >>> 48) &&& 0xff = 0x68 ∧ (w1 >>> 24) &&& 0xff = 0xe9

/-- `is_plt_entry`. -/
def isPltEntry : Unw Bool := do
  let s ← Act.get
  let w ← Act.attempt (do
    let w0 ← accessMemAt v m s.c.ip
    let w1 ← accessMemAt v m (s.c.ip + 8)
    pure (w0, w1))
  match w with
  | .error _ => pure false
  | .ok w => pure (isPltCode w.1 w.2)

/-- The frame of a PLT entry: CFA = RSP + 8, the return address at CFA - 8. -/
def pltFrame (c : Cursor) : Cursor :=
  { c with
    frameInfo := { c.frameInfo with cfaRegOffset := 8, cfaRegRsp := true, frameType := .standard }
    loc := Function.update c.loc RIP c.cfa
    cfa := c.cfa + 8 }

/-- Read the return address of a fallback frame. `ret` is what the C variable holds
before and after. -/
def fallbackReturn (ret : Except UnwError ℕ) : Unw (Except UnwError ℕ) := do
  let s ← Act.get
  if s.c.loc RIP ≠ 0 then do
    let ip ← read fun c => dwarfGet v m c (s.c.loc RIP)
    setCursor fun c => { c with ip := ip }
    pure (.ok 1)
  else do
    setCursor fun c => { c with ip := 0 }
    pure ret

/-- The end of the fallback, once the save locations are set. -/
def fallbackFinish (prevIp prevCfa : Word) (ret : Except UnwError ℕ) : Unw ℕ := do
  setCursor fun c => { c with retAddrColumn := 16 }
  let s ← Act.get
  if s.c.loc RBP = 0 then
    pure 0
  else do
    let ret ← fallbackReturn v m ret
    let s ← Act.get
    if s.c.ip = prevIp ∧ s.c.cfa = prevCfa then
      Act.fail .ebadframe
    else
      match ret with
      | .ok n => pure n
      | .error e => Act.fail e

/-- Mark all registers unsaved, but for the locations of a guessed frame. -/
def guessedLocs (rbpLoc ripLoc : Word) : Fin dwarfNumPreservedRegs → Word :=
  Function.update (Function.update (fun _ => 0) RBP rbpLoc) RIP ripLoc

/-- The frame info of a guessed frame. -/
def guessedFrame (f : FrameInfo) : FrameInfo :=
  { f with frameType := .guessed, cfaRegRsp := false, cfaRegOffset := 8, rbpCfaOffset := 0 }

/-- The guess that `RBP`, read from `loc`, is the frame pointer. The test of the guess
clears the two locations and nothing else: the CFA is moved in any case, by the
difference of the word at `RBP` and `RBP`, which is read without validation. -/
def guessFrame (rbp : Word) : Unw (Except UnwError ℕ) := do
  let s ← Act.get
  let ret ← Act.attempt (read fun c => dwarfGet v m c rbp)
  setCursor fun c => { c with frameInfo := guessedFrame c.frameInfo }
  let prevRbp ← Act.attempt (read fun c => unwGetReg v m c 6)
  match prevRbp with
  | .error _ => Act.lift .undefined -- `prev_rbp` is not initialised
  | .ok prevRbp => do
    setCursor fun c => { c with cfa := c.cfa + (load64 m prevRbp - prevRbp) }
    match ret with
    | .error e => do
      setCursor fun c => { c with loc := guessedLocs 0 0 }
      pure (.error e)
    | .ok _ => do
      setCursor fun c =>
        { c with loc :=
          if rbp ≤ s.c.cfa ∨ 0x4000 < rbp - s.c.cfa then guessedLocs 0 0
          else guessedLocs rbp (rbp + 8) }
      pure (.ok 0)

/-- The frame-chain case of `unw_step`, for a cursor whose `RBP` has a location. -/
def frameChain : Unw (Except UnwError ℕ) := do
  let s ← Act.get
  let rbp ← read fun c => dwarfGet v m c (s.c.loc RBP)
  if rbp = 0 then do
    -- the end of the call chain
    setCursor fun c => { c with loc := guessedLocs 0 0 }
    pure (.ok 0)
  else
    guessFrame v m rbp

/-- Set the save locations of the caller for a frame without unwind info. `none` is the
early return of 0 for a signal frame that cannot be read. Otherwise the value is what the
C variable `ret` holds. -/
def fallbackFrame : Unw (Option (Except UnwError ℕ)) := do
  let format ← unwIsSignalFrame v m
  if format ≠ .none then do
    let ret ← Act.attempt (unwHandleSignalFrame v m)
    match ret with
    | .error _ => pure none
    | .ok n => pure (some (.ok n))
  else do
    let plt ← isPltEntry v m
    let s ← Act.get
    if plt then do
      setCursor pltFrame
      pure (some (.error .enoinfo))
    else if s.c.loc RBP = 0 then do
      setCursor fun c => { c with loc := fun _ => 0 }
      pure (some (.error .enoinfo))
    else do
      let ret ← frameChain v m
      pure (some ret)

/-- The part of `unw_step` after `dwarf_step` has found no unwind info. -/
def stepFallback : Unw ℕ := do
  let s ← Act.get
  setCursor fun c => { c with validate := true }
  let ret ← fallbackFrame v m
  match ret with
  | none => pure 0
  | some ret => fallbackFinish v m s.c.ip s.c.cfa ret

end

/-- The cursor that `unw_step` hands to `dwarf_step`. -/
def armed (c : Cursor) : Cursor := { c with validate := true, sigcontextFormat := .none }

/-- `unw_step`. -/
def unwStep (k : Kernel) (v : Validator) (m : Mem) (fuel : ℕ) : Unw ℕ := do
  let s ← Act.get
  setCursor armed
  let ret ← Act.attempt (dwarfStep k v m fuel)
  setCursor fun c => { c with validate := s.c.validate }
  match ret with
  | .ok n => do
    let t ← Act.get
    -- the end of the call chain is marked with a null `RBP`
    if t.c.loc RBP = 0 then do
      setCursor fun c => { c with ip := 0 }
      pure 0
    else
      pure n
  | .error e => if e = .enoinfo then stepFallback v m else Act.fail e

end LibunwindKern
