import LibunwindKern.Trace.Cache
import LibunwindKern.X86.Cursor

/-!
# The fast and the slow backtrace

`tdep_trace` with the functions it calls (`src/Gtrace.c`), and `slow_backtrace`
(`src/backtrace.c`).

`tdep_trace` walks the stack with four registers. For each address it looks into a hash table
what a frame at this address is like (`trace_lookup`), and lets `unw_step` find out if the
table does not know (`trace_init_addr`). `slow_backtrace` calls `unw_step` for every frame.

The caches are in memory of their own, apart from the memory that is traced. A buffer is the
list of the addresses in it.
-/

namespace LibunwindKern

open CProg ByteMem Unw

/-! ### The frame table -/

/-- `1u << cache->log_size`. -/
def TraceCache.size (cache : TraceCache) : ℕ := 2 ^ cache.logSize

/-- The slot where the search for an address starts. -/
def TraceCache.slot (cache : TraceCache) (rip : Word) : ℕ :=
  (((rip * 0x9e3779b97f4a7c16) >>> 43) &&& (BitVec.ofNat 64 cache.size - 1)).toNat

/-- How the search for an address ends: at the slot that has it, at a free slot, or at the
last of the slots it looks at, which has another address. -/
inductive Probe where
  | hit (slot : ℕ)
  | free (slot : ℕ)
  | full
  deriving DecidableEq, Repr

/-- The loop of `trace_lookup`, with `n` slots to look at. -/
def TraceCache.probe (cache : TraceCache) (rip : Word) : ℕ → ℕ → Probe
  | 0, _ => .full
  | n + 1, slot =>
    if (cache.frames slot).virtualAddress = rip then .hit slot
    else if (cache.frames slot).virtualAddress = 0 then .free slot
    else cache.probe rip n (if cache.size ≤ slot + 1 then slot + 1 - cache.size else slot + 1)

/-- `trace_cache_expand`. The result is false for `-UNW_ENOMEM`. -/
def traceCacheExpand (K : KernMalloc) (cache : Word) : TraceAct Bool := fun s =>
  if (s.caches cache).logSize + 2 < 32 then
    (onPool (traceCacheBuckets K ((s.caches cache).logSize + 2)) >>= fun r =>
      match r with
      | none => pure false
      | some _ => fun s' => (.ok true, { s' with
          caches := Function.update s'.caches cache (.empty ((s.caches cache).logSize + 2)) })) s
  else (.undefined, s)

/-- Write a frame to a slot. -/
def setFrame (cache : Word) (slot : ℕ) (f : FrameInfo) : TraceAct Unit :=
  Act.modify fun s => { s with
    caches := Function.update s.caches cache { s.caches cache with
      frames := Function.update (s.caches cache).frames slot f } }

/-- `++cache->used`. -/
def countUsed (cache : Word) : TraceAct Unit :=
  Act.modify fun s => { s with
    caches := Function.update s.caches cache { s.caches cache with
      used := (s.caches cache).used + 1 } }

/-- The part of `trace_lookup` before `trace_init_addr`: the slot for an address, and whether
it has the address already. There is none if the table cannot be expanded. -/
def traceSlot (K : KernMalloc) (cache rip : Word) : TraceAct (Option (ℕ × Bool)) := do
  let s ← Act.get
  match (s.caches cache).probe rip 16 ((s.caches cache).slot rip) with
  | .hit slot => pure (some (slot, true))
  | .free slot =>
    if (s.caches cache).size / 2 ≤ (s.caches cache).used then expanded
    else do
      countUsed cache
      pure (some (slot, false))
  | .full => expanded
where
  /-- Fill the slot of the new, empty table. -/
  expanded : TraceAct (Option (ℕ × Bool)) := do
    let ok ← traceCacheExpand K cache
    if ok then do
      countUsed cache
      let s ← Act.get
      pure (some ((s.caches cache).slot rip, false))
    else
      pure none

/-! ### The fast backtrace -/

/-- What `tdep_trace` works on: the cursor with its memory, and the frame caches. -/
structure Tracer where
  session : Session
  trace : TraceSt

/-- A call of the fast backtrace. -/
abbrev Fast (α : Type) : Type := Act UnwError Tracer α

namespace Fast

def onSession {α : Type} (x : Act UnwError Session α) : Fast α :=
  Act.zoom Tracer.session (fun w s => { s with session := w }) x

/-- A call on the caches. An assertion that fails is a panic. -/
def onTrace {α : Type} (x : TraceAct α) : Fast α := fun s =>
  match x s.trace with
  | (.ok a, t) => (.ok a, { s with trace := t })
  | (.err _, t) => (.panic, { s with trace := t })
  | (.panic, t) => (.panic, { s with trace := t })
  | (.undefined, t) => (.undefined, { s with trace := t })
  | (.diverge, t) => (.diverge, { s with trace := t })

def setCursor (f : Cursor → Cursor) : Fast Unit := onSession (Session.setCursor f)

end Fast

open Fast

/-- The registers that `tdep_trace` keeps. -/
structure TraceRegs where
  rip : Word
  rsp : Word
  rbp : Word
  cfa : Word
  deriving DecidableEq, Repr

/-- The properties of a frame about which nothing is known. -/
def unknownFrame (rip : Word) : FrameInfo := ⟨rip, .other, false, true, 0, -1, -1⟩

/-- `c->use_prev_instr`, as a number. -/
def prevInstr (c : Cursor) : Word := if c.usePrevInstr then 1 else 0

/-- The cursor that `trace_init_addr` makes of the registers. -/
def atFrame (r : TraceRegs) (c : Cursor) : Cursor :=
  { c with
    ip := r.rip + prevInstr c
    cfa := r.cfa
    loc := Function.update (Function.update (Function.update c.loc RIP (regLoc c 16))
      RBP (regLoc c 6)) RSP (regLoc c 7)
    frameInfo := unknownFrame r.rip }

/-- The stores of `trace_init_addr` into the saved context, and the step. -/
def stepAtFrame (k : Kernel) (v : Validator) (fuel : ℕ) (r : TraceRegs) :
    Act UnwError Session ℕ := do
  let w ← Act.get
  dwarfPut (w.st.c.loc RIP) r.rip
  dwarfPut (w.st.c.loc RBP) r.rbp
  dwarfPut (w.st.c.loc RSP) r.rsp
  Session.onCursor fun m => unwStep k v m fuel

/-- What `trace_init_addr` makes of the result of the step. -/
def noteStep (cache : Word) (slot : ℕ) (ret : Except UnwError ℕ) : Fast Unit := do
  let s ← Act.get
  match ret with
  | .error _ => pure ()
  | .ok n =>
    -- a step that stopped voluntarily is remembered
    onTrace (setFrame cache slot
      { s.session.st.c.frameInfo with
        lastFrame := if n = 0 then true else s.session.st.c.frameInfo.lastFrame })

/-- `trace_init_addr`. -/
def traceInitAddr (k : Kernel) (v : Validator) (fuel : ℕ) (cache : Word) (slot : ℕ)
    (r : TraceRegs) : Fast Unit := do
  onTrace (setFrame cache slot (unknownFrame r.rip))
  setCursor (atFrame r)
  let ret ← Act.attempt (onSession (stepAtFrame k v fuel r))
  noteStep cache slot ret

/-- `trace_lookup`: the frame at `r.rip`. -/
def traceLookup (K : KernMalloc) (k : Kernel) (v : Validator) (fuel : ℕ) (cache : Word)
    (r : TraceRegs) : Fast (Option FrameInfo) := do
  let slot ← onTrace (traceSlot K cache r.rip)
  match slot with
  | none => pure none
  | some (slot, known) => do
    if known then pure () else traceInitAddr k v fuel cache slot r
    let s ← Act.get
    pure (some ((s.trace.caches cache).frames slot))

/-- `ACCESS_MEM_FAST`, with the setting of the cursor. -/
def accessMemFast (v : Validator) (addr : Word) : Fast Word :=
  onSession (Session.onCursor fun m => do
    let s ← Act.get
    if s.c.validate then read fun c => dwarfGet v m c addr else pure (load64 m addr))

/-- `RBP` in the next frame. -/
def savedRbp (v : Validator) (f : FrameInfo) (rbp cfa : Word) : Fast Word :=
  if f.rbpCfaOffset ≠ -1 then accessMemFast v (cfa + f.rbpCfaOffset.signExtend 64) else pure rbp

/-- The registers of the next frame, with its CFA. -/
def standardRegs (v : Validator) (f : FrameInfo) (rbp cfa : Word) : Fast TraceRegs := do
  let rip ← accessMemFast v (cfa - 8)
  let rbp ← savedRbp v f rbp cfa
  pure ⟨rip, cfa, rbp, cfa⟩

/-- The registers of the next frame, for a standard frame. The next frame needs to back up for
the lookup of its unwind info. -/
def standardNext (v : Validator) (f : FrameInfo) (r : TraceRegs) : Fast TraceRegs := do
  setCursor fun c => { c with usePrevInstr := true }
  standardRegs v f r.rbp ((if f.cfaRegRsp then r.rsp else r.rbp) + f.cfaRegOffset.signExtend 64)

/-- The registers of the next frame, for a signal frame. -/
def sigreturnNext (v : Validator) (f : FrameInfo) (r : TraceRegs) : Fast TraceRegs := do
  setCursor fun c => { c with usePrevInstr := false }
  let uc := r.cfa + f.cfaRegOffset.signExtend 64
  let rip ← accessMemFast v (uc + ucOffset RIP)
  let rbp ← accessMemFast v (uc + ucOffset RBP)
  let rsp ← accessMemFast v (uc + ucOffset RSP)
  pure ⟨rip, rsp, rbp, rsp⟩

/-- The `switch` of `tdep_trace`. -/
def nextFrame (v : Validator) (f : FrameInfo) (r : TraceRegs) : Fast TraceRegs :=
  match f.frameType with
  | .guessed => do
    setCursor fun c => { c with validate := true }
    standardNext v f r
  | .standard => standardNext v f r
  | .sigreturn => sigreturnNext v f r
  | .other => Act.fail .estopunwind

section

variable (K : KernMalloc) (k : Kernel) (v : Validator) (fuel : ℕ)

/-- One turn of the loop of `tdep_trace`: the return value, or the registers of the next
frame. -/
def traceTurn (cache : Word) (r : TraceRegs) : Fast (Except UnwError Unit ⊕ TraceRegs) := do
  let s ← Act.get
  let r := { r with rip := lookupIp s.session.st.c r.rip }
  let f ← traceLookup K k v fuel cache r
  match f with
  | none => pure (.inl (.error .enoinfo))
  | some f =>
    if f.virtualAddress ≠ r.rip then
      Act.lift .panic
    else if f.lastFrame then
      pure (.inl (.ok ()))
    else do
      let next ← Act.attempt (nextFrame v f r)
      match next with
      | .error e => pure (.inl (.error e))
      | .ok r => if r.rip < 0x4000 then pure (.inl (.ok ())) else pure (.inr r)

/-- The loop of `tdep_trace`, for a buffer with room for `n` addresses: the return value and
the addresses. -/
def traceLoop (cache : Word) : ℕ → TraceRegs → Fast (Except UnwError Unit × List Word)
  | 0, _ => pure (.ok (), [])
  | n + 1, r => do
    let turn ← traceTurn K k v fuel cache r
    match turn with
    | .inl ret => pure (ret, [])
    | .inr r => do
      let s ← Act.get
      let rest ← traceLoop cache n r
      pure (rest.1, lookupIp s.session.st.c r.rip :: rest.2)

/-- The registers `tdep_trace` starts with. -/
def firstRegs (w : Session) : TraceRegs :=
  ⟨w.st.c.ip, w.st.c.cfa, load64 w.mem (w.st.c.loc RBP), w.st.c.cfa⟩

/-- `tdep_trace`, called by thread `t`: the return value and the addresses stored. -/
def tdepTrace (t : Tid) (size : ℤ) : Fast (Except UnwError Unit × List Word) :=
  if size ≤ 0 then
    pure (.error .einval, [])
  else do
    setCursor fun c => { c with stashFrames := true }
    let s ← Act.get
    let cache ← onTrace (traceCacheGet K t)
    if cache = 0 then do
      setCursor fun c => { c with stashFrames := false }
      pure (.error .enomem, [])
    else
      traceLoop K k v fuel cache size.toNat (firstRegs s.session)

end

/-! ### The slow backtrace -/

section

variable (k : Kernel) (v : Validator) (m : Mem) (fuel : ℕ)

/-- The loop of `slow_backtrace`, for a buffer with room for `n` addresses. If there is none
left, one more step is made and its result dropped. -/
def slowLoop : ℕ → Unw (List Word)
  | 0 => do
    let _ ← Act.attempt (unwStep k v m fuel)
    pure []
  | n + 1 => do
    let ret ← Act.attempt (unwStep k v m fuel)
    match ret with
    | .ok (_ + 1) => do
      let ip ← Act.attempt (read fun c => unwGetReg v m c 16)
      match ip with
      | .error _ => pure []
      | .ok ip => do
        let rest ← slowLoop n
        pure (ip :: rest)
    | _ => pure []

/-- `slow_backtrace`, for the saved context at `uc`. -/
def slowBacktrace (size : ℤ) (uc : Word) : Unw (List Word) := do
  let ret ← Act.attempt (unwInitLocal v m uc)
  match ret with
  | .error _ => pure []
  | .ok () => slowLoop k v m fuel size.toNat

end

end LibunwindKern
