import LibunwindKern.Unwind.MachineStack
import LibunwindKern.X86.TableFrames

/-!
# What a personality routine sees

The questions that a personality routine may ask about the frame it is called for: the model of the
`_Unwind_Get…` functions of `Unwind.c`, and of `_Unwind_FindEnclosingFunction` with
`unw_get_proc_info_by_ip`. Some of them call `unw_get_proc_info`, which puts the procedure info into
the cursor, so a question changes the context that the next one is asked on.

`questions_answered` is about a frame of a procedure in a search table: any number of questions, in
any order, are answered with what the unwind info of the procedure says and with the registers of the
frame. `Seen` is the invariant: the cursor stays at the frame, and the procedure info in it, if there
is one, reports the procedure.
-/

namespace LibunwindKern.Unwind

open CProg ByteMem StraightLine Unw

/-! ### The questions -/

section Questions

variable (k : Kernel) (m : Mem)

/-- `_Unwind_GetIP`. A register that cannot be read is an error here, where the code returns a value
that is not initialised. -/
def unwindGetIP : Unw Word := read fun c => unwGetReg msyncValidate m c 16

/-- `_Unwind_GetCFA`. -/
def unwindGetCFA : Unw Word := read fun c => unwGetReg msyncValidate m c 7

/-- `_Unwind_GetGR`. The stack pointer is null at the end of the stack. -/
def unwindGetGR (endOfStack : Bool) (index : ℕ) : Unw Word :=
  if index = 7 ∧ endOfStack then pure 0 else read fun c => unwGetReg msyncValidate m c index

/-- `_Unwind_GetLanguageSpecificData`. -/
def unwindGetLanguageSpecificData : Unw Word := do
  let pi ← unwGetProcInfo k m
  pure pi.lsda

/-- `_Unwind_GetRegionStart`. -/
def unwindGetRegionStart : Unw Word := do
  let pi ← unwGetProcInfo k m
  pure pi.startIp

/-- `_Unwind_GetDataRelBase`. -/
def unwindGetDataRelBase : Unw Word := do
  let pi ← unwGetProcInfo k m
  pure pi.gp

/-- `_Unwind_GetTextRelBase`. -/
def unwindGetTextRelBase : Unw Word := pure 0

/-- `unw_get_proc_info_by_ip`, on a procedure info that is not initialised before. -/
def unwGetProcInfoByIp (ip : Word) : Act UnwError PiState Unit := do
  let ret ← Act.attempt (unwiFindDynamicProcInfo k m ip false)
  match ret with
  | .ok () => pure ()
  | .error .enoinfo => dwarfFindProcInfo k m ip false
  | .error e => Act.fail e

/-- `_Unwind_FindEnclosingFunction`. -/
def unwindFindEnclosingFunction (ip : Word) : Act UnwError PiState Word := do
  let ret ← Act.attempt (unwGetProcInfoByIp k m ip)
  match ret with
  | .ok () => do
    let s ← Act.get
    pure s.pi.startIp
  | .error _ => pure 0

end Questions

/-- A question about the frame of a context. -/
inductive Question where
  | ip
  | cfa
  | gr (index : { index : Fin dwarfNumPreservedRegs // Saved index })
  | languageSpecificData
  | regionStart
  | dataRelBase
  | textRelBase

/-- Ask a question on a context that is not at the end of the stack. -/
def ask (k : Kernel) (m : Mem) : Question → Unw Word
  | .ip => unwindGetIP m
  | .cfa => unwindGetCFA m
  | .gr index => unwindGetGR m false index.1
  | .languageSpecificData => unwindGetLanguageSpecificData k m
  | .regionStart => unwindGetRegionStart k m
  | .dataRelBase => unwindGetDataRelBase k m
  | .textRelBase => unwindGetTextRelBase

/-- Ask one question after the other. -/
def askAll (k : Kernel) (m : Mem) : List Question → Unw (List Word)
  | [] => pure []
  | q :: qs => do
    let answer ← ask k m q
    let answers ← askAll k m qs
    pure (answer :: answers)

/-- What is to be answered about a frame of a procedure. -/
def answerFor (p : Procedure) (gp : Word) (f : MachineFrame) : Question → Word
  | .ip => f.regs RIP
  | .cfa => f.regs RSP
  | .gr index => f.regs index.1
  | .languageSpecificData => p.fde.lsda
  | .regionStart => p.fde.startIp
  | .dataRelBase => gp
  | .textRelBase => 0

/-! ### The answers -/

/-- The cursor is at the frame, and the procedure info in it is that of the procedure. -/
structure Seen (m : Mem) (uc : Word) (p : Procedure) (gp : Word) (f : MachineFrame) (s : St) :
    Prop where
  frame : CursorOn m uc f s.c
  info : s.c.piValid = true → InfoFor p gp s.c.pi

section Answers

variable {k : Kernel} {m : Mem} {uc : Word} {di : DynInfo} {procs : List Procedure} {p : Procedure}
  {f : MachineFrame} {s : St}

/-- **`unw_get_proc_info`** reports the procedure, whether it has to be looked up or not. -/
theorem Seen.unwGetProcInfo_eq (hreg : Registered k di) (htable : UnwindTableAt m di procs)
    (hp : p ∈ procs) (hcov : p.Covers f.addr) (h : Seen m uc p di.gp f s) :
    ∃ pi t, unwGetProcInfo k m s = (.ok pi, t) ∧ InfoFor p di.gp pi ∧ Seen m uc p di.gp f t := by
  cases hvalid : s.c.piValid with
  | true =>
    obtain ⟨hstate, hok, -, -⟩ := unwGetProcInfo_of_fetch (fetchProcInfo_of_cached (k := k) (m := m)
      (s := s) hvalid)
    exact ⟨_, s, Prod.ext (hok rfl) hstate, h.info hvalid, h⟩
  | false =>
    have hlookup : p.Covers (lookupIp s.c s.c.ip) := by rwa [h.frame.lookupIp_eq]
    obtain ⟨q, hfetch, hfound, -⟩ := fetchProcInfo_of_table hreg htable hp (Or.inr hvalid) hlookup
    obtain ⟨hstate, hok, -, -⟩ := unwGetProcInfo_of_fetch hfetch
    have hframe := h.frame.fetched (FetchEnd.of_run (Or.inr hvalid) hfetch)
    exact ⟨_, _, Prod.ext (hok rfl) hstate, hfound, hframe, fun _ => hfound⟩

/-- The registers are those of the frame. -/
theorem Seen.read_eq {gp : Word} (h : Seen m uc p gp f s) {i : Fin dwarfNumPreservedRegs}
    (hi : Saved i) :
    ∃ t, read (fun c => unwGetReg msyncValidate m c i) s = (.ok (f.regs i), t) ∧
      Seen m uc p gp f t := by
  refine ⟨{ s with lga := (unwGetReg msyncValidate m s.c i s.lga).2 }, ?_, h.frame, h.info⟩
  rw [Unw.read_eq, h.frame.cursor.unwGetReg_eq hi]

/-- Before the end of the stack, no register is hidden. -/
theorem unwindGetGR_eq (m : Mem) (index : ℕ) :
    unwindGetGR m false index = read fun c => unwGetReg msyncValidate m c index := by
  unfold unwindGetGR
  rw [if_neg (by simp)]

/-- **One question.** -/
theorem Seen.ask_eq (hreg : Registered k di) (htable : UnwindTableAt m di procs) (hp : p ∈ procs)
    (hcov : p.Covers f.addr) (h : Seen m uc p di.gp f s) (q : Question) :
    ∃ t, ask k m q s = (.ok (answerFor p di.gp f q), t) ∧ Seen m uc p di.gp f t := by
  obtain ⟨pi, t, hinfo, hfound, ht⟩ := h.unwGetProcInfo_eq hreg htable hp hcov
  have hfield : ∀ (field : ProcInfo → Word) {x : Word}, field pi = x →
      (unwGetProcInfo k m >>= fun pi => pure (field pi) : Unw Word) s = (.ok x, t) := by
    intro field x hx
    rw [Act.bind_of_ok hinfo, ← hx]
    rfl
  cases q with
  | ip => exact h.read_eq (i := RIP) (by decide)
  | cfa => exact h.read_eq (i := RSP) (by decide)
  | gr index =>
    obtain ⟨t, hread, ht⟩ := h.read_eq index.2
    refine ⟨t, ?_, ht⟩
    show unwindGetGR m false index.1 s = _
    rw [unwindGetGR_eq]
    exact hread
  | languageSpecificData => exact ⟨t, hfield ProcInfo.lsda hfound.lsda, ht⟩
  | regionStart => exact ⟨t, hfield ProcInfo.startIp hfound.startIp, ht⟩
  | dataRelBase => exact ⟨t, hfield ProcInfo.gp hfound.gp, ht⟩
  | textRelBase => exact ⟨s, rfl, h⟩

/-- Any number of questions. -/
theorem Seen.askAll_eq (hreg : Registered k di) (htable : UnwindTableAt m di procs) (hp : p ∈ procs)
    (hcov : p.Covers f.addr) (qs : List Question) :
    ∀ {s : St}, Seen m uc p di.gp f s →
      ∃ t, askAll k m qs s = (.ok (qs.map (answerFor p di.gp f)), t) ∧ Seen m uc p di.gp f t := by
  induction qs with
  | nil =>
    intro s h
    exact ⟨s, rfl, h⟩
  | cons q qs ih =>
    intro s h
    obtain ⟨u, hask, hu⟩ := h.ask_eq hreg htable hp hcov q
    obtain ⟨t, hrest, ht⟩ := ih hu
    refine ⟨t, ?_, ht⟩
    unfold askAll
    rw [Act.bind_of_ok hask, Act.bind_of_ok hrest]
    rfl

/-- `_Unwind_FindEnclosingFunction` looks an address up without a cursor. -/
theorem unwindFindEnclosingFunction_eq (hreg : Registered k di) (htable : UnwindTableAt m di procs)
    (hp : p ∈ procs) {addr : Word} (hcov : p.Covers addr) (q : PiState) :
    (unwindFindEnclosingFunction k m addr q).1 = .ok p.fde.startIp := by
  obtain ⟨q', hfind, hfound, -⟩ :=
    unwiFindDynamicProcInfo_of_table hreg htable hp hcov false q
  have hinfo : unwGetProcInfoByIp k m addr q = (.ok (), q') := by
    unfold unwGetProcInfoByIp
    rw [Act.bind_of_ok (Act.attempt_of_ok hfind)]
    rfl
  unfold unwindFindEnclosingFunction
  rw [Act.bind_of_ok (Act.attempt_of_ok hinfo)]
  exact congrArg Res.ok hfound.startIp

/-- The frame is known to the two phases, with the handler that the CIE names. -/
theorem known_of_table (hreg : Registered k di) (htable : UnwindTableAt m di procs) (hp : p ∈ procs)
    (hcov : p.Covers f.addr) : f.Known k m ∧ f.handler k m = p.handler := by
  obtain ⟨q, hfetch, hfound, -⟩ : ∃ q, fetchProcInfo k m f.addr false unknownSt =
      (.ok (), cached false true (withPi unknownSt q)) ∧ InfoFor p di.gp q.pi ∧
        (false = true → ∃ dci, Decoded m p q.pi dci) :=
    fetchProcInfo_of_table hreg htable hp (Or.inr rfl) hcov
  have hinfo : procInfoAt k m f.addr = .ok q.pi := by
    unfold procInfoAt
    rw [Act.bind_of_ok hfetch]
    rfl
  constructor
  · refine Or.inr ⟨⟨q.pi, hinfo⟩, fun hno => ?_⟩
    obtain ⟨pi, dci, hsome, -⟩ := unwindInfoAt_of_table hreg htable hp hcov
    cases hsome.symm.trans hno
  · unfold MachineFrame.handler
    rw [hinfo]
    exact hfound.handler

/-- **What a personality routine sees** of a frame of an encoded procedure. The two phases call the
personality that the CIE names. Any number of questions, in any order, are answered with the registers
of the frame, the LSDA and the start of the procedure, and leave the cursor at the frame, so that the
same questions may be asked again. `_Unwind_FindEnclosingFunction` agrees on the start. -/
theorem questions_answered (hreg : Registered k di) (htable : UnwindTableAt m di procs)
    (hp : p ∈ procs) (hcov : p.Covers f.addr) (hs : CursorOn m uc f s.c)
    (hvalid : s.c.piValid = false) (qs : List Question) (q : PiState) :
    f.handler k m = p.handler ∧
      (∃ t, askAll k m qs s = (.ok (qs.map (answerFor p di.gp f)), t) ∧ CursorOn m uc f t.c) ∧
      (unwindFindEnclosingFunction k m f.addr q).1 = .ok p.fde.startIp := by
  have hseen : Seen m uc p di.gp f s := ⟨hs, fun h => absurd (hvalid.symm.trans h) Bool.false_ne_true⟩
  obtain ⟨t, hask, ht⟩ := hseen.askAll_eq hreg htable hp hcov qs
  exact ⟨(known_of_table hreg htable hp hcov).2, ⟨t, hask, ht.frame⟩,
    unwindFindEnclosingFunction_eq hreg htable hp hcov q⟩

end Answers

/-- The inner frame of the procedure with two rows. -/
theorem questions_answered_two_rows :
    (⟨true, nestedRegs 0x5012 0x7008⟩ : MachineFrame).handler twoRowsKernel
        (call getcontext nestedMachine).mem = 0 ∧
      (∃ t, askAll twoRowsKernel (call getcontext nestedMachine).mem
          [.regionStart, .ip, .languageSpecificData, .cfa, .regionStart]
          { callFrame 0 with
            c := initialCursor (call getcontext nestedMachine).mem 0x40000 (callFrame 0).c } =
        (.ok [0x5000, 0x5012, 0, 0x7008, 0x5000], t)) ∧
      (unwindFindEnclosingFunction twoRowsKernel (call getcontext nestedMachine).mem 0x5011
        ⟨ProcInfo.zero, ⟨0, 0⟩⟩).1 = .ok 0x5000 := by
  have hreg : Registered twoRowsKernel twoRowsEntry := ⟨[], [], rfl, List.forall_mem_nil _⟩
  obtain ⟨hhandler, ⟨t, hasked, -⟩, hfind⟩ := questions_answered (f := ⟨true, nestedRegs 0x5012 0x7008⟩)
    (s := { callFrame 0 with
      c := initialCursor (call getcontext nestedMachine).mem 0x40000 (callFrame 0).c })
    hreg twoRows_tableAt (List.mem_singleton_self _) (by decide +kernel) ⟨nested_cursorAt, rfl⟩ rfl
    [.regionStart, .ip, .languageSpecificData, .cfa, .regionStart] ⟨ProcInfo.zero, ⟨0, 0⟩⟩
  exact ⟨hhandler, ⟨t, hasked⟩, hfind⟩

end LibunwindKern.Unwind
