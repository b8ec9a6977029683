import LibunwindKern.X86.FallbackReads
import LibunwindKern.X86.LocalResume

/-!
# Asking for the instruction pointer

The model of `_Unwind_GetIPInfo` (`Unwind.c`). The call is a question, but it is answered by
`unw_is_signal_frame`, which writes its answer to the field of the cursor that `unw_step` sets and
`unw_resume` branches on.

`codeFormat` is the answer, which depends on the code at the instruction pointer and on nothing
before. The call is harmless if the cursor has this format already (`getIpInfo_harmless_iff`), and
the frame is resumed the same way if both formats, or neither, are those of a signal frame.
-/

namespace LibunwindKern.Unwind

open CProg ByteMem Unw

/-- `_Unwind_GetIPInfo`: the instruction pointer, and what is stored in `*ip_before_insn`. -/
def unwindGetIpInfo (v : Validator) (m : Mem) : Unw (Word × SigcontextFormat) := do
  let val ← read fun c => unwGetReg v m c 16
  let ipBeforeInsn ← unwIsSignalFrame v m
  pure (val, ipBeforeInsn)

/-- A number of these calls. -/
def getIpInfos (v : Validator) (m : Mem) : ℕ → Unw Unit
  | 0 => pure ()
  | n + 1 => do
    let _ ← unwindGetIpInfo v m
    getIpInfos v m n

/-- The format of the code at `ip`, for a cursor that validates its reads or does not. -/
def codeFormat (m : Mem) (validate : Bool) (ip : Word) : SigcontextFormat :=
  if validate then signalFormat m ip
  else if isSigreturnCode (load64 m ip) (load64 m (ip + 8)) (load64 m (ip + 16)) then
    .freebsdSigframe
  else if isSyscallCode (load64 m (ip - 5)) then .freebsdSyscall
  else .none

/-- **The calls are harmless**: they leave the cursor alone, and the frame is resumed as it would
have been without them. -/
structure Harmless (m : Mem) (s : St) : Prop where
  cursor : ∀ n, (getIpInfos msyncValidate m n s).2.c = s.c
  resume : ∀ n k val m', (unwResume k msyncValidate val ⟨(getIpInfos msyncValidate m n s).2, m'⟩).1 =
    (unwResume k msyncValidate val ⟨s, m'⟩).1

section

variable {m : Mem} {s : St}

/-! ### The calls -/

theorem accessMemAt_unvalidated (v : Validator) (addr : Word) (hv : s.c.validate = false) :
    accessMemAt v m addr s = (.ok (load64 m addr), s) := by
  unfold accessMemAt
  rw [read_eq, hv]
  rfl

/-- `unw_is_signal_frame` puts the format of the code into the cursor. -/
theorem unwIsSignalFrame_codeFormat (m : Mem) (s : St) :
    ∃ g, unwIsSignalFrame msyncValidate m s =
      (.ok (codeFormat m s.c.validate s.c.ip), { s with
        c := { s.c with sigcontextFormat := codeFormat m s.c.validate s.c.ip }, lga := g }) := by
  cases hv : s.c.validate with
  | true =>
    obtain ⟨g, hg⟩ := unwIsSignalFrame_eq (m := m) hv
    exact ⟨g, hg⟩
  | false =>
    refine ⟨s.lga, ?_⟩
    have hread : ∀ addr, accessMemAt msyncValidate m addr
        { s with c := { s.c with sigcontextFormat := .none } } = (.ok (load64 m addr), _) :=
      fun addr => accessMemAt_unvalidated _ addr hv
    have hformat : sigcontextFormatAt msyncValidate m s.c.ip
        { s with c := { s.c with sigcontextFormat := .none } } =
          (.ok (codeFormat m false s.c.ip),
            { s with c := { s.c with sigcontextFormat := .none } }) := by
      unfold sigcontextFormatAt codeFormat
      rw [Act.bind_of_ok (hread _), Act.bind_of_ok (hread _), Act.bind_of_ok (hread _),
        if_neg Bool.false_ne_true]
      split
      · rfl
      · rw [Act.bind_of_ok (hread _)]
        split
        · rfl
        · rfl
    unfold unwIsSignalFrame
    rw [setCursor_bind, Act.get_bind, Act.bind_of_ok (Act.attempt_of_ok hformat)]
    rfl

/-- **One call** puts the format of the code into the cursor, and leaves the rest of it alone. -/
theorem unwindGetIpInfo_run (m : Mem) (s : St) :
    ∃ g, unwindGetIpInfo msyncValidate m s =
      (.ok (s.c.ip, codeFormat m s.c.validate s.c.ip), { s with
        c := { s.c with sigcontextFormat := codeFormat m s.c.validate s.c.ip }, lga := g }) := by
  obtain ⟨g, hg⟩ := unwIsSignalFrame_codeFormat m s
  have hip : read (fun c => unwGetReg msyncValidate m c 16) s = (.ok s.c.ip, s) := rfl
  refine ⟨g, ?_⟩
  unfold unwindGetIpInfo
  rw [Act.bind_of_ok hip, Act.bind_of_ok hg]
  rfl

/-- **The calls** after the first one change nothing more. -/
theorem getIpInfos_run (m : Mem) (n : ℕ) (s : St) :
    ∃ g, getIpInfos msyncValidate m (n + 1) s =
      (.ok (), { s with
        c := { s.c with sigcontextFormat := codeFormat m s.c.validate s.c.ip }, lga := g }) := by
  induction n generalizing s with
  | zero =>
    obtain ⟨g, hg⟩ := unwindGetIpInfo_run m s
    refine ⟨g, ?_⟩
    unfold getIpInfos
    rw [Act.bind_of_ok hg]
    rfl
  | succ n ih =>
    obtain ⟨g, hg⟩ := unwindGetIpInfo_run m s
    obtain ⟨g', hg'⟩ := ih { s with
      c := { s.c with sigcontextFormat := codeFormat m s.c.validate s.c.ip }, lga := g }
    refine ⟨g', ?_⟩
    rw [getIpInfos, Act.bind_of_ok hg, hg']

/-! ### The resumption -/

/-- Put another format and another page cache into the state. -/
def putFormat (g : SigcontextFormat × Lga) (s : St) : St :=
  { s with c := { s.c with sigcontextFormat := g.1 }, lga := g.2 }

theorem putFormat_lookupBlind : LookupBlind putFormat := fun _ _ _ => rfl

/-- A frame is resumed the same way with another format, if both are formats of a signal frame or
both are not. -/
theorem localResume_putFormat {k : Kernel} {g : SigcontextFormat × Lga}
    (h : g.1 = .none ↔ s.c.sigcontextFormat = .none) :
    (x86_64LocalResume k m (putFormat g s)).1 = (x86_64LocalResume k m s).1 := by
  obtain ⟨hout, g', hstate⟩ :=
    dwarfMakeProcInfo_ignores (k := k) (m := m) putFormat_lookupBlind (fun _ _ => rfl) s g
  rcases hs : dwarfMakeProcInfo k m s with ⟨r, t⟩
  rcases hput : dwarfMakeProcInfo k m (putFormat g s) with ⟨r', t'⟩
  rw [hs, hput] at hout
  obtain rfl : r' = r := hout
  obtain ⟨u, rfl⟩ | ⟨e, rfl⟩ | hstuck := r'.ok_or_err_or_stuck
  · rw [x86_64LocalResume_of_ok (Or.inl hs), x86_64LocalResume_of_ok (Or.inl hput)]
    exact if_congr (not_congr h) rfl rfl
  · rw [x86_64LocalResume_of_ok (u := ()) (Or.inr ⟨e, hs⟩),
      x86_64LocalResume_of_ok (u := ()) (Or.inr ⟨e, hput⟩)]
    exact if_congr (not_congr h) rfl rfl
  · rw [x86_64LocalResume_of_stuck hs hstuck, x86_64LocalResume_of_stuck hput hstuck]

/-- In a system without unwind info, the format decides. -/
theorem localResume_bare (m : Mem) (s : St) :
    (x86_64LocalResume bareKernel m s).1 =
      if s.c.sigcontextFormat ≠ .none then .panic else .ok s.c.uc := by
  rcases hs : dwarfMakeProcInfo bareKernel m s with ⟨r, t⟩
  cases hvalid : s.c.piValid with
  | true =>
    refine x86_64LocalResume_of_ok (u := ()) (t := s) (Or.inl ?_)
    unfold dwarfMakeProcInfo fetchProcInfo
    rw [Act.get_bind, Act.get_bind, if_pos ⟨hvalid, Bool.false_ne_true⟩]
    rfl
  | false => exact x86_64LocalResume_of_ok (u := ()) (Or.inr ⟨_, fetchProcInfo_bare (Or.inr hvalid)⟩)

/-- What is resumed does not depend on the format, or on the page cache. -/
theorem establish_putFormat (g : SigcontextFormat × Lga) (val : Word) :
    (establishMachineState msyncValidate (putFormat g s).c ⟨m, (putFormat g s).lga, val⟩).mem =
      (establishMachineState msyncValidate s.c ⟨m, s.lga, val⟩).mem :=
  establishMachineState_lga s.c m s.lga g.2 val

/-- **A resumption** with another format. -/
theorem unwResume_putFormat_iff (s : St) (g : SigcontextFormat × Lga) :
    (∀ k val m', (unwResume k msyncValidate val ⟨putFormat g s, m'⟩).1 =
      (unwResume k msyncValidate val ⟨s, m'⟩).1) ↔
      (g.1 = .none ↔ s.c.sigcontextFormat = .none) := by
  constructor
  · intro h
    have hbare := h bareKernel 0 fun _ => 0
    rw [unwResume_fst, unwResume_fst, localResume_bare, localResume_bare] at hbare
    have hways : (if g.1 ≠ .none then .panic else .ok s.c.uc : Res UnwError Word) =
        if s.c.sigcontextFormat ≠ .none then .panic else .ok s.c.uc := hbare
    by_cases hnew : g.1 = .none
    · refine iff_of_true hnew ?_
      by_contra hold
      rw [if_neg (not_not.2 hnew), if_pos hold] at hways
      cases hways
    · refine iff_of_false hnew fun hold => ?_
      rw [if_pos hnew, if_neg (not_not.2 hold)] at hways
      cases hways
  · intro h k val m'
    rw [unwResume_fst, unwResume_fst, establish_putFormat]
    -- both resumptions have the same memory, and page caches of their own
    exact localResume_putFormat (s := { s with
      lga := (establishMachineState msyncValidate s.c ⟨m', s.lga, val⟩).lga }) (g := (g.1,
        (establishMachineState msyncValidate (putFormat g s).c ⟨m', (putFormat g s).lga, val⟩).lga)) h

end

/-- **When the question is harmless.** For every cursor and memory: any number of calls leave the
cursor alone and do not change how the frame is resumed, if and only if the format in the cursor is
that of the code at its instruction pointer. The frame alone is resumed the same way if and only if
both are formats of a signal frame, or neither is. -/
theorem getIpInfo_harmless_iff (m : Mem) (s : St) :
    (Harmless m s ↔ s.c.sigcontextFormat = codeFormat m s.c.validate s.c.ip) ∧
      ((∀ n k val m',
          (unwResume k msyncValidate val ⟨(getIpInfos msyncValidate m n s).2, m'⟩).1 =
            (unwResume k msyncValidate val ⟨s, m'⟩).1) ↔
        (codeFormat m s.c.validate s.c.ip = .none ↔ s.c.sigcontextFormat = .none)) := by
  -- the state after the calls, if there are any
  have hafter : ∀ n, ∃ g, (getIpInfos msyncValidate m (n + 1) s).2 =
      putFormat (codeFormat m s.c.validate s.c.ip, g) s := by
    intro n
    obtain ⟨g, hg⟩ := getIpInfos_run m n s
    exact ⟨g, congrArg Prod.snd hg⟩
  have hresume : (∀ n k val m',
      (unwResume k msyncValidate val ⟨(getIpInfos msyncValidate m n s).2, m'⟩).1 =
        (unwResume k msyncValidate val ⟨s, m'⟩).1) ↔
      (codeFormat m s.c.validate s.c.ip = .none ↔ s.c.sigcontextFormat = .none) := by
    constructor
    · intro h
      obtain ⟨g, hg⟩ := hafter 0
      refine (unwResume_putFormat_iff s (codeFormat m s.c.validate s.c.ip, g)).1 fun k val m' => ?_
      rw [← hg]
      exact h 1 k val m'
    · intro h n
      cases n with
      | zero => exact fun _ _ _ => rfl
      | succ n =>
        obtain ⟨g, hg⟩ := hafter n
        rw [hg]
        exact (unwResume_putFormat_iff s (codeFormat m s.c.validate s.c.ip, g)).2 h
  refine ⟨⟨fun h => ?_, fun h => ⟨fun n => ?_, hresume.2 (h ▸ Iff.rfl)⟩⟩, hresume⟩
  · -- one call shows the format of the code
    obtain ⟨g, hg⟩ := hafter 0
    have hcursor := h.cursor 1
    rw [hg] at hcursor
    exact (congrArg Cursor.sigcontextFormat hcursor).symm
  · cases n with
    | zero => rfl
    | succ n =>
      obtain ⟨g, hg⟩ := hafter n
      rw [hg, ← h]
      rfl

/-- A return address behind `mov %rcx,%r10; syscall`. -/
def behindSyscall : Mem := store64 (fun _ => 0) 0xfffb 0x050fca8949

/-- There a single call turns `setcontext` into a panic. -/
theorem getIpInfo_turns_to_panic :
    bottomState.c.sigcontextFormat = .none ∧
      (getIpInfos msyncValidate behindSyscall 1 bottomState).2.c.sigcontextFormat =
        .freebsdSyscall ∧
      (unwResume bareKernel msyncValidate 0 ⟨bottomState, behindSyscall⟩).1 = .ok 0x40000 ∧
      (unwResume bareKernel msyncValidate 0
        ⟨(getIpInfos msyncValidate behindSyscall 1 bottomState).2, behindSyscall⟩).1 = .panic ∧
      ¬Harmless behindSyscall bottomState := by
  have hbefore : (unwResume bareKernel msyncValidate 0 ⟨bottomState, behindSyscall⟩).1 =
      .ok 0x40000 := by decide +kernel
  have hafter : (unwResume bareKernel msyncValidate 0
      ⟨(getIpInfos msyncValidate behindSyscall 1 bottomState).2, behindSyscall⟩).1 = .panic := by
    decide +kernel
  refine ⟨rfl, by decide +kernel, hbefore, hafter, fun h => ?_⟩
  have hsame := h.resume 1 bareKernel 0 behindSyscall
  rw [hbefore, hafter] at hsame
  cases hsame

end LibunwindKern.Unwind
