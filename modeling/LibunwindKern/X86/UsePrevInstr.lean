import LibunwindKern.Dwarf.Fetch
import LibunwindKern.X86.Cursor
import LibunwindKern.X86.FallbackFrame
import LibunwindKern.X86.StepRun

/-!
# `use_prev_instr` over whole runs

`use_prev_instr` says whether the instruction pointer of a frame is a return address. It is
to be 0 exactly behind a signal frame, because the interrupted code is resumed at the address
itself and not behind a call.

The flag is written in two places: `unw_init_local` sets it, and `fetch_proc_info` does if it
has found the unwind info of a frame. The fallback of `unw_step` unwinds a frame too and leaves
the flag alone. `Run` records the kinds of the frames a run has unwound. The flag is then a
function of these kinds (`Run.usePrevInstr_eq`): the nearest frame with unwind info decides.

* `use_prev_instr_tracks_iff`: when the flag is right.
-/

namespace LibunwindKern

open CProg ByteMem Unw

/-! ### The kinds of frames -/

/-- What a frame is for the unwinder. -/
inductive FrameKind where
  /-- A frame with unwind info, and the `signal_frame` flag of its CIE. -/
  | info (signalFrame : Bool)
  /-- A frame without unwind info, at the sigreturn trampoline. -/
  | trampoline
  /-- Another frame without unwind info. -/
  | plain
  deriving DecidableEq, Repr

/-- The frame is a signal frame. -/
def FrameKind.isSignal : FrameKind → Bool
  | .info signalFrame => signalFrame
  | .trampoline => true
  | .plain => false

/-- The nearest frame with unwind info is a signal frame. -/
def nearestSignal : List FrameKind → Bool
  | [] => false
  | .info signalFrame :: _ => signalFrame
  | _ :: kinds => nearestSignal kinds

/-- The kind of the frame of a state, by the lookup and the code at the instruction pointer.
`signalFormat` is the result of `unw_is_signal_frame`. -/
inductive FrameIs (k : Kernel) (m : Mem) (s : St) : FrameKind → Prop
  | info {u : St} {dci : CieInfo} (hfetch : fetchProcInfo k m s.c.ip true (arm s) = (.ok (), u))
      (hinfo : u.c.pi.unwindInfo = .cie dci) : FrameIs k m s (.info dci.signalFrame)
  | trampoline {u : St} (hfetch : fetchProcInfo k m s.c.ip true (arm s) = (.err .enoinfo, u))
      (hformat : signalFormat m s.c.ip = .freebsdSigframe) : FrameIs k m s .trampoline
  | plain {u : St} (hfetch : fetchProcInfo k m s.c.ip true (arm s) = (.err .enoinfo, u))
      (hformat : signalFormat m s.c.ip ≠ .freebsdSigframe) : FrameIs k m s .plain

/-- A run of successful steps, with the kinds of the frames it has unwound, the last one
first. -/
inductive Run (k : Kernel) (m : Mem) : List FrameKind → St → Prop
  | init {uc : Word} {s t : St} (h : unwInitLocal msyncValidate m uc s = (.ok (), t)) : Run k m [] t
  | step {kinds : List FrameKind} {kind : FrameKind} {s t : St} {fuel n : ℕ}
      (hrun : Run k m kinds s) (hkind : FrameIs k m s kind) (hpos : 0 < n)
      (hstep : unwStep k msyncValidate m fuel s = (.ok n, t)) : Run k m (kind :: kinds) t

section

variable {k : Kernel} {v : Validator} {m : Mem} {fuel n : ℕ} {s t : St}

/-! ### One step -/

theorem putUnwindInfo_keeps_usePrevInstr :
    Act.Keeps (fun s : St => s.c.usePrevInstr) putUnwindInfo :=
  putUnwindInfo_keeps fun _ => rfl

/-- A lookup that succeeds sets the flag by the CIE. -/
theorem fetch_usePrevInstr {ip : Word} {u : St} {dci : CieInfo}
    (h : fetchProcInfo k m ip true s = (.ok (), u)) (hinfo : u.c.pi.unwindInfo = .cie dci) :
    u.c.usePrevInstr = !dci.signalFrame := by
  cases FetchEnd.of_run (Or.inl rfl) h with
  | @dynamic p hd hf =>
    have hp : p.pi.unwindInfo = .cie dci := hinfo
    simp only [cached, withPi, nextUsePrevInstr, hp, UnwindInfo.signalFrame]
  | @file p hd hs hf =>
    have hp : p.pi.unwindInfo = .cie dci := hinfo
    simp only [cached, withPi, nextUsePrevInstr, hp, UnwindInfo.signalFrame]
  | stuck hok herr hs => exact absurd rfl (hok ())

/-- A lookup that finds nothing leaves the flag alone. -/
theorem fetch_enoinfo_usePrevInstr {ip : Word} {u : St}
    (h : fetchProcInfo k m ip true s = (.err .enoinfo, u)) :
    u.c.usePrevInstr = s.c.usePrevInstr := by
  obtain ⟨p, rfl⟩ := fetch_enoinfo_withPi (Or.inl rfl) h
  rfl

/-- A step with unwind info. -/
theorem dwarfStep_ok_usePrevInstr (h : dwarfStep k v m fuel s = (.ok n, t)) :
    ∃ u dci, fetchProcInfo k m s.c.ip true s = (.ok (), u) ∧ u.c.pi.unwindInfo = .cie dci ∧
      t.c.usePrevInstr = !dci.signalFrame := by
  rcases hfetch : fetchProcInfo k m s.c.ip true s with ⟨q, u⟩
  by_cases hq : q = .ok ()
  · subst hq
    rw [dwarfStep_eq_fetch, Act.bind_of_ok hfetch] at h
    obtain ⟨dci, hinfo⟩ := afterFetch_cie h
    refine ⟨u, dci, rfl, hinfo, ?_⟩
    obtain ⟨hfails, -⟩ | ⟨w, w', hfound, hput, -, rfl⟩ := afterFetch_found h
    · exact absurd rfl (hfails n)
    · have hkeeps := putUnwindInfo_keeps_usePrevInstr w
      rw [hput] at hkeeps
      calc w'.c.usePrevInstr = w.c.usePrevInstr := hkeeps
        _ = u.c.usePrevInstr := congrArg Found.usePrevInstr hfound
        _ = !dci.signalFrame := fetch_usePrevInstr hfetch hinfo
  · obtain ⟨r', hrun, hfails, -⟩ := dwarfStep_of_fetch_fails (v := v) hfetch hq
    rw [h] at hrun
    cases hrun
    exact absurd rfl (hfails n)

/-- **One step.** A frame has one kind, and a step that unwinds it sets the flag if it has
unwind info and leaves it alone otherwise. -/
theorem unwStep_usePrevInstr (h : unwStep k v m fuel s = (.ok n, t)) :
    ∃ kind, FrameIs k m s kind ∧
      t.c.usePrevInstr = match kind with
        | .info signalFrame => !signalFrame
        | _ => s.c.usePrevInstr := by
  have hfound := unwStep_found h
  have hflag : t.c.usePrevInstr = (dwarfStep k v m fuel (arm s)).2.c.usePrevInstr :=
    congrArg Found.usePrevInstr hfound
  obtain ⟨n', t', hok⟩ | ⟨t', herr⟩ := unwStep_eq_ok h
  · obtain ⟨u, dci, hfetch, hinfo, hset⟩ := dwarfStep_ok_usePrevInstr hok
    rw [hok] at hflag
    exact ⟨.info dci.signalFrame, .info hfetch hinfo, hflag.trans hset⟩
  · have hfetch := fetchProcInfo_of_enoinfo herr
    rw [herr] at hflag
    have hkept : t.c.usePrevInstr = s.c.usePrevInstr :=
      hflag.trans (fetch_enoinfo_usePrevInstr (s := arm s) hfetch)
    by_cases hformat : signalFormat m s.c.ip = .freebsdSigframe
    · exact ⟨.trampoline, .trampoline hfetch hformat, hkept⟩
    · exact ⟨.plain, .plain hfetch hformat, hkept⟩

theorem FrameIs.unique {a b : FrameKind} (ha : FrameIs k m s a) (hb : FrameIs k m s b) :
    a = b := by
  cases ha with
  | info hfetch hinfo =>
    cases hb with
    | info hfetch' hinfo' =>
      rw [hfetch] at hfetch'
      cases hfetch'
      rw [hinfo] at hinfo'
      cases hinfo'
      rfl
    | trampoline hfetch' => rw [hfetch] at hfetch'; cases hfetch'
    | plain hfetch' => rw [hfetch] at hfetch'; cases hfetch'
  | trampoline hfetch hformat =>
    cases hb with
    | info hfetch' => rw [hfetch] at hfetch'; cases hfetch'
    | trampoline => rfl
    | plain _ hformat' => exact absurd hformat hformat'
  | plain hfetch hformat =>
    cases hb with
    | info hfetch' => rw [hfetch] at hfetch'; cases hfetch'
    | trampoline _ hformat' => exact absurd hformat' hformat
    | plain => rfl

/-! ### Runs -/

/-- **The flag over a run**: the nearest frame with unwind info decides. -/
theorem Run.usePrevInstr_eq {kinds : List FrameKind} (h : Run k m kinds s) :
    s.c.usePrevInstr = !nearestSignal kinds := by
  induction h with
  | init h => exact (unwInitLocal_flags h).1
  | @step kinds kind s t fuel n hrun hkind hpos hstep ih =>
    obtain ⟨kind', hkind', hflag⟩ := unwStep_usePrevInstr hstep
    rw [← hkind.unique hkind'] at hflag
    rw [hflag]
    cases kind with
    | info signalFrame => rfl
    | trampoline => exact ih
    | plain => exact ih

/-- **When `use_prev_instr` tracks the kind of frame.** Every run of successful steps unwinds
frames of some kinds, and after the last of them the flag is 0 exactly for a signal frame if
and only if that frame has unwind info, or is a signal frame exactly if the nearest frame with
unwind info before it is one. -/
theorem use_prev_instr_tracks_iff (k : Kernel) (m : Mem) :
    (∀ kinds s fuel n t, Run k m kinds s → 0 < n →
      unwStep k msyncValidate m fuel s = (.ok n, t) → ∃ kind, Run k m (kind :: kinds) t) ∧
    ∀ kind kinds t, Run k m (kind :: kinds) t →
      (t.c.usePrevInstr = !kind.isSignal ↔
        (∃ signalFrame, kind = .info signalFrame) ∨ nearestSignal kinds = kind.isSignal) := by
  refine ⟨fun kinds s fuel n t hrun hpos hstep => ?_, fun kind kinds t hrun => ?_⟩
  · obtain ⟨kind, hkind, -⟩ := unwStep_usePrevInstr hstep
    exact ⟨kind, .step hrun hkind hpos hstep⟩
  · rw [hrun.usePrevInstr_eq]
    cases kind with
    | info signalFrame => exact iff_of_true rfl (Or.inl ⟨signalFrame, rfl⟩)
    | trampoline => simp [nearestSignal]
    | plain => simp [nearestSignal]

end

/-- A saved context at `0x40000`, with this instruction pointer, stack pointer and frame
pointer. -/
def savedContext (rip rsp rbp : Word) (m : Mem) : Mem :=
  store64 (store64 (store64 m 0x400b0 rip) 0x400c8 rsp) 0x40058 rbp

/-- The cursor that `unw_init_local` makes of that context. -/
def initState (m : Mem) : St := (unwInitLocal msyncValidate m 0x40000 bottomState).2

/-- A frame without unwind info whose frame pointer is `0x20100`. -/
def plainMem : Mem :=
  savedContext 0x10000 0x20000 0x20100
    (store64 (store64 (fun _ => 0) 0x20100 0x20200) 0x20108 0x11000)

/-- A frame at the sigreturn trampoline: its code, and the `RSP` and the `RIP` of the context
that was interrupted. -/
def trampolineMem : Mem :=
  savedContext 0x10000 0x20000 0
    (store64 (store64 (store64 (store64 (store64 (fun _ => 0) 0x10000 0x48006a10247c8d48)
      0x10008 0x050f000001a1c0c7) 0x10010 0xfdebf4) 0x200d8 0x30000) 0x200c0 0x11000)

/-- The flag is right behind the plain frame. -/
theorem use_prev_instr_plain :
    ∃ t, Run bareKernel plainMem [.plain] t ∧ t.c.usePrevInstr = !FrameKind.plain.isSignal := by
  have hinit : Run bareKernel plainMem [] (initState plainMem) :=
    .init (Act.run_of_outcome (by decide +kernel))
  have hfetch : (fetchProcInfo bareKernel plainMem (initState plainMem).c.ip true
      (arm (initState plainMem))).1 = .err .enoinfo := by decide +kernel
  have hstep : (unwStep bareKernel msyncValidate plainMem 0 (initState plainMem)).1 = .ok 1 := by
    decide +kernel
  have hrun := Run.step hinit (.plain (Act.run_of_outcome hfetch) (by decide +kernel)) Nat.one_pos
    (Act.run_of_outcome hstep)
  exact ⟨_, hrun, ((use_prev_instr_tracks_iff bareKernel plainMem).2 _ _ _ hrun).2 (Or.inr rfl)⟩

/-- Behind the trampoline the flag is still 1. -/
theorem use_prev_instr_trampoline :
    ∃ t, Run bareKernel trampolineMem [.trampoline] t ∧ t.c.usePrevInstr = true ∧
      t.c.usePrevInstr ≠ !FrameKind.trampoline.isSignal := by
  have hinit : Run bareKernel trampolineMem [] (initState trampolineMem) :=
    .init (Act.run_of_outcome (by decide +kernel))
  have hfetch : (fetchProcInfo bareKernel trampolineMem (initState trampolineMem).c.ip true
      (arm (initState trampolineMem))).1 = .err .enoinfo := by decide +kernel
  have hstep : (unwStep bareKernel msyncValidate trampolineMem 0
      (initState trampolineMem)).1 = .ok 1 := by decide +kernel
  have hrun := Run.step hinit (.trampoline (Act.run_of_outcome hfetch) (by decide +kernel))
    Nat.one_pos (Act.run_of_outcome hstep)
  refine ⟨_, hrun, ?_⟩
  rw [hrun.usePrevInstr_eq]
  decide

end LibunwindKern
