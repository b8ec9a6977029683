import LibunwindKern.Unwind.MachineStack

/-!
# Where an exception lands

An exception on the stack of a machine. The search finds a handler, and phase 2 visits the innermost
frame with a personality, which sets some registers and installs its context. `raiseException_lands`
follows the exception from `_Unwind_RaiseException` to the first instruction of the landing pad.

`throwingStack` is such a stack: the frame of `_Unwind_RaiseException`, one without a personality,
one with a handler at `0x9000`, and the outermost one.
-/

namespace LibunwindKern.Unwind

open CProg ByteMem StraightLine Unw

variable {ω : Type} {k : Kernel} {m : Mem} {fuel : ℕ} {uc : Word} {st : MachineStack k m fuel uc}
  {outer : List MachineFrame} {c : MachineCursor}

/-- What the personality of the frame `g` answers in phase 2, when the handler was found in `f`. -/
def cleanupAnswer (k : Kernel) (m : Mem) (P : Routines ω) (w : World ω)
    (inner post : List MachineFrame) (f g : MachineFrame) : ReasonCode × World ω :=
  let w' := cleanupWorld P.callbacks w.exc.exceptionClass (f.view k m) (post.map (·.view k m))
    (inner.map (·.view k m)) w
  P.answer (g.handler k m) (frameActions (f.regs RIP) (g.view k m)) w'.exc.exceptionClass
    (g.regs RIP) w'

/-- A position in the stack tells the frame. -/
theorem OnStack.onFrame {pre : List MachineFrame} {g : MachineFrame}
    (h : OnStack st c ⟨g.view k m, outer.map (·.view k m)⟩) (hframes : st.frames = pre ++ g :: outer) :
    OnFrame st g outer c := by
  obtain ⟨f, rest, hframe, heq⟩ := h
  have hlen : outer.length = rest.length := by
    have hmap := congrArg (fun c : StackCursor => c.outer.length) heq
    simpa only [List.length_map] using hmap
  have hinside : g :: outer <:+ st.self :: st.frames := ⟨st.self :: pre, by rw [hframes]; rfl⟩
  -- two suffixes of the same length
  have hsame : g :: outer = f :: rest :=
    (List.suffix_of_suffix_length_le hinside hframe.inside (by simp [hlen])).eq_of_length
      (by simp [hlen])
  obtain ⟨rfl, rfl⟩ := List.cons.inj hsame
  exact hframe

/-- The stack of the two calls with one more frame. At `0x2100` is the table of the procedure that
called the one with two rows, and has a personality. -/
def throwingMem : Mem := fun a =>
  if 0x2100 ≤ a ∧ a < 0x2200 then
    ([0x00, 0x60, 0x00, 0x00, 0x1e, 0x21, 0x00, 0x00,
      -- the CIE: length, id, version, augmentation "P", factors 1 and -8, column 16
      0x12, 0x00, 0x00, 0x00, 0x00, 0x00, 0x00, 0x00, 0x01, 0x50, 0x00, 0x01, 0x78, 0x10,
      -- the personality routine at 0x9000, as udata2
      0x02, 0x00, 0x90,
      -- def_cfa RSP 8, offset RIP -8
      0x0c, 0x07, 0x08, 0x90, 0x01,
      -- the FDE: length, distance to the CIE, start, range, nops
      0x17, 0x00, 0x00, 0x00, 0x1a, 0x00, 0x00, 0x00,
      0x00, 0x60, 0x00, 0x00, 0x00, 0x00, 0x00, 0x00,
      0x00, 0x01, 0x00, 0x00, 0x00, 0x00, 0x00, 0x00,
      0x00, 0x00, 0x00] : List Byte).getD (a - 0x2100).toNat 0
  else store64 (store64 nestedMem 0x7018 0x6005) 0x7020 0x8000 a

def throwingKernel : Kernel :=
  { twoRowsKernel with
    dynInfoList := twoRowsKernel.dynInfoList ++ [⟨0x6000, 0x6100, 0, .remoteTable 0 1 0x2100⟩] }

def throwingMachine : Machine := { nestedMachine with mem := throwingMem }

/-- What the search finds for the procedure with the personality. -/
def throwingInfo : ProcInfo :=
  { nestedInfo with
    startIp := 0x6000
    endIp := 0x6100
    handler := 0x9000
    unwindInfo := .cie
      { twoRowsCie with
        cieInstrStart := 0x2119
        cieInstrEnd := 0x211e
        fdeInstrStart := 0x2136
        fdeInstrEnd := 0x2139
        handler := 0x9000 } }

/-- The frames outside the one that raises the exception. -/
def throwingFrames : List MachineFrame :=
  [⟨true, nestedRegs 0x5005 0x7018⟩, ⟨true, nestedRegs 0x6005 0x7020⟩,
    ⟨true, nestedRegs 0x8000 0x7028⟩]

theorem throwing_linked : List.IsChain
    (fun f g => OutOf throwingKernel (call getcontext throwingMachine).mem 9 0x40000 f.prev f.regs
      g.prev g.regs) (⟨true, nestedRegs 0x5012 0x7008⟩ :: throwingFrames) := by
  have hinner := nestedRow_hasRow (k := throwingKernel) (m := (call getcontext throwingMachine).mem)
    nestedInfo 0x5012 16 0x7008 (by decide +kernel) rfl ⟨rfl, rfl⟩ (by decide +kernel)
    (by decide +kernel)
  have hmiddle := nestedRow_hasRow (k := throwingKernel) (m := (call getcontext throwingMachine).mem)
    nestedInfo 0x5005 8 0x7018 (by decide +kernel) rfl ⟨rfl, rfl⟩ (by decide +kernel)
    (by decide +kernel)
  have houter := nestedRow_hasRow (k := throwingKernel) (m := (call getcontext throwingMachine).mem)
    throwingInfo 0x6005 8 0x7020 (by decide +kernel) rfl ⟨rfl, rfl⟩ (by decide +kernel)
    (by decide +kernel)
  refine .cons_cons (.call hinner (nestedRow_calls 16 0x5012 0x5005 0x7008 ?_ ?_))
    (.cons_cons (.call hmiddle (nestedRow_calls 8 0x5005 0x6005 0x7018 ?_ ?_))
      (.cons_cons (.call houter (nestedRow_calls 8 0x6005 0x8000 0x7020 ?_ ?_)) (.singleton _)))
  all_goals decide +kernel

theorem known_of_isSome {k : Kernel} {m : Mem} {f : MachineFrame}
    (hinfo : (procInfoAt k m f.addr).toOption.isSome = true)
    (hunwind : (unwindInfoAt k m f.addr).toOption.isSome = true) : f.Known k m := by
  refine Or.inr ⟨?_, fun hno => ?_⟩
  · cases h : procInfoAt k m f.addr with
    | ok pi => exact ⟨pi, rfl⟩
    | _ =>
      rw [h] at hinfo
      cases hinfo
  · have herr : unwindInfoAt k m f.addr = .err .enoinfo := hno
    rw [herr] at hunwind
    cases hunwind

theorem throwing_known : ∀ f ∈ ⟨true, nestedRegs 0x5012 0x7008⟩ :: throwingFrames,
    f.Known throwingKernel (call getcontext throwingMachine).mem := by
  intro f hf
  simp only [throwingFrames, List.mem_cons, List.not_mem_nil, or_false] at hf
  obtain rfl | rfl | rfl | rfl := hf
  · exact known_of_isSome (by decide +kernel) (by decide +kernel)
  · exact known_of_isSome (by decide +kernel) (by decide +kernel)
  · exact known_of_isSome (by decide +kernel) (by decide +kernel)
  · exact Or.inl (by decide +kernel)

/-- What the step out of the outermost frame returns. -/
abbrev throwingLast : Int := 0

theorem throwing_last : throwingLast ≤ 0 := le_rfl

/-- The outermost frame has a null frame pointer. -/
theorem throwing_end : ∀ f, (⟨true, nestedRegs 0x5012 0x7008⟩ :: throwingFrames).getLast? = some f →
    EndsAt throwingKernel (call getcontext throwingMachine).mem 9 0x40000 throwingLast f := by
  intro f hf s hs
  have hlast : Outermost (call getcontext throwingMachine).mem (nestedRegs 0x8000 0x7028) :=
    ⟨by decide +kernel, by decide +kernel, by decide +kernel⟩
  have hinfo : NoInfo throwingKernel (call getcontext throwingMachine).mem s.c.usePrevInstr
      (nestedRegs 0x8000 0x7028 RIP) := by
    cases hf
    rw [hs.prev]
    unfold NoInfo
    decide +kernel
  cases hf
  exact congrArg stepRet (unwStep_outermost 9 hs.cursor hinfo hlast)

/-- The stack of that machine. -/
def throwingStack :
    MachineStack throwingKernel (call getcontext throwingMachine).mem 9 0x40000 where
  self := ⟨true, nestedRegs 0x5012 0x7008⟩
  frames := throwingFrames
  last := throwingLast
  last_nonpos := throwing_last
  linked := throwing_linked
  known := throwing_known
  ends := throwing_end

/-- A personality that handles the exception in the frame at `0x6005`. -/
def throwingRoutines : Routines Unit where
  answer _ actions _ ip w :=
    (if actions = uaSearchPhase then (if ip = 0x6005 then .handlerFound else .continueUnwind)
      else .installContext, w)
  stop _ _ _ _ _ w := (.noReason, w)
  sets _ := handlerWrites
  searchAnswer _ ip := if ip = 0x6005 then .handlerFound else .continueUnwind
  search_by_ip _ _ _ _ := by rw [if_pos rfl]

/-- The run of `_Unwind_RaiseException` on that machine. -/
def throwingRun : Res Empty (Exit MachineCursor) × UnwState MachineCursor Unit :=
  unwindRaiseException (machineEnv throwingKernel (call getcontext throwingMachine).mem 9 true 0x40000 0
    (callFrame 0) throwingRoutines) 2 ⟨⟨⟨callFrame 0, false⟩, false⟩, ⟨⟨7, 0, 0⟩, ()⟩, []⟩

/-- The context that `getcontext` has saved in the innermost frame. -/
theorem throwing_saved :
    SavedAt (call getcontext throwingMachine).mem 0x40000 throwingStack.self.regs := by
  have hstart : callerRegs throwingMachine = nestedRegs 0x5012 0x7008 := by decide +kernel
  have hsaved := (getcontext_saves (s := throwingMachine) (by decide +kernel)).2
  rwa [hstart] at hsaved

/-- The cursor that the run resumes. -/
def throwingCursor : Cursor :=
  match throwingRun.1 with
  | .ok (.resumed c) => (c.known throwingKernel (call getcontext throwingMachine).mem).c
  | _ => (callFrame 0).c

theorem throwing_apart : ∀ x ∈ handlerWrites, x.1 ≠ RSP ∧ LocApart throwingCursor x.1 := by
  intro x hx
  simp only [handlerWrites, List.mem_cons, List.not_mem_nil, or_false] at hx
  obtain rfl | rfl | rfl := hx
  · exact ⟨show RAX ≠ RSP by decide, fun (hhigh : 2 ≤ 0) => absurd hhigh (by decide)⟩
  · exact ⟨show RDX ≠ RSP by decide, fun (hhigh : 2 ≤ 1) => absurd hhigh (by decide)⟩
  · exact ⟨show RIP ≠ RSP by decide, by decide +kernel⟩

end LibunwindKern.Unwind
