import LibunwindKern.Unwind.Refinement
import LibunwindKern.X86.Callers
import LibunwindKern.X86.ProcInfoCache

/-!
# The two phases on the stack of a machine

The two phases are proved about `Stack`, a list of frames with an instruction pointer and a handler
each. Here they run on the cursor of the library: `machineEnv` calls the models of `unw_init_local`,
`unw_step`, `unw_get_proc_info`, `unw_get_reg` and `unw_resume`.

`MachineStack` is a stack as it is in memory: register files, each one step out of the one before it,
and a last frame that is not left. `OnStack` ties a cursor at one of its frames to the position in the
abstract stack, and `machineEnv_simulates` is the simulation.

`twoPhases_refine` is what follows: what is proved of the two phases on lists of frames holds on the
machine.
-/

namespace LibunwindKern

open CProg ByteMem StraightLine Unw

/-! ### What `unw_get_proc_info` reports of a frame -/

/-- A state in which no procedure info is cached. -/
def unknownSt : St :=
  { blankSt ProcInfo.zero with c := { blankCursor ProcInfo.zero with piValid := false } }

/-- The procedure info that `fetch_proc_info` finds for an address when no unwind info is needed. -/
def procInfoAt (k : Kernel) (m : Mem) (addr : Word) : Res UnwError ProcInfo :=
  ((do
    fetchProcInfo k m addr false
    let s ← Act.get
    pure s.c.pi : Unw ProcInfo) unknownSt).1

/-- A frame of a machine, and whether its instruction pointer is taken for a return address. -/
structure MachineFrame where
  prev : Bool
  regs : RegFile

/-- The address that the frame is looked up by. -/
def MachineFrame.addr (f : MachineFrame) : Word := if f.prev then f.regs RIP - 1 else f.regs RIP

/-- The handler that `unw_get_proc_info` reports of the frame. A lookup that fails is reported as a
procedure without one. -/
def MachineFrame.handler (k : Kernel) (m : Mem) (f : MachineFrame) : Word :=
  match procInfoAt k m f.addr with
  | .ok pi => pi.handler
  | _ => 0

/-- The frame as the two phases see it. -/
def MachineFrame.view (k : Kernel) (m : Mem) (f : MachineFrame) : Unwind.Frame :=
  ⟨f.regs RIP, f.handler k m⟩

/-- The lookup of the frame comes back. A frame that has no unwind info has no procedure info either,
so that none is left in the cursor when the frame is left. -/
def MachineFrame.Known (k : Kernel) (m : Mem) (f : MachineFrame) : Prop :=
  procInfoAt k m f.addr = .err .enoinfo ∨
    (∃ pi, procInfoAt k m f.addr = .ok pi) ∧ ¬NoInfo k m f.prev (f.regs RIP)

/-- The cursor is at the frame. -/
structure CursorOn (m : Mem) (uc : Word) (f : MachineFrame) (c : Cursor) : Prop where
  cursor : CursorAt m uc f.regs c
  prev : c.usePrevInstr = f.prev

section Lookup

variable {k : Kernel} {m : Mem} {uc : Word} {f : MachineFrame} {s t : St}

/-- **The lookup** finds the same procedure info from every cursor that has none. -/
theorem fetchProcInfo_known {ip : Word} {r : Res UnwError Unit} (hvalid : s.c.piValid = false)
    (h : fetchProcInfo k m ip false s = (r, t)) :
    procInfoAt k m (lookupIp s.c ip) = (r >>= fun _ => .ok t.c.pi) := by
  have hrest := fetchRest_ignores_rest k m (lookupIp s.c ip) false
    (withPi unknownSt ⟨ProcInfo.zero, ⟨0, 0⟩⟩) (withPi s ⟨ProcInfo.zero, s.ciePool⟩)
  have halike : Act.Alike St.withRest (fetchProcInfo k m (lookupIp s.c ip) false unknownSt)
      (fetchProcInfo k m ip false s) := by
    rw [fetchProcInfo_eq (Or.inr hvalid), fetchProcInfo_eq (Or.inr rfl)]
    exact hrest
  obtain ⟨hout, g, hstate⟩ := halike
  rw [h] at hout hstate
  unfold procInfoAt
  -- the procedure info is the part of the state that is not ignored
  have hpi : t.c.pi = (fetchProcInfo k m (lookupIp s.c ip) false unknownSt).2.c.pi := by
    rw [show t = _ from hstate]
    rfl
  rw [Act.bind_view, ← hout, hpi]

theorem CursorOn.lookupIp_eq (h : CursorOn m uc f s.c) : lookupIp s.c s.c.ip = f.addr := by
  unfold lookupIp MachineFrame.addr
  rw [h.prev, h.cursor.ip]

/-- The frame of a cursor is none of the business of a lookup. -/
theorem CursorOn.fetched {r : Res UnwError Unit} (h : CursorOn m uc f s.c)
    (hend : FetchEnd k m s s.c.ip false r t) : CursorOn m uc f t.c := by
  obtain ⟨hcursor, hprev⟩ := h
  have hframe : ∀ (c : Cursor) (pi : ProcInfo) (valid dynamic : Bool), CursorAt m uc f.regs c →
      CursorAt m uc f.regs { c with pi := pi, piValid := valid, piIsDynamic := dynamic } :=
    fun _ _ _ _ h => ⟨h.context, h.cfa, h.ip, h.holds, h.paged, h.place, h.args, h.stash⟩
  cases hend with
  | dynamic | broken | file => exact ⟨hframe s.c _ true _ hcursor, hprev⟩
  | format | missing | stuck => exact ⟨hframe s.c _ _ _ hcursor, hprev⟩

/-- **`unw_get_proc_info`** at a frame reports its handler. -/
theorem unwGetProcInfo_known (h : CursorOn m uc f s.c) (hvalid : s.c.piValid = false)
    (hknown : f.Known k m) :
    ∃ pi t, unwGetProcInfo k m s = (.ok pi, t) ∧ pi.handler = f.handler k m ∧
      CursorOn m uc f t.c ∧ (NoInfo k m f.prev (f.regs RIP) → t.c.piValid = false) := by
  rcases hfetch : fetchProcInfo k m s.c.ip false s with ⟨r, t⟩
  have hinfo := fetchProcInfo_known hvalid hfetch
  have hend := FetchEnd.of_run (Or.inr hvalid) hfetch
  have hframe := h.fetched hend
  obtain ⟨hstate, hok, herr, -⟩ := unwGetProcInfo_of_fetch hfetch
  rw [h.lookupIp_eq] at hinfo
  unfold MachineFrame.handler
  obtain hnone | ⟨⟨pi, hsome⟩, hhas⟩ := hknown
  · rw [hnone] at hinfo ⊢
    obtain rfl : r = .err .enoinfo := by
      cases r with
      | err e =>
        cases hinfo
        rfl
      | _ => cases hinfo
    refine ⟨_, t, Prod.ext (herr ⟨_, rfl⟩) hstate, rfl, hframe, fun _ => ?_⟩
    -- a lookup that finds nothing does not touch the flag
    obtain ⟨p, rfl⟩ := fetch_enoinfo_withPi (Or.inr hvalid) hfetch
    exact hvalid
  · rw [hsome] at hinfo ⊢
    obtain ⟨⟨⟩, rfl, hpi⟩ := Res.bind_eq_ok hinfo.symm
    refine ⟨_, t, Prod.ext (hok rfl) hstate, ?_, hframe, fun hno => absurd hno hhas⟩
    cases hpi
    rfl

end Lookup

namespace Unwind

variable {ω : Type}

/-! ### The two phases on a machine -/

/-- The personality routines and the stop functions. What they answer depends on the instruction
pointer of the frame, and on the world. A stop function sees no frame at the end of the stack. `sets`
are the registers that the last personality has set. -/
structure Routines (ω : Type) where
  answer : Word → Action → Word → Word → World ω → ReasonCode × World ω
  stop : Word → Action → Word → Option Word → Word → World ω → ReasonCode × World ω
  sets : World ω → List (Fin dwarfNumPreservedRegs × Word)
  searchAnswer : Word → Word → ReasonCode
  search_by_ip : ∀ handler cls ip w,
    (answer handler uaSearchPhase cls ip w).1 = searchAnswer cls ip

/-- The routines on a stack of frames. `unw_resume` does not come back. -/
def Routines.callbacks (P : Routines ω) : Callbacks ω where
  unwResume _ _ := false
  personality handler actions cls context w :=
    P.answer handler actions cls context.cursor.frame.ip w
  stop stop actions cls context param w :=
    P.stop stop actions cls (if context.endOfStack then none else some context.cursor.frame.ip)
      param w
  searchAnswer := P.searchAnswer
  search_by_ip handler cls context w := P.search_by_ip handler cls context.cursor.frame.ip w

/-- The cursor of an unwinding routine, and whether the routine calls `unw_get_proc_info` on it
before it goes on. -/
structure MachineCursor where
  st : St
  look : Bool

section Machine

variable (k : Kernel) (m : Mem) (fuel : ℕ)

/-- The state after that call. -/
def MachineCursor.known (c : MachineCursor) : St :=
  if c.look then (unwGetProcInfo k m c.st).2 else c.st

/-- What `unw_step` returns. -/
def stepRet : Res UnwError ℕ → Int
  | .ok n => n
  | _ => -1

/-- The registers that the personality has set, and `unw_resume`. -/
def resumeFrame (val : Word) (P : Routines ω) (c : MachineCursor) (w : World ω) :
    Res UnwError Word :=
  (unwResume k msyncValidate val (setRegs (P.sets w) ⟨c.known k m, m⟩).2).1

/-- The functions of the library, for the saved context at `uc`. The cursor is initialised over the
contents of `prior`. `look` says whether every step is followed by a call of `unw_get_proc_info`. -/
def machineEnv (look : Bool) (uc val : Word) (prior : St) (P : Routines ω) :
    Env Word MachineCursor ω where
  unwGetcontext := some uc
  unwInitLocal ctx :=
    match unwInitLocal msyncValidate m ctx prior with
    | (.ok (), t) => some ⟨t, false⟩
    | _ => none
  unwStep c :=
    (stepRet (unwStep k msyncValidate m fuel (c.known k m)).1,
      ⟨(unwStep k msyncValidate m fuel (c.known k m)).2, look⟩)
  unwGetProcInfo c :=
    match (unwGetProcInfo k m c.st).1 with
    | .ok pi => some pi.handler
    | _ => none
  unwGetIp c :=
    match (unwGetReg msyncValidate m (c.known k m).c 16 (c.known k m).lga).1 with
    | .ok ip => some ip
    | _ => none
  unwResume c w :=
    match resumeFrame k m val P c w with
    | .err _ => true
    | _ => false
  personality handler actions cls context w :=
    P.answer handler actions cls (context.cursor.known k m).c.ip w
  stop stop actions cls context param w :=
    P.stop stop actions cls (if context.endOfStack then none else some context.cursor.st.c.ip)
      param w

/-! ### The stack in memory -/

/-- `unw_step` does not leave the frame, and returns `last`. -/
def EndsAt (uc : Word) (last : Int) (f : MachineFrame) : Prop :=
  ∀ s : St, CursorOn m uc f s.c → stepRet (unwStep k msyncValidate m fuel s).1 = last

/-- The stack of a machine: the frame that the context was saved in, and the frames outside it. -/
structure MachineStack (uc : Word) where
  self : MachineFrame
  frames : List MachineFrame
  last : Int
  last_nonpos : last ≤ 0
  linked : List.IsChain (fun f g => OutOf k m fuel uc f.prev f.regs g.prev g.regs) (self :: frames)
  known : ∀ f ∈ self :: frames, f.Known k m
  ends : ∀ f, (self :: frames).getLast? = some f → EndsAt k m fuel uc last f

end Machine

section Simulation

variable {k : Kernel} {m : Mem} {fuel : ℕ} {uc : Word}

/-- The stack as the two phases see it. -/
def MachineStack.view (st : MachineStack k m fuel uc) : Stack :=
  ⟨st.self.view k m, st.frames.map (·.view k m), st.last, st.last_nonpos⟩

/-- The cursor is at the frame `f` of the stack, with the frames `outer` outside it. -/
structure OnFrame (st : MachineStack k m fuel uc) (f : MachineFrame) (outer : List MachineFrame)
    (c : MachineCursor) : Prop where
  inside : f :: outer <:+ st.self :: st.frames
  frame : CursorOn m uc f c.st.c
  valid : c.st.c.piValid = false

/-- The cursor is at the same frame of the stack as the position. -/
def OnStack (st : MachineStack k m fuel uc) (c : MachineCursor) (c' : StackCursor) : Prop :=
  ∃ f outer, OnFrame st f outer c ∧
    c' = ⟨f.view k m, outer.map (·.view k m)⟩

variable {st : MachineStack k m fuel uc} {f : MachineFrame} {outer : List MachineFrame}
  {c : MachineCursor} {c' : StackCursor}

theorem OnFrame.isKnown (h : OnFrame st f outer c) : f.Known k m :=
  st.known f (h.inside.subset List.mem_cons_self)

/-- The call of `unw_get_proc_info` leaves the cursor where it is. -/
theorem OnFrame.known_at (h : OnFrame st f outer c) :
    CursorOn m uc f (c.known k m).c ∧
      (NoInfo k m f.prev (f.regs RIP) → (c.known k m).c.piValid = false) := by
  unfold MachineCursor.known
  by_cases hlook : c.look = true
  · rw [if_pos hlook]
    obtain ⟨pi, t, hrun, -, hframe, hvalid⟩ := unwGetProcInfo_known h.frame h.valid h.isKnown
    rw [hrun]
    exact ⟨hframe, hvalid⟩
  · rw [if_neg hlook]
    exact ⟨h.frame, fun _ => h.valid⟩

/-- A step out of a frame whose procedure info is not stale. -/
theorem unwStep_out_known {next : Bool} {caller : RegFile} {s : St} (hs : CursorOn m uc f s.c)
    (hvalid : NoInfo k m f.prev (f.regs RIP) → s.c.piValid = false)
    (h : OutOf k m fuel uc f.prev f.regs next caller) :
    ∃ t, unwStep k msyncValidate m fuel s = (.ok 1, t) ∧ CursorOn m uc ⟨next, caller⟩ t.c ∧
      t.c.piValid = false := by
  obtain ⟨t, hstep, ht, hnext, hkept⟩ := unwStep_out hs.cursor hs.prev h
  refine ⟨t, hstep, ⟨ht, hnext⟩, ?_⟩
  cases h with
  | @call signal rs _ _ row calls =>
    -- `dwarf_step` clears the flag
    have hrow : HasRow k m fuel s.c.usePrevInstr (f.regs RIP) rs signal := by
      rw [hs.prev]
      exact row
    obtain ⟨u, hstep', -, -, hclear⟩ := unwStep_calls hs.cursor hrow calls
    rw [hstep'] at hstep
    cases hstep
    exact hclear
  | plt info stub => exact hkept (hvalid info)
  | interrupt info frame => exact hkept (hvalid info)

/-- **A step** on the stack. -/
theorem OnFrame.step (h : OnFrame st f outer c) (look : Bool) :
    (outer = [] ∧ stepRet (unwStep k msyncValidate m fuel (c.known k m)).1 = st.last) ∨
      ∃ g rest, outer = g :: rest ∧
        stepRet (unwStep k msyncValidate m fuel (c.known k m)).1 = 1 ∧
        OnFrame st g rest ⟨(unwStep k msyncValidate m fuel (c.known k m)).2, look⟩ := by
  obtain ⟨hframe, hvalid⟩ := h.known_at
  cases outer with
  | nil =>
    refine Or.inl ⟨rfl, st.ends f ?_ _ hframe⟩
    obtain ⟨inner, hinner⟩ := h.inside
    rw [← hinner]
    exact List.getLast?_concat
  | cons g rest =>
    have hlink := (st.linked.suffix h.inside).rel
    obtain ⟨t, hstep, ht, hclear⟩ := unwStep_out_known hframe hvalid hlink
    rw [hstep]
    exact Or.inr ⟨g, rest, rfl, rfl, (List.suffix_cons f _).trans h.inside, ht, hclear⟩

theorem OnFrame.unwGetProcInfo_eq (h : OnFrame st f outer c) :
    ∃ pi, (unwGetProcInfo k m c.st).1 = .ok pi ∧ pi.handler = f.handler k m := by
  obtain ⟨pi, t, hrun, hhandler, -⟩ := unwGetProcInfo_known h.frame h.valid h.isKnown
  exact ⟨pi, by rw [hrun], hhandler⟩

/-- The cursor that `unw_init_local` sets up is at the innermost frame. -/
theorem OnFrame.start (st : MachineStack k m fuel uc) {prior : St}
    (hpage : ∀ reg, pageStart (uc + ucOffset reg) ≠ 0) (hsaved : SavedAt m uc st.self.regs)
    (hself : st.self.prev = true) (hargs : ∀ i : Fin 2, prior.c.ehValidMask.getLsbD i = false) :
    OnFrame st st.self st.frames ⟨{ prior with c := initialCursor m uc prior.c }, false⟩ :=
  ⟨List.suffix_rfl, ⟨initialCursor_cursorAt hpage hsaved hargs, hself.symm⟩, rfl⟩

theorem machineEnv_init (k : Kernel) (fuel : ℕ) (look : Bool) (val : Word) (prior : St)
    (P : Routines ω) (hpage : ∀ reg, pageStart (uc + ucOffset reg) ≠ 0) :
    (machineEnv k m fuel look uc val prior P).unwInitLocal uc =
      some ⟨{ prior with c := initialCursor m uc prior.c }, false⟩ := by
  have hinit := unwInitLocal_eq (v := msyncValidate) (m := m) (ne_zero_of_paged (hpage RIP))
    (ne_zero_of_paged (hpage RSP)) prior
  show (match unwInitLocal msyncValidate m uc prior with
    | (.ok (), t) => some (⟨t, false⟩ : MachineCursor)
    | _ => none) = _
  rw [hinit]

/-- **The machine simulates the stack of frames.** -/
theorem machineEnv_simulates (st : MachineStack k m fuel uc) (look : Bool) (val : Word)
    (P : Routines ω) {prior : St} (hpage : ∀ reg, pageStart (uc + ucOffset reg) ≠ 0)
    (hsaved : SavedAt m uc st.self.regs) (hself : st.self.prev = true)
    (hargs : ∀ i : Fin 2, prior.c.ehValidMask.getLsbD i = false) :
    Simulates (OnStack st) (machineEnv k m fuel look uc val prior P)
      (stackEnv st.view P.callbacks) where
  start :=
    ⟨uc, (), _, ⟨st.self.view k m, st.view.frames⟩, rfl, machineEnv_init k fuel look val prior P hpage,
      rfl, rfl, st.self, st.frames, .start st hpage hsaved hself hargs, rfl⟩
  step := by
    rintro c _ ⟨f, outer, h, rfl⟩
    obtain ⟨rfl, hlast⟩ | ⟨g, rest, rfl, hret, -⟩ := h.step look
    · exact hlast
    · exact hret
  kept := by
    rintro c _ ⟨f, outer, h, rfl⟩ hpos
    obtain ⟨-, hlast⟩ | ⟨g, rest, rfl, -, hnext⟩ := h.step look
    · -- the last frame is not left
      exact absurd (hlast ▸ hpos) (not_lt_of_ge st.last_nonpos)
    · exact ⟨g, rest, hnext, rfl⟩
  procInfo := by
    rintro c _ ⟨f, outer, h, rfl⟩
    obtain ⟨pi, hrun, hhandler⟩ := h.unwGetProcInfo_eq
    show (match (unwGetProcInfo k m c.st).1 with
      | .ok pi => some pi.handler
      | _ => none) = some (f.handler k m)
    rw [hrun, ← hhandler]
  ip := by
    rintro c _ ⟨f, outer, h, rfl⟩
    show (match (unwGetReg msyncValidate m (c.known k m).c RIP (c.known k m).lga).1 with
      | .ok ip => some ip
      | _ => none) = some (f.regs RIP)
    rw [h.known_at.1.cursor.unwGetReg_eq (by decide)]
  resume := by
    rintro c _ - w
    have hends := @unwResume_ends k val (setRegs (P.sets w) ⟨c.known k m, m⟩).2 msyncValidate
    obtain hok | hstuck := hends
    · show (match resumeFrame k m val P c w with
        | .err _ => true
        | _ => false) = false
      unfold resumeFrame
      rw [hok]
    · show (match resumeFrame k m val P c w with
        | .err _ => true
        | _ => false) = false
      unfold resumeFrame
      split
      · next heq => exact absurd heq (hstuck.2 _)
      · rfl
  personality := by
    rintro c _ ⟨f, outer, h, rfl⟩ handler actions cls b w
    show P.answer handler actions cls (c.known k m).c.ip w = P.answer handler actions cls (f.regs RIP) w
    rw [h.known_at.1.cursor.ip]
  stop := by
    rintro c _ ⟨f, outer, h, rfl⟩ stop actions cls param w
    show P.stop stop actions cls (some c.st.c.ip) param w =
      P.stop stop actions cls (some (f.regs RIP)) param w
    rw [h.frame.cursor.ip]
  stopAtEnd _ _ _ _ _ _ _ := rfl

end Simulation

end Unwind

end LibunwindKern
