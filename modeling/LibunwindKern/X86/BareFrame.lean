import LibunwindKern.X86.CallFrame
import LibunwindKern.X86.FallbackReads

/-!
# Frames that the code tells

A frame without unwind info is told by its code. `unw_step` knows three kinds of them that have
something to do with the registers of the caller:

* `PltCall`: a PLT entry, which has been called and has pushed nothing,
* `Interrupted`: the trampoline behind a signal handler, with the registers of the interrupted
  frame in the signal frame on its stack,
* `Outermost`: a frame with a null frame pointer, where the call chain ends.

`unwStep_noInfo` reduces a step to the fallback, which starts from the same frame. `unwStep_plt`,
`unwStep_interrupted` and `unwStep_outermost` are the steps. None of them touches `use_prev_instr`:
the flag is the one of the frame inside, because no unwind info is there to set it.
-/

namespace LibunwindKern

open CProg ByteMem StraightLine Unw

/-- There is no unwind info for the frame at `ip`. -/
def NoInfo (k : Kernel) (m : Mem) (prev : Bool) (ip : Word) : Prop :=
  unwindInfoAt k m (if prev then ip - 1 else ip) = .err .enoinfo

/-- The frame of a PLT entry and the frame that has called it. -/
structure PltCall (m : Mem) (uc : Word) (callee caller : RegFile) : Prop where
  signal : signalFormat m (callee RIP) = .none
  code : isPlt m (callee RIP) = true
  place : OffContext uc (callee RSP)
  paged : pageStart (callee RSP) ≠ 0
  stack : caller RSP = callee RSP + 8
  ret : caller RIP = load64 m (callee RSP)
  same : ∀ i, i ≠ RSP → i ≠ RIP → Saved i → caller i = callee i

/-- The frame of a signal trampoline and the frame that was interrupted. -/
structure Interrupted (m : Mem) (uc : Word) (callee caller : RegFile) : Prop where
  code : signalFormat m (callee RIP) = .freebsdSigframe
  saved : SavedAt m (callee RSP + sigfUc) caller
  place : ∀ i, i ≠ RSP → OffContext uc (callee RSP + sigfUc + ucOffset i)
  paged : ∀ i, pageStart (callee RSP + sigfUc + ucOffset i) ≠ 0
  moves : ¬(caller RIP = callee RIP ∧ caller RSP = callee RSP)

/-- The outermost frame. -/
structure Outermost (m : Mem) (regs : RegFile) : Prop where
  signal : signalFormat m (regs RIP) = .none
  code : isPlt m (regs RIP) = false
  rbp : regs RBP = 0

-- words of memory are compared as they are, without their bytes
attribute [local irreducible] load64

section Fallback

variable {k : Kernel} {v : Validator} {m : Mem} {fuel : ℕ} {uc : Word} {callee caller : RegFile}
  {s : St}

/-- A lookup that finds nothing ends `dwarf_step`. -/
theorem dwarfStep_noInfo (v : Validator) (fuel : ℕ)
    (h : unwindInfoAt k m (lookupIp s.c s.c.ip) = .err .enoinfo) :
    ∃ p, dwarfStep k v m fuel s = (.err .enoinfo, withPi s p) := by
  rcases hfetch : fetchProcInfo k m s.c.ip true s with ⟨r, t⟩
  have hlookup := fetchProcInfo_info hfetch
  rw [h] at hlookup
  have hnone : r = .err .enoinfo := by
    cases r with
    | err e =>
      cases hlookup
      rfl
    | _ => cases hlookup
  obtain ⟨r', hstep, -, herr⟩ := dwarfStep_of_fetch_fails (v := v) hfetch (by rw [hnone]; exact nofun)
  obtain rfl : r' = .err .enoinfo := (herr .enoinfo).mpr hnone
  obtain ⟨p, rfl⟩ := dwarfStep_enoinfo_withPi hstep
  exact ⟨p, hstep⟩

/-- **A step without unwind info** is the fallback from the same frame, with validation on. -/
theorem unwStep_noInfo (v : Validator) (fuel : ℕ) (h : CursorAt m uc callee s.c)
    (hinfo : NoInfo k m s.c.usePrevInstr (callee RIP)) :
    ∃ t, t.c.validate = true ∧ CursorAt m uc callee t.c ∧
      (t.c.usePrevInstr = s.c.usePrevInstr ∧ t.c.piValid = s.c.piValid) ∧
      ∀ r u, fallbackFrame v m t = (.ok (some r), u) →
        unwStep k v m fuel s = fallbackFinish v m (callee RIP) (callee RSP) r u := by
  unfold NoInfo at hinfo
  rw [← h.ip] at hinfo
  obtain ⟨p, hstep⟩ := dwarfStep_noInfo (s := arm s) v fuel hinfo
  refine ⟨validated (disarm s (withPi (arm s) p)), rfl, ?_, ⟨rfl, rfl⟩, fun r u hframe => ?_⟩
  · exact ⟨h.context, h.cfa, h.ip, h.holds, h.paged, h.place, h.args, h.stash⟩
  · rw [← h.ip, ← h.cfa]
    exact (unwStep_of_enoinfo hstep).trans (stepFallback_of_frame hframe)

theorem readable_of_paged {a : Word} (h : pageStart a ≠ 0) : readable a = true := decide_eq_true h

/-- A word in a page that can be read. -/
theorem accessMem_paged {a : Word} (g : Lga) (h : pageStart a ≠ 0) :
    ∃ g', accessMem msyncValidate m true a g = (.ok (load64 m a), g') := by
  obtain ⟨g', hg⟩ := accessMem_msync (m := m) a g
  rw [if_pos (readable_of_paged h)] at hg
  exact ⟨g', hg⟩

/-- The fallback ends well when the return address of the frame it has set up can be read, and the
frame is another one. -/
theorem fallbackFinish_paged {prevIp prevCfa : Word} {u : St} (r : Except UnwError ℕ)
    (hv : u.c.validate = true) (hrbp : u.c.loc RBP ≠ 0) (hrip : pageStart (u.c.loc RIP) ≠ 0)
    (hnew : ¬(load64 m (u.c.loc RIP) = prevIp ∧ u.c.cfa = prevCfa)) :
    ∃ g, fallbackFinish msyncValidate m prevIp prevCfa r u =
      (.ok 1, { u with
        c := { u.c with retAddrColumn := 16, ip := load64 m (u.c.loc RIP) }, lga := g }) := by
  obtain ⟨g, hread⟩ := accessMem_paged (m := m) u.lga hrip
  rw [← hv] at hread
  exact ⟨g, fallbackFinish_of_read r hrbp (ne_zero_of_paged hrip) hread hnew⟩

/-- The frame of a PLT entry, in the cursor. -/
theorem pltFrame_cursorAt {c : Cursor} (h : CursorAt m uc callee c) (hplt : PltCall m uc callee caller) :
    CursorAt m uc caller { pltFrame c with ip := caller RIP } := by
  -- `RIP` is on top of the stack, and the other registers are where they were
  have hrip : (pltFrame c).loc RIP = callee RSP := by
    rw [← h.cfa]
    exact Function.update_self RIP c.cfa c.loc
  have hloc : ∀ i, i ≠ RIP → (pltFrame c).loc i = c.loc i := by
    intro i hi
    exact Function.update_of_ne hi _ _
  constructor
  case context => exact h.context
  case cfa =>
    show c.cfa + 8 = caller RSP
    rw [h.cfa, hplt.stack]
  case ip => rfl
  case args => exact h.args
  case stash => exact h.stash
  case holds =>
    intro i hi hsave
    show load64 m ((pltFrame c).loc i) = caller i
    by_cases hip : i = RIP
    · rw [hip, hrip, hplt.ret]
    · rw [hloc i hip, h.holds i hi hsave, hplt.same i hi hip hsave]
  case paged =>
    intro i hi
    show pageStart ((pltFrame c).loc i) ≠ 0
    by_cases hip : i = RIP
    · rw [hip, hrip]
      exact hplt.paged
    · rw [hloc i hip]
      exact h.paged i hi
  case place =>
    intro i hi
    show (pltFrame c).loc i = _ ∨ OffContext uc ((pltFrame c).loc i)
    by_cases hip : i = RIP
    · rw [hip, hrip]
      exact Or.inr hplt.place
    · rw [hloc i hip]
      exact h.place i hi

/-- **A step out of a PLT entry.** -/
theorem unwStep_plt (fuel : ℕ) (h : CursorAt m uc callee s.c)
    (hinfo : NoInfo k m s.c.usePrevInstr (callee RIP)) (hplt : PltCall m uc callee caller) :
    ∃ t, unwStep k msyncValidate m fuel s = (.ok 1, t) ∧ CursorAt m uc caller t.c ∧
      t.c.usePrevInstr = s.c.usePrevInstr ∧ t.c.piValid = s.c.piValid := by
  obtain ⟨t, hv, ht, hprev, hstep⟩ := unwStep_noInfo msyncValidate fuel h hinfo
  obtain ⟨g, hframe⟩ := fallbackFrame_of_no_signal (m := m) hv (by rw [ht.ip]; exact hplt.signal)
  rw [ht.ip, if_pos hplt.code] at hframe
  have hquiet : CursorAt m uc callee (noSignal t.c) :=
    ⟨ht.context, ht.cfa, ht.ip, ht.holds, ht.paged, ht.place, ht.args, ht.stash⟩
  have hcaller := pltFrame_cursorAt hquiet hplt
  have hrip : load64 m ((pltFrame (noSignal t.c)).loc RIP) = caller RIP :=
    hcaller.holds RIP (by decide) (by decide)
  have hmoves : ¬(load64 m ((pltFrame (noSignal t.c)).loc RIP) = callee RIP ∧
      (pltFrame (noSignal t.c)).cfa = callee RSP) := by
    rintro ⟨-, hcfa⟩
    rw [show (pltFrame (noSignal t.c)).cfa = callee RSP + 8 from congrArg (· + 8) ht.cfa] at hcfa
    exact absurd (add_eq_left.mp hcfa) (by decide)
  obtain ⟨g', hfinish⟩ := fallbackFinish_paged
    (u := { t with c := pltFrame (noSignal t.c), lga := g }) (.error .enoinfo) hv
    (ne_zero_of_paged (hcaller.paged RBP (by decide))) (hcaller.paged RIP (by decide)) hmoves
  refine ⟨_, (hstep _ _ hframe).trans hfinish, ?_, hprev⟩
  simp only [hrip]
  exact ⟨hcaller.context, hcaller.cfa, hcaller.ip, hcaller.holds, hcaller.paged, hcaller.place,
    hcaller.args, hcaller.stash⟩

/-- The registers are taken from the signal frame. -/
theorem unwHandleSignalFrame_sigframe (hformat : s.c.sigcontextFormat = .freebsdSigframe)
    (hv : s.c.validate = true) (hpage : pageStart (s.c.cfa + sigfUc + ucOffset RSP) ≠ 0) :
    ∃ g, unwHandleSignalFrame msyncValidate m s =
      (.ok 0, { s with
        c := { s.c with
          sigcontextAddr := s.c.cfa
          cfa := load64 m (s.c.cfa + sigfUc + ucOffset RSP)
          loc := fun reg => s.c.cfa + sigfUc + ucOffset reg }, lga := g }) := by
  obtain ⟨g, hsp⟩ := read_dwarfGet_eq (m := m)
    (s := { s with c := { s.c with sigcontextAddr := s.c.cfa } }) (ne_zero_of_paged hpage) hv
  rw [if_pos (readable_of_paged hpage)] at hsp
  refine ⟨g, ?_⟩
  unfold unwHandleSignalFrame
  rw [Act.get_bind, hformat]
  dsimp only
  rw [setCursor_bind, Act.bind_of_ok hsp, setCursor_bind]
  rfl

/-- The cursor of the interrupted frame. -/
def interruptedCursor (sp : Word) (m : Mem) (c : Cursor) : Cursor :=
  { c with
    sigcontextFormat := .freebsdSigframe
    sigcontextAddr := sp
    cfa := load64 m (sp + sigfUc + ucOffset RSP)
    loc := fun reg => sp + sigfUc + ucOffset reg }

theorem interruptedCursor_cursorAt {c : Cursor} (h : CursorAt m uc callee c)
    (hsig : Interrupted m uc callee caller) :
    CursorAt m uc caller { interruptedCursor (callee RSP) m c with ip := caller RIP } where
  context := h.context
  cfa := hsig.saved RSP (by decide)
  ip := rfl
  holds i _ hsave := hsig.saved i hsave
  paged i _ := hsig.paged i
  place i hi := Or.inr (hsig.place i hi)
  args := h.args
  stash := h.stash

/-- The fallback takes the registers from the signal frame. -/
theorem fallbackFrame_interrupted {t : St} (hv : t.c.validate = true)
    (hcode : signalFormat m t.c.ip = .freebsdSigframe)
    (hpage : pageStart (t.c.cfa + sigfUc + ucOffset RSP) ≠ 0) :
    ∃ g, fallbackFrame msyncValidate m t =
      (.ok (some (.ok 0)), { t with c := interruptedCursor t.c.cfa m t.c, lga := g }) := by
  obtain ⟨g, hformat⟩ := unwIsSignalFrame_eq (m := m) hv
  rw [hcode] at hformat
  obtain ⟨g', hhandle⟩ := unwHandleSignalFrame_sigframe (m := m)
    (s := { t with c := { t.c with sigcontextFormat := .freebsdSigframe }, lga := g }) rfl hv hpage
  refine ⟨g', ?_⟩
  unfold fallbackFrame
  rw [Act.bind_of_ok hformat, if_pos (by decide)]
  exact Act.bind_of_ok (Act.attempt_of_ok hhandle)

/-- **A step out of a signal trampoline** leads to the interrupted frame. -/
theorem unwStep_interrupted (fuel : ℕ) (h : CursorAt m uc callee s.c)
    (hinfo : NoInfo k m s.c.usePrevInstr (callee RIP)) (hsig : Interrupted m uc callee caller) :
    ∃ t, unwStep k msyncValidate m fuel s = (.ok 1, t) ∧ CursorAt m uc caller t.c ∧
      t.c.usePrevInstr = s.c.usePrevInstr ∧ t.c.piValid = s.c.piValid := by
  obtain ⟨t, hv, ht, hprev, hstep⟩ := unwStep_noInfo msyncValidate fuel h hinfo
  have hpage : pageStart (t.c.cfa + sigfUc + ucOffset RSP) ≠ 0 := by
    rw [ht.cfa]
    exact hsig.paged RSP
  obtain ⟨g, hframe⟩ := fallbackFrame_interrupted hv (by rw [ht.ip]; exact hsig.code) hpage
  rw [ht.cfa] at hframe
  have hcaller := interruptedCursor_cursorAt ht hsig
  have hrip : load64 m ((interruptedCursor (callee RSP) m t.c).loc RIP) = caller RIP :=
    hsig.saved RIP (by decide)
  have hmoves : ¬(load64 m ((interruptedCursor (callee RSP) m t.c).loc RIP) = callee RIP ∧
      (interruptedCursor (callee RSP) m t.c).cfa = callee RSP) := by
    rw [hrip, show (interruptedCursor (callee RSP) m t.c).cfa = caller RSP from hcaller.cfa]
    exact hsig.moves
  obtain ⟨g', hfinish⟩ := fallbackFinish_paged
    (u := { t with c := interruptedCursor (callee RSP) m t.c, lga := g }) (.ok 0) hv
    (ne_zero_of_paged (hsig.paged RBP)) (hsig.paged RIP) hmoves
  refine ⟨_, (hstep _ _ hframe).trans hfinish, ?_, hprev⟩
  simp only [hrip]
  exact ⟨hcaller.context, hcaller.cfa, hcaller.ip, hcaller.holds, hcaller.paged, hcaller.place,
    hcaller.args, hcaller.stash⟩

/-- **The outermost frame** is not left. -/
theorem unwStep_outermost (fuel : ℕ) (h : CursorAt m uc callee s.c)
    (hinfo : NoInfo k m s.c.usePrevInstr (callee RIP)) (hlast : Outermost m callee) :
    (unwStep k msyncValidate m fuel s).1 = .ok 0 := by
  obtain ⟨t, hv, ht, -, hstep⟩ := unwStep_noInfo msyncValidate fuel h hinfo
  have hloc : t.c.loc RBP ≠ 0 := ne_zero_of_paged (ht.paged RBP (by decide))
  obtain ⟨g, hframe⟩ := fallbackFrame_of_no_signal (m := m) hv (by rw [ht.ip]; exact hlast.signal)
  rw [ht.ip, hlast.code, if_neg Bool.false_ne_true, if_neg hloc] at hframe
  -- the frame pointer that is read is null
  obtain ⟨g', hread⟩ := read_dwarfGet_eq (m := m) (s := { t with c := noSignal t.c, lga := g })
    hloc hv
  rw [if_pos (readable_of_paged (ht.paged RBP (by decide))), ht.holds RBP (by decide) (by decide),
    hlast.rbp] at hread
  have hchain : frameChain msyncValidate m { t with c := noSignal t.c, lga := g } =
      (.ok (.ok 0), { t with c := { noSignal t.c with loc := guessedLocs 0 0 }, lga := g' }) := by
    unfold frameChain
    rw [Act.get_bind]
    refine (Act.bind_of_ok hread).trans ?_
    rw [if_pos rfl, setCursor_bind]
    rfl
  rw [Act.bind_of_ok hchain] at hframe
  rw [hstep _ _ hframe]
  rfl

end Fallback

end LibunwindKern
