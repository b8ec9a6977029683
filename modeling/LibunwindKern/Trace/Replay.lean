import LibunwindKern.Dwarf.RegLoc
import LibunwindKern.Trace.Backtrace
import LibunwindKern.X86.FallbackFrame

/-!
# Replaying a frame

For a standard frame and for a guessed one, `tdep_trace` computes the registers of the caller from
the stored summary, instead of asking `unw_step` again. `ReplaysTo` says what comes out, and
`nextFrame_standard_iff` and `nextFrame_guessed_iff` that this is what the `switch` does.

A guessed frame is summarised by the frame-chain case of `unw_step`. The case reads the caller's
`RBP` at `RBP` and the return address 8 above it. The summary puts the CFA 8 above `RBP`, and the
replay reads the return address below the CFA and `RBP` at the CFA: the two words are read in the
opposite order. `guessed_replay_iff` says when this makes no difference.
-/

namespace LibunwindKern

open CProg ByteMem Unw Fast

/-! ### The registers of the caller -/

/-- `ACCESS_MEM_FAST` can read the word at this address, with the validator that is installed. -/
def FastReads (validate : Bool) (addr : Word) : Prop := validate = true → pageStart addr ≠ 0

/-- The registers of the caller, for the summary of a frame that is standard. -/
structure ReplaysTo (m : Mem) (validate : Bool) (f : FrameInfo) (r r' : TraceRegs) : Prop where
  cfa : r'.cfa = (if f.cfaRegRsp then r.rsp else r.rbp) + f.cfaRegOffset.signExtend 64
  rsp : r'.rsp = r'.cfa
  ret : FastReads validate (r'.cfa - 8)
  rip : load64 m (r'.cfa - 8) = r'.rip
  saved : f.rbpCfaOffset ≠ -1 → FastReads validate (r'.cfa + f.rbpCfaOffset.signExtend 64) ∧
    load64 m (r'.cfa + f.rbpCfaOffset.signExtend 64) = r'.rbp
  unsaved : f.rbpCfaOffset = -1 → r.rbp = r'.rbp

section

variable {m : Mem} {x y : Tracer} {f : FrameInfo} {r r' : TraceRegs}

/-- What a read of the tracer leaves as it was. -/
def traced (x : Tracer) : Mem × Bool := (x.session.mem, x.session.st.c.validate)

theorem accessMemFast_traced (v : Validator) (addr : Word) :
    Act.Keeps traced (accessMemFast v addr) := by
  intro x
  -- the reading half of the cursor's state is the page cache
  have hread : Act.Keeps (fun s : St => s.c) (Act.get >>= fun s : St =>
      if s.c.validate then Unw.read fun c => dwarfGet v x.session.mem c addr
      else pure (load64 x.session.mem addr)) := by
    refine Act.Keeps.bind Act.Keeps.get fun s => ?_
    split
    · exact read_keeps (fun _ _ => rfl) _
    · exact Act.Keeps.pure _
  exact Prod.ext rfl (congrArg Cursor.validate (hread x.session.st))

theorem accessMemFast_ok_iff {addr w : Word} :
    (accessMemFast msyncValidate addr x).1 = .ok w ↔
      FastReads x.session.st.c.validate addr ∧ load64 x.session.mem addr = w := by
  have hrun : (accessMemFast msyncValidate addr x).1 =
      ((if x.session.st.c.validate then
          Unw.read fun c => dwarfGet msyncValidate x.session.mem c addr
        else pure (load64 x.session.mem addr) : Unw Word) x.session.st).1 := rfl
  rw [hrun]
  unfold FastReads
  cases hv : x.session.st.c.validate with
  | false =>
    -- the word is read directly
    rw [if_neg Bool.false_ne_true, Act.pure_apply, Res.ok.injEq]
    exact (and_iff_right nofun).symm
  | true =>
    rw [if_pos rfl, read_eq]
    show (dwarfGet msyncValidate x.session.mem x.session.st.c addr x.session.st.lga).1 = .ok w ↔ _
    rw [dwarfGet_msync]
    unfold CanGet
    rw [hv]
    constructor
    · rintro ⟨⟨-, hpage⟩, hw⟩
      exact ⟨hpage, hw⟩
    · rintro ⟨hpage, hw⟩
      -- the null page is the first one
      refine ⟨⟨?_, hpage⟩, hw⟩
      rintro rfl
      exact hpage rfl (by decide)

/-- **The caller of a standard frame**, for a CFA that is known. -/
theorem standardRegs_iff {cfa : Word}
    (hcfa : cfa = (if f.cfaRegRsp then r.rsp else r.rbp) + f.cfaRegOffset.signExtend 64) :
    (standardRegs msyncValidate f r.rbp cfa x).1 = .ok r' ↔
      ReplaysTo x.session.mem x.session.st.c.validate f r r' := by
  unfold standardRegs savedRbp
  constructor
  · intro h
    obtain ⟨rip, y, hrip, hrun⟩ := Act.bind_eq_ok (Act.run_of_outcome h)
    obtain ⟨hret, hword⟩ := accessMemFast_ok_iff.1 (congrArg Prod.fst hrip)
    obtain ⟨rbp, z, hrbp, hrun⟩ := Act.bind_eq_ok hrun
    obtain rfl : _ = r' := Res.ok.inj (congrArg Prod.fst hrun)
    by_cases hoff : f.rbpCfaOffset ≠ -1
    · rw [if_pos hoff] at hrbp
      obtain ⟨hsaved, hsavedWord⟩ := accessMemFast_ok_iff.1 (congrArg Prod.fst hrbp)
      -- the second read finds the memory and the flag of the first one
      obtain ⟨hmem, hval⟩ := Prod.mk.inj ((accessMemFast_traced _ _).run hrip)
      rw [hval] at hsaved
      rw [hmem] at hsavedWord
      exact ⟨hcfa, rfl, hret, hword, fun _ => ⟨hsaved, hsavedWord⟩, fun h => absurd h hoff⟩
    · rw [if_neg hoff] at hrbp
      exact ⟨hcfa, rfl, hret, hword, fun h => absurd h hoff,
        fun _ => Res.ok.inj (congrArg Prod.fst hrbp)⟩
  · intro h
    have hcfa' : r'.cfa = cfa := h.cfa.trans hcfa.symm
    obtain ⟨rip, rsp, rbp, cfa'⟩ := r'
    obtain ⟨-, hrsp, hret, hrip, hsaved, hunsaved⟩ := h
    simp only at hcfa' hrsp hret hrip hsaved hunsaved
    subst hrsp hcfa'
    have hfirst := Act.run_of_outcome (accessMemFast_ok_iff.2 ⟨hret, hrip⟩)
    obtain ⟨hmem, hval⟩ := Prod.mk.inj ((accessMemFast_traced _ _).run hfirst)
    rw [Act.bind_of_ok hfirst]
    by_cases hoff : f.rbpCfaOffset ≠ -1
    · rw [if_pos hoff]
      rw [← hmem, ← hval] at hsaved
      rw [Act.bind_of_ok (Act.run_of_outcome (accessMemFast_ok_iff.2 (hsaved hoff)))]
      rfl
    · rw [if_neg hoff, hunsaved (not_not.1 hoff)]
      rfl

/-- The cursor is changed in a field that no read looks at. -/
theorem standardNext_iff : (standardNext msyncValidate f r x).1 = .ok r' ↔
    ReplaysTo x.session.mem x.session.st.c.validate f r r' :=
  standardRegs_iff (x := { x with session := { x.session with
    st := { x.session.st with c := { x.session.st.c with usePrevInstr := true } } } }) rfl

theorem nextFrame_standard_iff (hf : f.frameType = .standard) :
    (nextFrame msyncValidate f r x).1 = .ok r' ↔
      ReplaysTo x.session.mem x.session.st.c.validate f r r' := by
  unfold nextFrame
  rw [hf]
  exact standardNext_iff

/-- A guessed frame is replayed with validation on. -/
theorem nextFrame_guessed_iff (hf : f.frameType = .guessed) :
    (nextFrame msyncValidate f r x).1 = .ok r' ↔ ReplaysTo x.session.mem true f r r' := by
  unfold nextFrame
  rw [hf]
  exact standardNext_iff
    (x := { x with session := { x.session with
      st := { x.session.st with c := { x.session.st.c with validate := true } } } })

end

/-! ### A guessed frame -/

section Guessed

variable {k : Kernel} {m : Mem} {fuel n : ℕ} {s t w : St} {rbp : Word}

/-- **A step along the frame chain**: the frame that it leaves in the cursor. -/
theorem unwStep_of_chain (hinfo : dwarfStep k msyncValidate m fuel (arm s) = (.err .enoinfo, t))
    (hchain : ChainFrame m s.c rbp) (hpos : 0 < n)
    (hstep : unwStep k msyncValidate m fuel s = (.ok n, w)) :
    readable rbp = true ∧ readable (rbp + 8) = true ∧
      w.c.frameInfo = guessedFrame t.c.frameInfo ∧ w.c.loc = guessedLocs rbp (rbp + 8) ∧
      w.c.ip = load64 m (rbp + 8) ∧ w.c.cfa = s.c.cfa + (load64 m rbp - rbp) := by
  obtain ⟨hip, hcfa, hloc⟩ := frame_of_enoinfo hinfo
  rw [unwStep_of_enoinfo hinfo] at hstep
  obtain ⟨r, u, hframe, hfinish⟩ := stepFallback_pos hpos hstep
  have hchain' : ChainFrame m (validated (disarm s t)).c rbp :=
    (chainFrame_congr (c := (validated t).c) hip hloc).2 hchain
  obtain ⟨r', u', hframe', hu⟩ := fallbackFrame_of_chain (s := validated (disarm s t)) rfl hchain'
  cases hframe.symm.trans hframe'
  have hret : ∀ n, r = .ok n → n = 0 ∨ u.c.loc RIP ≠ 0 := by
    rintro n rfl
    exact fallbackFrame_ret hframe
  obtain ⟨hrbp, -, ip, g, hread, -, rfl⟩ := fallbackFinish_pos hpos hret hfinish
  -- a guess that is rejected would have left no location
  have hacc : ¬Rejected (noSignal (validated (disarm s t)).c) rbp := by
    intro hrej
    rw [hu, chainCursor_of_rejected hrej] at hrbp
    exact hrbp rfl
  have hlocs : u.c.loc = guessedLocs rbp (rbp + 8) := by rw [hu, chainCursor_of_accepted hacc]
  have hval : u.c.validate = true := by rw [hu, chainCursor_validate]; rfl
  obtain ⟨g', hg'⟩ := accessMem_msync (m := m) (rbp + 8) u.lga
  rw [hval, show u.c.loc RIP = rbp + 8 by rw [hlocs]; rfl, hg'] at hread
  cases hgood : readable (rbp + 8) with
  | false =>
    rw [hgood] at hread
    cases congrArg Prod.fst hread
  | true =>
    rw [hgood, if_pos rfl] at hread
    have hgood' : readable rbp = true := by
      cases hbad : readable rbp with
      | false => exact absurd (Or.inl hbad) hacc
      | true => rfl
    refine ⟨hgood', rfl, ?_, hlocs, (Res.ok.inj (congrArg Prod.fst hread)).symm, ?_⟩
    · show u.c.frameInfo = _
      rw [hu]
      rfl
    · show u.c.cfa = _
      rw [hu, chainCursor_cfa, ← hcfa]
      rfl

/-- **When a guessed frame is replayed as it was stepped over.** For every step along the frame
chain that succeeds: `tdep_trace` computes the return address, the `RBP` and the CFA that the step
has left in the cursor, if and only if the word at `RBP` is the one above it, and is the one that
moves the CFA to 8 above `RBP`. -/
theorem guessed_replay_iff (k : Kernel) (m : Mem) (fuel n : ℕ) (s t w : St) (rbp : Word)
    (hinfo : dwarfStep k msyncValidate m fuel (arm s) = (.err .enoinfo, t))
    (hchain : ChainFrame m s.c rbp) (hpos : 0 < n)
    (hstep : unwStep k msyncValidate m fuel s = (.ok n, w)) :
    w.c.frameInfo.frameType = .guessed ∧ ∀ (x : Tracer) (r : TraceRegs), x.session.mem = m →
      r.rbp = rbp →
      ((nextFrame msyncValidate w.c.frameInfo r x).1 =
          .ok ⟨load64 m (w.c.loc RIP), w.c.cfa, load64 m (w.c.loc RBP), w.c.cfa⟩ ↔
        load64 m rbp = load64 m (rbp + 8) ∧ load64 m rbp - rbp = rbp + 8 - s.c.cfa) := by
  obtain ⟨hgood, hgood', hinfo', hlocs, -, hcfa⟩ := unwStep_of_chain hinfo hchain hpos hstep
  have htype : w.c.frameInfo.frameType = .guessed := by rw [hinfo']; rfl
  refine ⟨htype, ?_⟩
  rintro x r rfl rfl
  have hrip : w.c.loc RIP = r.rbp + 8 := by rw [hlocs]; rfl
  have hrbp : w.c.loc RBP = r.rbp := by rw [hlocs]; rfl
  have hzero : (0 : BitVec 15).signExtend 64 = 0 := by decide
  have height : (8 : BitVec 30).signExtend 64 = 8 := by decide
  rw [nextFrame_guessed_iff htype, hinfo', hrip, hrbp, hcfa]
  -- the cached frame puts the CFA at `RBP + 8`
  constructor
  · rintro ⟨hnew, -, -, hword, hsaved, -⟩
    have hnew' : s.c.cfa + (load64 x.session.mem r.rbp - r.rbp) = r.rbp + 8 := by
      rw [← height]
      exact hnew
    simp only [hnew', add_sub_cancel_right] at hword
    exact ⟨hword, eq_sub_of_add_eq' hnew'⟩
  · rintro ⟨hsame, hdelta⟩
    have hnew : s.c.cfa + (load64 x.session.mem r.rbp - r.rbp) = r.rbp + 8 := by
      rw [hdelta, add_sub_cancel]
    constructor
    · show _ = r.rbp + (8 : BitVec 30).signExtend 64
      rw [height]
      exact hnew
    · rfl
    · simp only [hnew, add_sub_cancel_right]
      exact fun _ => by simpa [readable] using hgood
    · simp only [hnew, add_sub_cancel_right]
      exact hsame
    · -- the saved `RBP` is read at the CFA
      intro _
      show FastReads true (s.c.cfa + _ + (0 : BitVec 15).signExtend 64) ∧ _
      simp only [hnew, guessedFrame, hzero, add_zero]
      exact ⟨fun _ => by simpa [readable] using hgood', hsame.symm⟩
    · intro hoff
      exact absurd hoff (by decide : (0 : BitVec 15) ≠ -1)

end Guessed

/-- The frame at `0x20100`, with the same word in both slots. -/
def twinMem : Mem := store64 (chainMem 0x20208) 0x20108 0x20208

/-- The step over a frame with this memory. -/
def guessedStep (m : Mem) : St := (unwStep bareKernel msyncValidate m 0 bottomState).2

/-- The tracer at that frame, and its registers. -/
def atBottom (m : Mem) : Tracer := ⟨⟨bottomState, m⟩, bootTrace⟩

def bottomRegs : TraceRegs := ⟨0xffff, 0x20000, 0x20100, 0x20000⟩

theorem guessed_replay_twin :
    (nextFrame msyncValidate (guessedStep twinMem).c.frameInfo bottomRegs (atBottom twinMem)).1 =
      .ok ⟨load64 twinMem ((guessedStep twinMem).c.loc RIP), (guessedStep twinMem).c.cfa,
        load64 twinMem ((guessedStep twinMem).c.loc RBP), (guessedStep twinMem).c.cfa⟩ := by
  have hchain : ChainFrame twinMem bottomState.c 0x20100 :=
    ⟨by decide +kernel, by decide +kernel, by decide, by decide, by decide +kernel, by decide⟩
  have hguess := guessed_replay_iff bareKernel twinMem 0 1 bottomState
    (dwarfStep bareKernel msyncValidate twinMem 0 (arm bottomState)).2 (guessedStep twinMem) 0x20100
    (Act.run_of_outcome (by decide +kernel)) hchain Nat.one_pos
    (Act.run_of_outcome (by decide +kernel))
  exact (hguess.2 (atBottom twinMem) bottomRegs rfl rfl).2 ⟨by decide +kernel, by decide +kernel⟩

/-- A caller with the frame pointer `0x20200` and the return address `0x11000`: the replay takes
one for the other. -/
theorem guessed_replay_swaps :
    (unwStep bareKernel msyncValidate (chainMem 0x20200) 0 bottomState).1 = .ok 1 ∧
      (guessedStep (chainMem 0x20200)).c.frameInfo.frameType = .guessed ∧
      load64 (chainMem 0x20200) ((guessedStep (chainMem 0x20200)).c.loc RIP) = 0x11000 ∧
      load64 (chainMem 0x20200) ((guessedStep (chainMem 0x20200)).c.loc RBP) = 0x20200 ∧
      (guessedStep (chainMem 0x20200)).c.cfa = 0x20100 ∧
      (nextFrame msyncValidate (guessedStep (chainMem 0x20200)).c.frameInfo bottomRegs
        (atBottom (chainMem 0x20200))).1 = .ok ⟨0x20200, 0x20108, 0x11000, 0x20108⟩ :=
  ⟨by decide +kernel, by decide +kernel, by decide +kernel, by decide +kernel, by decide +kernel,
    by decide +kernel⟩

end LibunwindKern
