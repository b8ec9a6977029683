import LibunwindKern.X86.FallbackReads
import LibunwindKern.X86.LocalResume

/-!
# The fields that `unw_init_local` does not set

The cursor lives on the stack of the caller and holds anything before `unw_init_local`. Four of its
fields are not written: the procedure info, the frame info, the arguments of a handler, and the mask
that says which arguments there are.

A lookup clears the procedure info before it is used, and the frame info is written only, as long as
frames are not stashed. The arguments are read where the mask has them. So a step sees nothing of
the fields except for the arguments in the mask.

* `putPrior` writes the four fields of a state, as far as they have no meaning there, and `putUnset`
  writes three of them.
* `unwStep_unset` says that a step does not see what `putUnset` writes, and `unwStep_prior` that it
  makes no difference to write the fourth.
-/

namespace LibunwindKern

open CProg ByteMem Unw

/-! ### The fields that are not set -/

/-- What the four fields held before. -/
structure Prior where
  ehArgs : Fin 2 → Word
  ehValidMask : BitVec 32
  frameInfo : FrameInfo
  pi : ProcInfo

/-- The cursor with the prior contents of the arguments that there are not, and of the bits of the
mask that stand for no argument. -/
def Cursor.withArgs (c : Cursor) (g : Prior) : Cursor :=
  { c with
    ehArgs := fun i => if c.ehValidMask.getLsbD i then c.ehArgs i else g.ehArgs i
    ehValidMask := (c.ehValidMask &&& 3) ||| (g.ehValidMask &&& ~~~3) }

/-- The cursor with these arguments, and with the prior frame info unless frames are stashed. -/
def Cursor.withPrior (c : Cursor) (g : Prior) : Cursor :=
  { c.withArgs g with frameInfo := if c.stashFrames then c.frameInfo else g.frameInfo }

/-- Put the arguments into the state. -/
def putArgs (g : Prior) (s : St) : St := { s with c := s.c.withArgs g }

/-- Put these prior contents into the state, but for the procedure info. -/
def putUnset (g : Prior) (s : St) : St := { s with c := s.c.withPrior g }

/-- Put these prior contents into the state. -/
def putPrior (g : Prior) (s : St) : St :=
  { s with c := { s.c.withPrior g with pi := if s.c.piValid then s.c.pi else g.pi } }

theorem getLsbD_three (i : ℕ) : (3 : BitVec 32).getLsbD i = decide (i < 2) := by
  have hbit := Nat.testBit_two_pow_sub_one 2 i
  by_cases hi : i < 2
  · have hlt : i < 32 := Nat.lt_of_lt_of_le hi (by decide)
    simpa [BitVec.getLsbD, hlt] using hbit
  · simpa [BitVec.getLsbD] using hbit

/-- The mask has the arguments that it had. -/
theorem getLsbD_mask (mask prior : BitVec 32) (i : Fin 2) :
    ((mask &&& 3) ||| (prior &&& ~~~3)).getLsbD i = mask.getLsbD i := by
  have hthree : (3 : BitVec 32).getLsbD i = true := by
    rw [getLsbD_three]
    exact decide_eq_true i.isLt
  rw [BitVec.getLsbD_or, BitVec.getLsbD_and, BitVec.getLsbD_and, BitVec.getLsbD_not, hthree]
  simp

/-- A mask without arguments is a prior mask. -/
theorem mask_eq_prior {mask : BitVec 32} (h : ∀ i : Fin 2, mask.getLsbD i = false) :
    ((0 : BitVec 32) &&& 3) ||| (mask &&& ~~~3) = mask := by
  apply BitVec.eq_of_getLsbD_eq
  intro i hi
  rw [BitVec.getLsbD_or, BitVec.getLsbD_and, BitVec.getLsbD_and, BitVec.getLsbD_not, getLsbD_three]
  by_cases hlow : i < 2
  · simp [hlow, h ⟨i, hlow⟩]
  · simp [hlow, hi]

theorem putUnset_lookupBlind : LookupBlind putUnset := fun _ _ _ => rfl

/-- The registers are read through the mask. -/
theorem tdepAccessReg_withPrior (v : Validator) (m : Mem) (c : Cursor) (g : Prior) (reg : ℕ) :
    tdepAccessReg v m (c.withPrior g) reg = tdepAccessReg v m c reg := by
  unfold tdepAccessReg
  by_cases hcfa : reg = 17 ∨ reg = 7
  · rw [if_pos hcfa, if_pos hcfa]
    rfl
  · rw [if_neg hcfa, if_neg hcfa]
    by_cases harg : reg < 2
    · have hmask : (c.withPrior g).ehValidMask.getLsbD reg = c.ehValidMask.getLsbD reg :=
        getLsbD_mask c.ehValidMask g.ehValidMask ⟨reg, harg⟩
      rw [dif_pos harg, dif_pos harg, hmask]
      by_cases hbit : c.ehValidMask.getLsbD reg = true
      · have hval : (c.withPrior g).ehArgs ⟨reg, harg⟩ = c.ehArgs ⟨reg, harg⟩ := if_pos hbit
        rw [if_pos hbit, if_pos hbit, hval]
      · rw [if_neg hbit, if_neg hbit]
        rfl
    · rw [dif_neg harg, dif_neg harg]
      rfl

theorem putUnset_frameBlind : FrameBlind putUnset where
  commutes _ _ _ := rfl
  getReg g s v m reg := tdepAccessReg_withPrior v m s.c g reg
  stashFrames _ _ := rfl

theorem putPrior_frameBlind : FrameBlind putPrior where
  commutes _ _ _ := rfl
  getReg g s v m reg := tdepAccessReg_withPrior v m s.c g reg
  stashFrames _ _ := rfl

/-! ### Steps -/

section Steps

variable (k : Kernel) (v : Validator) (m : Mem) (fuel : ℕ)

/-- The call does not see what the fields held before. -/
abbrev IgnoresUnset {α : Type} (x : Unw α) : Prop := Act.Ignores putUnset x

theorem putUnset_of_stash {s : St} (h : s.c.stashFrames = true) (g : Prior) :
    putUnset g s = putArgs g s := by
  have hprior : s.c.withPrior g = s.c.withArgs g := by
    unfold Cursor.withPrior
    rw [if_pos h]
    rfl
  unfold putUnset putArgs
  rw [hprior]

/-- The summary of a frame does not see the arguments. -/
theorem tdepStashFrame_args (rs : RegState) : Act.Ignores putArgs (tdepStashFrame rs) := by
  refine Act.Ignores.get_bind (fun _ _ => rfl) fun s => ?_
  split
  · split
    · exact Act.Ignores.modify fun _ g => ⟨g, rfl⟩
    · split
      · exact Act.Ignores.lift _
      · exact Act.Ignores.pure _
  · exact Act.Ignores.lift _

theorem tdepStashFrame_keeps_stash (rs : RegState) :
    Act.Keeps (fun s : St => s.c.stashFrames) (tdepStashFrame rs) := by
  refine Act.Keeps.bind Act.Keeps.get fun s => ?_
  split
  · split
    · exact Act.Keeps.modify fun _ => rfl
    · split
      · exact Act.Keeps.lift _
      · exact Act.Keeps.pure _
  · exact Act.Keeps.lift _

/-- The end of a row. The frame info is seen if frames are stashed, and then it is set. -/
theorem finishFrame_unset (rs : RegState) (prevIp prevCfa : Word) :
    IgnoresUnset (finishFrame rs prevIp prevCfa) := by
  intro s g
  unfold finishFrame
  rw [Act.get_bind, Act.get_bind]
  have hstash : (putUnset g s).c.stashFrames = s.c.stashFrames := rfl
  by_cases hsame : s.c.ip = prevIp ∧ s.c.cfa = prevCfa
  · have hsame' : (putUnset g s).c.ip = prevIp ∧ (putUnset g s).c.cfa = prevCfa := hsame
    rw [if_pos hsame, if_pos hsame']
    exact Act.Ignores.fail _ s g
  · have hsame' : ¬((putUnset g s).c.ip = prevIp ∧ (putUnset g s).c.cfa = prevCfa) := hsame
    rw [if_neg hsame, if_neg hsame', hstash]
    by_cases h : s.c.stashFrames = true
    · rw [if_pos h, putUnset_of_stash h]
      obtain ⟨hout, g', hstate⟩ := tdepStashFrame_args rs s g
      have hkept : (tdepStashFrame rs s).2.c.stashFrames = true :=
        (tdepStashFrame_keeps_stash rs s).trans h
      exact ⟨hout, g', hstate.trans (putUnset_of_stash hkept g').symm⟩
    · rw [if_neg h]
      exact Act.Ignores.pure _ s g

theorem createStateRecordFor_unset (ip : Word) :
    IgnoresUnset (createStateRecordFor m fuel ip) := by
  have hparse : IgnoresUnset (parseFde m fuel ip) := by
    refine Act.Ignores.get_bind (fun _ _ => rfl) fun s => ?_
    split
    · exact Act.Ignores.bind (Act.Ignores.modify fun _ g => ⟨g, rfl⟩) fun _ s g => ⟨rfl, g, rfl⟩
    · exact Act.Ignores.lift _
  refine Act.Ignores.get_bind (fun _ _ => rfl) fun s => ?_
  split
  · split
    · exact hparse
    · exact hparse
    · exact Act.Ignores.fail _
  · exact Act.Ignores.lift _

theorem putUnwindInfo_unset : IgnoresUnset putUnwindInfo := by
  refine Act.Ignores.get_bind (fun _ _ => rfl) fun s => ?_
  split
  · exact Act.Ignores.modify fun _ g => ⟨g, rfl⟩
  · exact Act.Ignores.pure _

/-- The step with unwind info. -/
theorem dwarfStep_unset : IgnoresUnset (dwarfStep k v m fuel) := by
  intro s g
  rw [dwarfStep_eq_fetch, dwarfStep_eq_fetch]
  have hafter : IgnoresUnset (afterFetch v m fuel) := by
    refine Act.Ignores.get_bind (fun _ _ => rfl) fun s => ?_
    refine (createStateRecordFor_unset m fuel _).bind fun sr => ?_
    refine Act.Ignores.bind ?_ fun _ => putUnwindInfo_unset.bind fun _ => ?_
    · exact applyRegState_blind putUnset_frameBlind v m fuel _ (finishFrame_unset _)
    · exact Act.Ignores.bind (Act.Ignores.modify fun _ g => ⟨g, rfl⟩) fun _ => Act.Ignores.pure _
  have hfetch := fetchProcInfo_ignores (k := k) (m := m) putUnset_lookupBlind s.c.ip true
  exact (hfetch.bind fun _ => hafter) s g

/-! #### The fallback -/

/-- A write to the frame info. -/
theorem setFrameInfo_unset (F : FrameInfo → FrameInfo) :
    IgnoresUnset (Unw.setCursor fun c => { c with frameInfo := F c.frameInfo }) := by
  refine Act.Ignores.modify fun s g => ⟨{ g with frameInfo := F g.frameInfo }, ?_⟩
  have hwrite : F (if s.c.stashFrames = true then s.c.frameInfo else g.frameInfo) =
      if s.c.stashFrames = true then F s.c.frameInfo else F g.frameInfo := apply_ite F _ _ _
  show ({ s with c := { s.c.withArgs g with
      frameInfo := F (if s.c.stashFrames = true then s.c.frameInfo else g.frameInfo) } } : St) =
    { s with c := { s.c.withArgs g with
      frameInfo := if s.c.stashFrames = true then F s.c.frameInfo else F g.frameInfo } }
  rw [hwrite]

/-- The frame of a PLT entry is the frame info, and the rest. -/
theorem pltFrame_unset : IgnoresUnset (Unw.setCursor pltFrame) := by
  have hinfo := setFrameInfo_unset fun info =>
    { info with cfaRegOffset := 8, cfaRegRsp := true, frameType := .standard }
  have hrest : IgnoresUnset (Unw.setCursor fun c =>
      { c with loc := Function.update c.loc RIP c.cfa, cfa := c.cfa + 8 }) :=
    Act.Ignores.modify fun _ g => ⟨g, rfl⟩
  exact hinfo.bind fun _ => hrest

theorem dwarfGet_unset (loc : Word) : IgnoresUnset (read fun c => dwarfGet v m c loc) :=
  putUnset_frameBlind.read fun _ _ => rfl

theorem unwHandleSignalFrame_unset : IgnoresUnset (unwHandleSignalFrame v m) := by
  refine Act.Ignores.get_bind (fun _ _ => rfl) fun s => ?_
  split
  · refine Act.Ignores.bind (Act.Ignores.modify fun _ g => ⟨g, rfl⟩) fun _ => ?_
    refine (dwarfGet_unset v m _).bind fun cfa => ?_
    exact Act.Ignores.bind (Act.Ignores.modify fun _ g => ⟨g, rfl⟩) fun _ => Act.Ignores.pure _
  · refine Act.Ignores.bind (Act.Ignores.modify fun _ g => ⟨g, rfl⟩) fun _ => ?_
    refine Act.Ignores.bind (Act.Ignores.modify fun _ g => ⟨g, rfl⟩) fun _ => ?_
    refine (dwarfGet_unset v m _).bind fun ip => ?_
    exact Act.Ignores.bind (Act.Ignores.modify fun _ g => ⟨g, rfl⟩) fun _ => Act.Ignores.pure _
  · exact Act.Ignores.fail _

theorem guessFrame_unset (rbp : Word) : IgnoresUnset (guessFrame v m rbp) := by
  have hreg : IgnoresUnset (read fun c => unwGetReg v m c 6) :=
    putUnset_frameBlind.read fun g s => by rw [putUnset_frameBlind.unwGetReg]
  refine Act.Ignores.get_bind (fun _ _ => rfl) fun s => ?_
  refine (dwarfGet_unset v m rbp).attempt.bind fun ret => ?_
  refine (setFrameInfo_unset guessedFrame).bind fun _ => ?_
  refine hreg.attempt.bind fun prevRbp => ?_
  cases prevRbp with
  | error e => exact Act.Ignores.lift _
  | ok prevRbp =>
    refine Act.Ignores.bind (Act.Ignores.modify fun _ g => ⟨g, rfl⟩) fun _ => ?_
    cases ret with
    | error e =>
      exact Act.Ignores.bind (Act.Ignores.modify fun _ g => ⟨g, rfl⟩) fun _ => Act.Ignores.pure _
    | ok _ =>
      exact Act.Ignores.bind (Act.Ignores.modify fun _ g => ⟨g, rfl⟩) fun _ => Act.Ignores.pure _

theorem frameChain_unset : IgnoresUnset (frameChain v m) := by
  refine Act.Ignores.get_bind (fun _ _ => rfl) fun s => (dwarfGet_unset v m _).bind fun rbp => ?_
  split
  · exact Act.Ignores.bind (Act.Ignores.modify fun _ g => ⟨g, rfl⟩) fun _ => Act.Ignores.pure _
  · exact guessFrame_unset v m rbp

theorem fallbackFrame_unset : IgnoresUnset (fallbackFrame v m) := by
  refine (unwIsSignalFrame_blind putUnset_frameBlind v m).bind fun format => ?_
  split
  · refine (unwHandleSignalFrame_unset v m).attempt.bind fun ret => ?_
    cases ret with
    | error e => exact Act.Ignores.pure _
    | ok n => exact Act.Ignores.pure _
  · refine (isPltEntry_blind putUnset_frameBlind v m).bind fun plt => ?_
    refine Act.Ignores.get_bind (fun _ _ => rfl) fun s => ?_
    split
    · exact pltFrame_unset.bind fun _ => Act.Ignores.pure _
    · split
      · exact Act.Ignores.bind (Act.Ignores.modify fun _ g => ⟨g, rfl⟩) fun _ => Act.Ignores.pure _
      · exact (frameChain_unset v m).bind fun ret => Act.Ignores.pure _

theorem fallbackFinish_unset (prevIp prevCfa : Word) (ret : Except UnwError ℕ) :
    IgnoresUnset (fallbackFinish v m prevIp prevCfa ret) := by
  have hreturn : IgnoresUnset (fallbackReturn v m ret) := by
    refine Act.Ignores.get_bind (fun _ _ => rfl) fun s => ?_
    split
    · refine (dwarfGet_unset v m _).bind fun ip => ?_
      exact Act.Ignores.bind (Act.Ignores.modify fun _ g => ⟨g, rfl⟩) fun _ => Act.Ignores.pure _
    · exact Act.Ignores.bind (Act.Ignores.modify fun _ g => ⟨g, rfl⟩) fun _ => Act.Ignores.pure _
  refine Act.Ignores.bind (Act.Ignores.modify fun _ g => ⟨g, rfl⟩) fun _ => ?_
  refine Act.Ignores.get_bind (fun _ _ => rfl) fun s => ?_
  split
  · exact Act.Ignores.pure _
  · refine hreturn.bind fun ret => Act.Ignores.get_bind (fun _ _ => rfl) fun s => ?_
    split
    · exact Act.Ignores.fail _
    · cases ret with
      | ok n => exact Act.Ignores.pure _
      | error e => exact Act.Ignores.fail _

theorem stepFallback_unset : IgnoresUnset (stepFallback v m) := by
  refine Act.Ignores.get_bind (fun _ _ => rfl) fun s => ?_
  refine Act.Ignores.bind (Act.Ignores.modify fun _ g => ⟨g, rfl⟩) fun _ => ?_
  refine (fallbackFrame_unset v m).bind fun ret => ?_
  cases ret with
  | none => exact Act.Ignores.pure _
  | some ret => exact fallbackFinish_unset v m _ _ ret

/-- **A step** does not see the fields. -/
theorem unwStep_unset : IgnoresUnset (unwStep k v m fuel) := by
  refine Act.Ignores.get_bind (fun _ _ => rfl) fun s => ?_
  refine Act.Ignores.bind (Act.Ignores.modify fun _ g => ⟨g, rfl⟩) fun _ => ?_
  refine (dwarfStep_unset k v m fuel).attempt.bind fun ret => ?_
  refine Act.Ignores.bind (Act.Ignores.modify fun _ g => ⟨g, rfl⟩) fun _ => ?_
  cases ret with
  | ok n =>
    refine Act.Ignores.get_bind (fun _ _ => rfl) fun t => ?_
    split
    · exact Act.Ignores.bind (Act.Ignores.modify fun _ g => ⟨g, rfl⟩) fun _ => Act.Ignores.pure _
    · exact Act.Ignores.pure _
  | error e =>
    show IgnoresUnset (if e = .enoinfo then stepFallback v m else Act.fail e)
    split
    · exact stepFallback_unset v m
    · exact Act.Ignores.fail _

/-! #### The procedure info -/

theorem putPrior_of_valid {s : St} (h : s.c.piValid = true) (g : Prior) :
    putPrior g s = putUnset g s := by
  unfold putPrior
  rw [if_pos h]
  rfl

/-- A lookup clears the procedure info, or it is valid. -/
theorem fetchProcInfo_prior (ip : Word) (need : Bool) (s : St) (g : Prior) :
    fetchProcInfo k m ip need (putPrior g s) = fetchProcInfo k m ip need (putUnset g s) := by
  cases hvalid : s.c.piValid with
  | true => rw [putPrior_of_valid hvalid]
  | false =>
    have hprior : need = true ∨ (putPrior g s).c.piValid = false := Or.inr hvalid
    have hunset : need = true ∨ (putUnset g s).c.piValid = false := Or.inr hvalid
    rw [fetchProcInfo_eq hprior, fetchProcInfo_eq hunset]
    rfl

theorem dwarfStep_prior (s : St) (g : Prior) :
    dwarfStep k v m fuel (putPrior g s) = dwarfStep k v m fuel (putUnset g s) := by
  rw [dwarfStep_eq_fetch, dwarfStep_eq_fetch]
  exact Act.bind_congr_left (fun _ => afterFetch v m fuel) (fetchProcInfo_prior k m s.c.ip true s g)

theorem unwStep_prior (s : St) (g : Prior) :
    unwStep k v m fuel (putPrior g s) = unwStep k v m fuel (putUnset g s) := by
  -- the step starts with a write to two other fields
  have hstep := dwarfStep_prior k v m fuel (arm s) g
  unfold unwStep
  rw [Act.get_bind, Act.get_bind, setCursor_bind, setCursor_bind]
  exact Act.bind_congr_left _ (Act.attempt_congr hstep)

/-- A call that does not see the other three fields, and makes nothing of the fourth. -/
theorem IgnoresUnset.prior {α : Type} {x : Unw α} (h : IgnoresUnset x)
    (hsame : ∀ s g, x (putPrior g s) = x (putUnset g s)) : Act.Ignores putPrior x := by
  intro s g
  obtain ⟨hout, g', hstate⟩ := h s g
  refine ⟨by rw [hsame, hout], { g' with pi := (x s).2.c.pi }, ?_⟩
  have hpi : (if (x s).2.c.piValid = true then (x s).2.c.pi else (x s).2.c.pi) = (x s).2.c.pi :=
    ite_self _
  rw [hsame, hstate]
  unfold putPrior
  rw [hpi]
  rfl

/-- **A step** sees nothing of what the fields held before. -/
theorem unwStep_ignores : Act.Ignores putPrior (unwStep k v m fuel) :=
  IgnoresUnset.prior (unwStep_unset k v m fuel) (unwStep_prior k v m fuel)

end Steps

end LibunwindKern
