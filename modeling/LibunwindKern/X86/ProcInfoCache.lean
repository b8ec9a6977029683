import LibunwindKern.X86.Cursor
import LibunwindKern.X86.UsePrevInstr

/-!
# The cached procedure info

`pi_valid` says that `c->dwarf.pi` is the procedure of the frame the cursor is at. It is to
be valid only while the range of the procedure contains the address that was looked up
(`PiCurrent`). `Reached` are the states that calls on a cursor lead to.

`fetch_proc_info` sets the flag, and `dwarf_step` clears it when it succeeds. Everything else
leaves it as it is:

* `unw_set_reg` moves the instruction pointer,
* `fetch_proc_info` zeroes the procedure info before it knows that it will find another, and
  the fallback of `unw_step` then moves on,
* an error of the dynamic list is returned after the flag was set, and a search of the files
  in vain is taken for a success,
* `use_prev_instr` is updated for the next frame before it is known that there is one.

`Call.Safe` is the condition that a call does none of these, and `proc_info_current` says that
the info is the current frame's in every state that such calls lead to.
-/

namespace LibunwindKern

open CProg ByteMem Unw

/-- The range of the procedure contains the address. -/
def ProcInfo.Covers (pi : ProcInfo) (ip : Word) : Prop := pi.startIp ≤ ip ∧ ip < pi.endIp

instance ProcInfo.decidableCovers (pi : ProcInfo) (ip : Word) : Decidable (pi.Covers ip) :=
  inferInstanceAs (Decidable (_ ∧ _))

/-- The cached procedure info is the one of the current frame. -/
def PiCurrent (c : Cursor) : Prop := c.piValid = true → c.pi.Covers (lookupIp c c.ip)

instance (c : Cursor) : Decidable (PiCurrent c) := inferInstanceAs (Decidable (_ → _))

/-! ### Calls and runs -/

/-- A call on a cursor. -/
inductive Call where
  | step
  | getProcInfo
  | getReg (regnum : ℕ)
  | setReg (regnum : ℕ) (val : Word)
  deriving DecidableEq, Repr

/-- The effect of a call. Its result does not matter here. -/
def Call.run (k : Kernel) (v : Validator) (fuel : ℕ) : Call → Act UnwError Session Unit
  | .step => Session.onCursor (fun m => unwStep k v m fuel) >>= fun _ => pure ()
  | .getProcInfo => Session.onCursor (unwGetProcInfo k) >>= fun _ => pure ()
  | .getReg regnum =>
    Session.onCursor (fun m => read fun c => unwGetReg v m c regnum) >>= fun _ => pure ()
  | .setReg regnum val => unwSetReg regnum val

/-- The states that calls with the property `P` lead to from `unw_init_local`. A call that
returns an error may be followed by another one. The system around the library may change
from call to call. -/
inductive Reached (P : Kernel → Validator → ℕ → Call → Session → Prop) : Session → Prop
  | init {v : Validator} {m : Mem} {uc : Word} {s t : St}
      (h : unwInitLocal v m uc s = (.ok (), t)) : Reached P ⟨t, m⟩
  | call {k : Kernel} {v : Validator} {fuel : ℕ} {call : Call} {w w' : Session}
      {r : Res UnwError Unit} (hrun : Reached P w) (hP : P k v fuel call w)
      (hret : r = .ok () ∨ ∃ e, r = .err e) (h : call.run k v fuel w = (r, w')) : Reached P w'

/-! ### The condition -/

/-- The lookup of the frame finds the procedure or reports that there is none: an entry of the
dynamic list for the address can be decoded, and if there is none, the files are searched only
if that leads to an FDE. -/
structure SoundLookup (k : Kernel) (m : Mem) (s : St) (need : Bool) : Prop where
  decodes : ∀ e p, dynamicSearch k m s s.c.ip need = (.err e, p) →
    e = .enoinfo ∨ p.pi.format = .armExidx
  files : ∀ p, dynamicSearch k m s s.c.ip need = (.err .enoinfo, p) →
    (∀ file ∈ k.linkerFiles, ¬ReachesSearch k (lookupIp s.c s.c.ip) file) ∨
      SomeHit k m (lookupIp s.c s.c.ip) need k.linkerFiles ⟨p.pi, p.pool, false, none⟩

/-- The row of the procedure that was found can be computed and applied. -/
def RowApplies (v : Validator) (m : Mem) (fuel : ℕ) (s : St) : Prop :=
  ∃ sr u u', createStateRecordFor m fuel s.c.ip s = (.ok sr, u) ∧
    applyRegState v m fuel sr.rsCurrent u = (.ok (), u')

/-- The condition on the state before a step: the lookup is sound; a procedure that is cached
is found again; and if the dynamic list has the procedure, the step goes through or the range
contains the address also with the new `use_prev_instr`. -/
structure StepSafe (k : Kernel) (v : Validator) (m : Mem) (fuel : ℕ) (s : St) : Prop where
  sound : SoundLookup k m s true
  again : s.c.piValid = true → (fetchProcInfo k m s.c.ip true (arm s)).1 = .ok ()
  next : ∀ p, dynamicSearch k m s s.c.ip true = (.ok (), p) →
    RowApplies v m fuel (cached true true (withPi (arm s) p)) ∨
      p.pi.Covers (lookupIp (cached true true (withPi s p)).c s.c.ip)

/-- The condition on the state before a call. -/
def Call.Safe (k : Kernel) (v : Validator) (fuel : ℕ) : Call → Session → Prop
  | .step, w => StepSafe k v w.mem fuel w.st
  | .getProcInfo, w => w.st.c.piValid = true ∨ SoundLookup k w.mem w.st false
  | .getReg _, _ => True
  | .setReg regnum val, w =>
    regnum = 16 → w.st.c.piValid = true → w.st.c.pi.Covers (lookupIp w.st.c val)

/-! ### What the dynamic list has found -/

section Lookup

variable {k : Kernel} {m : Mem} {ip : Word} {need : Bool} {s u : St}

/-- The search of a table checks the range of the FDE it has come to. -/
theorem tableDone_covers {format : InfoFormat} {segbase : Word} {p q : PiState}
    (h : tableDone ip format segbase p = (.ok (), q)) : q.pi.Covers ip := by
  have hcheck : ∀ p : PiState, (if ip < p.pi.startIp ∨ p.pi.endIp ≤ ip then
      Act.fail UnwError.enoinfo else pure () : Act UnwError PiState Unit) p = (.ok (), q) →
      q.pi.Covers ip := by
    intro p h
    by_cases hout : ip < p.pi.startIp ∨ p.pi.endIp ≤ ip
    · rw [if_pos hout] at h
      cases h
    · rw [if_neg hout] at h
      cases h
      exact ⟨BitVec.not_lt.mp fun hlt => hout (Or.inl hlt),
        BitVec.not_le.mp fun hle => hout (Or.inr hle)⟩
  unfold tableDone at h
  by_cases hformat : format = .table
  · rw [if_pos hformat, Act.modify_bind] at h
    exact hcheck _ h
  · rw [if_neg hformat] at h
    exact hcheck p h

theorem searchTable_covers {format : InfoFormat} {table tableLen debugFrameBase segbase : Word}
    {p q : PiState}
    (h : searchTable m ip format table tableLen debugFrameBase segbase need p = (.ok (), q)) :
    q.pi.Covers ip := by
  cases hlookup : unwLookup m table tableLen ((ip - segbase).setWidth 32) with
  | none =>
    unfold searchTable at h
    rw [hlookup] at h
    cases h
  | some e =>
    rw [searchTable_eq hlookup] at h
    obtain ⟨⟨⟩, p', -, hdone⟩ := Act.bind_eq_ok h
    exact tableDone_covers hdone

theorem dwarfSearchUnwindTable_covers {di : DynInfo} {p q : PiState}
    (h : dwarfSearchUnwindTable m ip di need p = (.ok (), q)) : q.pi.Covers ip := by
  unfold dwarfSearchUnwindTable at h
  split at h
  · cases h
  · split at h
    · cases h
    · cases hu : di.u with
      | remoteTable segbase tableLen tableData =>
        rw [hu] at h
        exact searchTable_covers h
      | table segbase tableData =>
        rw [hu] at h
        cases tableData with
        | some fdesc => exact searchTable_covers h
        | none => cases h
      | dynamic handler flags pad0 => rw [hu] at h; cases h
      | armExidx => rw [hu] at h; cases h

/-- An entry that was found covers the address. -/
theorem localFindProcInfo_covers {p q : PiState} : ∀ {dis : List DynInfo},
    localFindProcInfo m ip need dis p = (.ok (), q) → q.pi.Covers ip := by
  intro dis
  induction dis with
  | nil =>
    intro h
    cases h
  | cons di dis ih =>
    intro h
    unfold localFindProcInfo at h
    by_cases hcov : di.startIp ≤ ip ∧ ip < di.endIp
    · rw [if_pos hcov] at h
      unfold unwiExtractDynamicProcInfo at h
      rw [Act.modify_bind] at h
      cases hu : di.u with
      | dynamic handler flags pad0 =>
        rw [hu] at h
        cases h
        exact hcov
      | table segbase tableData =>
        rw [hu] at h
        exact dwarfSearchUnwindTable_covers h
      | remoteTable segbase tableLen tableData =>
        rw [hu] at h
        exact dwarfSearchUnwindTable_covers h
      | armExidx =>
        rw [hu] at h
        cases h
    · rw [if_neg hcov] at h
      exact ih h

theorem dynamicSearch_covers {p : PiState} (h : dynamicSearch k m s ip need = (.ok (), p)) :
    p.pi.Covers (lookupIp s.c ip) :=
  localFindProcInfo_covers h

/-- A lookup that is sound does not take a search in vain for a success. -/
theorem SoundLookup.not_file (hsound : SoundLookup k m s need) {p : PiState}
    (hd : (dynamicSearch k m s s.c.ip need).1 = .err .enoinfo) :
    fileSearch k m s s.c.ip need ≠ (.ok (), p) := by
  intro hfile
  unfold fileSearch at hfile
  generalize hp : (dynamicSearch k m s s.c.ip need).2 = p' at hfile
  have hdyn : dynamicSearch k m s s.c.ip need = (.err .enoinfo, p') := Prod.ext hd hp
  have hend : ForeachEnd k m (lookupIp s.c s.c.ip) need k.linkerFiles
    ⟨p'.pi, p'.pool, false, none⟩ _ := foreach_cases m need k.linkerFiles _
  rcases hrun : linkerFileForeach (dwarfCallback k m (lookupIp s.c s.c.ip) need) k.linkerFiles
    ⟨p'.pi, p'.pool, false, none⟩ with ⟨r, t⟩
  rw [hrun] at hend
  cases hend with
  | hit h hret hreach =>
    cases hret
    rw [dwarfFindProcInfo_of_ok m need hrun] at hfile
    cases hfile
  | miss h hret hs hd =>
    cases hret
    obtain hnone | hhit := hsound.files p' hdyn
    · -- no file was searched, so there is nothing to report either
      have hsingle : t.singleFde = false := by
        refine Bool.eq_false_iff.mpr fun htrue => ?_
        obtain hfalse | ⟨file, hmem, hfile'⟩ := hs.mp htrue
        · cases hfalse
        · exact hnone file hmem hfile'
      rw [dwarfFindProcInfo_of_ok m need hrun, if_neg (Nat.lt_irrefl 0), hsingle,
        if_neg Bool.false_ne_true, hd hsingle] at hfile
      cases hfile
    · exact h hhit
  | stuck hok herr hreach =>
    obtain ⟨hnot, -⟩ := dwarfFindProcInfo_of_stuck (s := p') m need
      (by rw [hrun]; exact hok) (by rw [hrun]; exact herr)
    exact hnot (congrArg Prod.fst hfile)

/-- **What a sound lookup leaves**: a procedure that covers the address, found in the dynamic
list, or the flags as they were. -/
theorem SoundLookup.fetch {r : Res UnwError Unit} (hsound : SoundLookup k m s need)
    (hend : FetchEnd k m s s.c.ip need r u) :
    (∃ p, dynamicSearch k m s s.c.ip need = (.ok (), p) ∧ r = .ok () ∧
        u = cached need true (withPi s p)) ∨
      r ≠ .ok () ∧ u.c.piValid = s.c.piValid := by
  cases hend with
  | dynamic hd hf => exact Or.inl ⟨_, hd, rfl, rfl⟩
  | broken hd he hf => exact ((hsound.decodes _ _ hd).elim he hf).elim
  | format hf hd => exact Or.inr ⟨by simp, rfl⟩
  | file hd hs hf => exact absurd hs (hsound.not_file hd)
  | missing hd hs => exact Or.inr ⟨by simp, rfl⟩
  | stuck hok herr hs => exact Or.inr ⟨hok (), rfl⟩

end Lookup

/-! ### One call -/

section Calls

variable {k : Kernel} {v : Validator} {m : Mem} {fuel : ℕ} {s t u : St}

theorem afterFetch_of_rowApplies (h : RowApplies v m fuel u) :
    ∃ w, afterFetch v m fuel u = (.ok 1, w) := by
  obtain ⟨sr, w, w', hrow, happly⟩ := h
  obtain ⟨w'', hput⟩ := putUnwindInfo_ok w'
  unfold afterFetch
  rw [Act.get_bind, Act.bind_of_ok hrow, Act.bind_of_ok happly, Act.bind_of_ok hput]
  exact ⟨_, rfl⟩

/-- An error of `dwarf_step` for which there is no fallback is the result of the step. -/
theorem unwStep_of_err {e : UnwError} (h : dwarfStep k v m fuel (arm s) = (.err e, u))
    (he : e ≠ .enoinfo) : unwStep k v m fuel s = (.err e, disarm s u) := by
  rw [unwStep_eq, Act.bind_of_ok (Act.attempt_of_err h)]
  unfold afterDwarfStep
  rw [setCursor_bind]
  exact congrFun (if_neg he) _

/-- A step that comes back: `dwarf_step` does. -/
theorem dwarfStep_returns {r : Res UnwError ℕ} (h : unwStep k v m fuel s = (r, t))
    (hret : (∃ n, r = .ok n) ∨ ∃ e, r = .err e) :
    (∃ n u, dwarfStep k v m fuel (arm s) = (.ok n, u)) ∨
      ∃ e u, dwarfStep k v m fuel (arm s) = (.err e, u) := by
  rw [unwStep_eq] at h
  rcases hstep : dwarfStep k v m fuel (arm s) with ⟨q, u⟩
  obtain ⟨n, rfl⟩ | ⟨e, rfl⟩ | hq := q.ok_or_err_or_stuck
  · exact Or.inl ⟨n, u, rfl⟩
  · exact Or.inr ⟨e, u, rfl⟩
  · rw [Act.attempt_bind_of_stuck hstep hq] at h
    cases h
    obtain ⟨n, hn⟩ | ⟨e, he⟩ := hret
    · exact absurd hn ((hq.bind _).1 n)
    · exact absurd he ((hq.bind _).2 e)

/-- **A step** leaves no procedure info, or the one of the frame it has failed to unwind. -/
theorem StepSafe.current {r : Res UnwError ℕ} (hsafe : StepSafe k v m fuel s)
    (hret : (∃ n, r = .ok n) ∨ ∃ e, r = .err e) (h : unwStep k v m fuel s = (r, t)) :
    PiCurrent t.c := by
  have hfound := unwStep_found h
  have hflag : t.c.piValid = (dwarfStep k v m fuel (arm s)).2.c.piValid :=
    congrArg Found.piValid hfound
  rcases hfetch : fetchProcInfo k m s.c.ip true (arm s) with ⟨q, u⟩
  -- the setting of `validate` has no influence on the lookup
  have hsound : SoundLookup k m (arm s) true := ⟨hsafe.sound.decodes, hsafe.sound.files⟩
  obtain ⟨p, hd, rfl, rfl⟩ | ⟨hq, hvalid⟩ := hsound.fetch (.of_run (Or.inl rfl) hfetch)
  · have hstep : dwarfStep k v m fuel (arm s) =
        afterFetch v m fuel (cached true true (withPi (arm s) p)) := by
      rw [dwarfStep_eq_fetch]
      exact Act.bind_of_ok hfetch
    obtain ⟨n, w, hok⟩ | ⟨e, w, herr⟩ := dwarfStep_returns h hret
    · -- the flag is cleared
      rw [hok] at hflag
      rw [hstep] at hok
      obtain ⟨hfails, -⟩ | ⟨w₁, w₂, -, -, -, rfl⟩ := afterFetch_found hok
      · exact absurd rfl (hfails n)
      · intro htrue
        rw [hflag] at htrue
        cases htrue
    · have he : e ≠ .enoinfo := by
        rintro rfl
        have hno := fetchProcInfo_of_enoinfo herr
        change fetchProcInfo k m s.c.ip true (arm s) = _ at hno
        rw [hfetch] at hno
        cases hno
      rw [unwStep_of_err herr he] at h
      cases h
      rw [hstep] at herr
      have hip : w.c.ip = (arm s).c.ip :=
        afterFetch_err_ip (u := cached true true (withPi (arm s) p)) herr
      obtain ⟨-, hsame⟩ | ⟨w₁, w₂, -, -, hok, -⟩ := afterFetch_found herr
      · have hpi : w.c.pi = p.pi := congrArg Found.pi hsame
        have hprev : w.c.usePrevInstr = (cached true true (withPi s p)).c.usePrevInstr :=
          congrArg Found.usePrevInstr hsame
        obtain hrow | hcovers := hsafe.next p hd
        · obtain ⟨w', hok⟩ := afterFetch_of_rowApplies hrow
          rw [hok] at herr
          cases herr
        · intro _
          change w.c.pi.Covers (if w.c.usePrevInstr then w.c.ip - 1 else w.c.ip)
          rw [hpi, hprev, hip]
          exact hcovers
      · cases hok
  · -- the lookup has failed, so nothing was cached before
    have hno : s.c.piValid = false := by
      refine Bool.eq_false_iff.mpr fun htrue => hq ?_
      have hok := hsafe.again htrue
      rwa [hfetch] at hok
    obtain ⟨r', hstep, -, -⟩ := dwarfStep_of_fetch_fails (v := v) hfetch hq
    intro htrue
    rw [hflag, hstep] at htrue
    exact absurd (hno.symm.trans (hvalid.symm.trans htrue)) Bool.false_ne_true

/-- The procedure info of one byte that stands for a procedure without unwind info. -/
def bareProcInfo (ip : Word) : ProcInfo := { ProcInfo.zero with startIp := ip, endIp := ip + 1 }

/-- What `unw_get_proc_info` makes of the lookup. -/
theorem unwGetProcInfo_of_fetch {q : Res UnwError Unit}
    (h : fetchProcInfo k m s.c.ip false s = (q, u)) :
    (unwGetProcInfo k m s).2 = u ∧
      (q = .ok () → (unwGetProcInfo k m s).1 = .ok u.c.pi) ∧
      ((∃ e, q = .err e) → (unwGetProcInfo k m s).1 = .ok (bareProcInfo u.c.ip)) ∧
      (q ≠ .ok () → (∀ e, q ≠ .err e) → ∀ pi, (unwGetProcInfo k m s).1 ≠ .ok pi) := by
  have hmake : dwarfMakeProcInfo k m s = (q, u) := h
  unfold unwGetProcInfo
  obtain ⟨⟨⟩, rfl⟩ | ⟨e, rfl⟩ | hq := q.ok_or_err_or_stuck
  · rw [Act.bind_of_ok (Act.attempt_of_ok hmake)]
    exact ⟨rfl, fun _ => rfl, by simp, by simp⟩
  · rw [Act.bind_of_ok (Act.attempt_of_err hmake)]
    exact ⟨rfl, by simp, fun _ => rfl, by simp⟩
  · rw [Act.attempt_bind_of_stuck hmake hq]
    exact ⟨rfl, fun hok => absurd hok (hq.1 ()), fun ⟨e, he⟩ => absurd he (hq.2 e),
      fun _ _ => Res.bind_ne_ok hq.1 _⟩

theorem fetchProcInfo_of_cached {ip : Word} (h : s.c.piValid = true) :
    fetchProcInfo k m ip false s = (.ok (), s) := by
  unfold fetchProcInfo
  rw [Act.get_bind, if_pos ⟨h, by simp⟩]
  rfl

/-- **`unw_get_proc_info`** answers with the cached procedure info, or looks it up. It reports
a procedure that covers the address, or none. -/
theorem getProcInfo_current {r : Res UnwError ProcInfo} (hcurrent : PiCurrent s.c)
    (hsafe : s.c.piValid = true ∨ SoundLookup k m s false)
    (h : unwGetProcInfo k m s = (r, t)) :
    PiCurrent t.c ∧
      ∀ pi, r = .ok pi → pi.Covers (lookupIp s.c s.c.ip) ∨ pi = bareProcInfo s.c.ip := by
  by_cases hvalid : s.c.piValid = true
  · -- nothing is looked up, and the info of the cursor is returned
    obtain ⟨hstate, hok, -, -⟩ :=
      unwGetProcInfo_of_fetch (fetchProcInfo_of_cached (k := k) (m := m) hvalid)
    rw [h] at hstate hok
    have hpi : r = .ok s.c.pi := hok rfl
    have hst : t = s := hstate
    subst hpi hst
    refine ⟨hcurrent, fun pi heq => Or.inl ?_⟩
    cases heq
    exact hcurrent hvalid
  · have hfalse : s.c.piValid = false := Bool.eq_false_iff.mpr hvalid
    have hsound := hsafe.resolve_left hvalid
    rcases hfetch : fetchProcInfo k m s.c.ip false s with ⟨q, u⟩
    obtain ⟨hstate, hok, herr, hstuck⟩ := unwGetProcInfo_of_fetch hfetch
    rw [h] at hstate hok herr hstuck
    have hst : t = u := hstate
    subst hst
    obtain ⟨p, hd, rfl, rfl⟩ | ⟨hq, hkept⟩ := hsound.fetch (.of_run (Or.inr hfalse) hfetch)
    · have hcovers := dynamicSearch_covers hd
      refine ⟨fun _ => hcovers, fun pi heq => Or.inl ?_⟩
      rw [show r = .ok p.pi from hok rfl] at heq
      cases heq
      exact hcovers
    · -- no info was found: one byte at the instruction pointer, unless the lookup got stuck
      have hkeep : t.c.ip = s.c.ip := by
        have hframe := congrArg Prod.fst (fetchProcInfo_keeps k m s.c.ip false s)
        rwa [hfetch] at hframe
      refine ⟨fun htrue => ?_, fun pi heq => ?_⟩
      · exact absurd (hfalse.symm.trans (hkept.symm.trans htrue)) Bool.false_ne_true
      · by_cases he : ∃ e, q = .err e
        · have hbare : r = .ok (bareProcInfo t.c.ip) := herr he
          rw [hbare, hkeep] at heq
          cases heq
          exact Or.inr rfl
        · exact absurd heq (hstuck hq (fun e heq => he ⟨e, heq⟩) pi)

/-- **`unw_set_reg`** writes the instruction pointer of the cursor for one register only, and
the procedure info for none. -/
theorem unwSetReg_cursor (regnum : ℕ) (val : Word) (w : Session) :
    found (unwSetReg regnum val w).2.st = found w.st ∧
      (unwSetReg regnum val w).2.st.c.ip = if regnum = 16 then val else w.st.c.ip := by
  have hput : ∀ (loc : Word) (w : Session), (dwarfPut loc val w).2.st = w.st := by
    intro loc w
    unfold dwarfPut
    split
    · rfl
    · rfl
  unfold unwSetReg tdepAccessRegWrite
  rw [Act.get_bind]
  by_cases h16 : regnum = 16
  · rw [if_pos h16, if_pos h16]
    change found (dwarfPut _ val _).2.st = _ ∧ (dwarfPut _ val _).2.st.c.ip = _
    rw [hput]
    exact ⟨rfl, rfl⟩
  · rw [if_neg h16, if_neg h16]
    split
    · exact ⟨rfl, rfl⟩
    · split
      · exact ⟨rfl, rfl⟩
      · split
        · rw [hput]
          exact ⟨rfl, rfl⟩
        · exact ⟨rfl, rfl⟩

theorem PiCurrent.congr {w w' : St} (hfound : found w' = found w) (hip : w'.c.ip = w.c.ip)
    (h : PiCurrent w.c) : PiCurrent w'.c := by
  have hpi : w'.c.pi = w.c.pi := congrArg Found.pi hfound
  have hvalid : w'.c.piValid = w.c.piValid := congrArg Found.piValid hfound
  have hprev : w'.c.usePrevInstr = w.c.usePrevInstr := congrArg Found.usePrevInstr hfound
  unfold PiCurrent lookupIp
  rw [hpi, hvalid, hprev, hip]
  exact h

/-- A call on the cursor that comes back. -/
theorem Session.onCursor_returns {α : Type} {x : Mem → Unw α} {w w' : Session}
    {r : Res UnwError Unit} (hret : r = .ok () ∨ ∃ e, r = .err e)
    (h : (Session.onCursor x >>= fun _ => pure ()) w = (r, w')) :
    ∃ q, x w.mem w.st = (q, w'.st) ∧ ((∃ a, q = .ok a) ∨ ∃ e, q = .err e) := by
  have hrun : Session.onCursor x w = ((x w.mem w.st).1, { w with st := (x w.mem w.st).2 }) := rfl
  obtain rfl | ⟨e, rfl⟩ := hret
  · obtain ⟨a, u, hok, hpure⟩ := Act.bind_eq_ok h
    cases hpure
    rw [hrun] at hok
    obtain ⟨hfst, rfl⟩ := Prod.mk.inj hok
    exact ⟨.ok a, Prod.ext hfst rfl, Or.inl ⟨a, rfl⟩⟩
  · obtain herr | ⟨a, u, -, hpure⟩ := Act.bind_eq_err h
    · rw [hrun] at herr
      obtain ⟨hfst, rfl⟩ := Prod.mk.inj herr
      exact ⟨.err e, Prod.ext hfst rfl, Or.inr ⟨e, rfl⟩⟩
    · cases hpure

/-- **One call.** -/
theorem Call.Safe.current {call : Call} {w w' : Session} {r : Res UnwError Unit}
    (hsafe : call.Safe k v fuel w) (hcurrent : PiCurrent w.st.c)
    (hret : r = .ok () ∨ ∃ e, r = .err e) (h : call.run k v fuel w = (r, w')) :
    PiCurrent w'.st.c := by
  cases call with
  | step =>
    obtain ⟨q, hrun, hq⟩ := Session.onCursor_returns hret h
    exact StepSafe.current hsafe hq hrun
  | getProcInfo =>
    obtain ⟨q, hrun, -⟩ := Session.onCursor_returns hret h
    exact (getProcInfo_current hcurrent hsafe hrun).1
  | getReg regnum =>
    obtain ⟨q, hrun, -⟩ := Session.onCursor_returns hret h
    rw [read_eq] at hrun
    obtain ⟨-, hst⟩ := Prod.mk.inj hrun
    rw [← hst]
    exact hcurrent
  | setReg regnum val =>
    have hrun : unwSetReg regnum val w = (r, w') := h
    obtain ⟨hfound, hip⟩ := unwSetReg_cursor regnum val w
    rw [hrun] at hfound hip
    by_cases h16 : regnum = 16
    · -- the new instruction pointer has to be covered by the info that is kept
      rw [if_pos h16] at hip
      intro hvalid
      have hpi : w'.st.c.pi = w.st.c.pi := congrArg Found.pi hfound
      have hflag : w'.st.c.piValid = w.st.c.piValid := congrArg Found.piValid hfound
      have hprev : w'.st.c.usePrevInstr = w.st.c.usePrevInstr :=
        congrArg Found.usePrevInstr hfound
      unfold lookupIp
      rw [hpi, hprev, hip]
      exact hsafe h16 (hflag.symm.trans hvalid)
    · rw [if_neg h16] at hip
      exact hcurrent.congr hfound hip

/-! ### Runs -/

/-- **The cached procedure info is the current frame's** in every state that calls with the
condition lead to, and `unw_get_proc_info` then reports a procedure that covers the address of
the frame, or that there is none. -/
theorem proc_info_current {w : Session} (h : Reached Call.Safe w) :
    PiCurrent w.st.c ∧
      ∀ k v fuel pi t, Call.getProcInfo.Safe k v fuel w →
        unwGetProcInfo k w.mem w.st = (.ok pi, t) →
        pi.Covers (lookupIp w.st.c w.st.c.ip) ∨ pi = bareProcInfo w.st.c.ip := by
  have hcurrent : PiCurrent w.st.c := by
    induction h with
    | init h =>
      intro hvalid
      rw [(unwInitLocal_flags h).2] at hvalid
      cases hvalid
    | call hrun hsafe hret h ih => exact hsafe.current ih hret h
  refine ⟨hcurrent, fun k v fuel pi t hsafe hrun => ?_⟩
  exact (getProcInfo_current hcurrent hsafe hrun).2 pi rfl

end Calls

/-- A cursor at an address of the procedure with two rows, and what `unw_get_proc_info` makes
of it. -/
def twoRowsSession : Session :=
  ⟨initState (savedContext 0x5012 0x20000 0x20100 twoRowsMem),
    savedContext 0x5012 0x20000 0x20100 twoRowsMem⟩

def twoRowsKnown : Session := (Call.getProcInfo.run twoRowsKernel msyncValidate 0 twoRowsSession).2

theorem twoRowsSession_reached (P : Kernel → Validator → ℕ → Call → Session → Prop) :
    Reached P twoRowsSession :=
  .init (Act.run_of_outcome (by decide +kernel))

theorem twoRowsKnown_run :
    Call.getProcInfo.run twoRowsKernel msyncValidate 0 twoRowsSession = (.ok (), twoRowsKnown) :=
  Act.run_of_outcome (by decide +kernel)

/-- The procedure that `unw_get_proc_info` has found is cached, and covers the address. -/
theorem proc_info_current_two_rows :
    twoRowsKnown.st.c.piValid = true ∧ PiCurrent twoRowsKnown.st.c := by
  have hfinds : (dynamicSearch twoRowsKernel twoRowsSession.mem twoRowsSession.st
      twoRowsSession.st.c.ip false).1 = .ok () := by decide +kernel
  have hsound : SoundLookup twoRowsKernel twoRowsSession.mem twoRowsSession.st false := by
    constructor
    · intro e p h
      rw [h] at hfinds
      cases hfinds
    · intro p h
      rw [h] at hfinds
      cases hfinds
  have hsafe : Call.getProcInfo.Safe twoRowsKernel msyncValidate 0 twoRowsSession := Or.inr hsound
  have hrun : Reached Call.Safe twoRowsKnown :=
    .call (twoRowsSession_reached _) hsafe (Or.inl rfl) twoRowsKnown_run
  exact ⟨by decide +kernel, (proc_info_current hrun).1⟩

/-- `unw_set_reg` then moves the instruction pointer out of the procedure. -/
theorem proc_info_stale :
    ∃ w, Reached (fun _ _ _ _ _ => True) w ∧ w.st.c.piValid = true ∧ w.st.c.ip = 0x9000 ∧
      w.st.c.pi.startIp = 0x5000 ∧ w.st.c.pi.endIp = 0x5100 ∧ ¬PiCurrent w.st.c := by
  have hrun : Reached (fun _ _ _ _ _ => True) twoRowsKnown :=
    .call (twoRowsSession_reached _) trivial (Or.inl rfl) twoRowsKnown_run
  refine ⟨((Call.setReg 16 0x9000).run twoRowsKernel msyncValidate 0 twoRowsKnown).2,
    .call hrun trivial (Or.inl rfl) (Act.run_of_outcome (by decide +kernel)), ?_⟩
  decide +kernel

end LibunwindKern
