import LibunwindKern.Dwarf.Untouched
import LibunwindKern.X86.Cursor
import LibunwindKern.X86.Resume
import LibunwindKern.X86.StepResult
import LibunwindKern.Dwarf.Fetch

/-!
# Resuming at a frame

The model of `unw_resume` and `x86_64_local_resume` (`Gresume.c`). The registers are copied to the
saved context, the procedure info of the cursor is brought up to date, and the format of the signal
context decides how the frame is resumed: with `setcontext`, or with `x86_64_sigreturn`, which
panics.

A lookup of the procedure sees little of a state. `LookupBlind` says of a part of the state that it
sees nothing of it, and `fetchProcInfo_ignores` is the rule for lookups.
-/

namespace LibunwindKern

open CProg ByteMem Unw

/-- `x86_64_local_resume`. The value is the context that `setcontext` goes on with. -/
def x86_64LocalResume (k : Kernel) (m : Mem) : Unw Word := do
  let _ ← Act.attempt (dwarfMakeProcInfo k m)
  let s ← Act.get
  if s.c.sigcontextFormat ≠ .none then
    Act.lift .panic
  else
    pure s.c.uc

/-- `establish_machine_state`, on the memory of a session. `val` is what its variable holds at the
start, which is not initialised. -/
def Session.establish (v : Validator) (val : Word) : Act UnwError Session Unit :=
  Act.modify fun w =>
    let r := establishMachineState v w.st.c ⟨w.mem, w.st.lga, val⟩
    ⟨{ w.st with lga := r.lga }, r.mem⟩

/-- `unw_resume`. -/
def unwResume (k : Kernel) (v : Validator) (val : Word) : Act UnwError Session Word := do
  Session.establish v val
  Session.onCursor (x86_64LocalResume k)

/-! ### What a lookup sees -/

/-- The state with this found by the lookup. -/
def St.withFound (s : St) (f : Found) : St :=
  { s with
    c := { s.c with
      pi := f.pi, piValid := f.piValid, piIsDynamic := f.piIsDynamic
      usePrevInstr := f.usePrevInstr }
    ciePool := f.ciePool }

/-- The state with everything but what the lookup has found taken from another one. -/
def St.withUnfound (rest s : St) : St := rest.withFound (found s)

/-- A lookup neither sees nor writes what `put` writes. -/
def LookupBlind {τ : Type} (put : τ → St → St) : Prop :=
  ∀ g s f, put g (s.withFound f) = (put g s).withFound f

section Lookup

variable (k : Kernel) (m : Mem)

theorem setCursor_ignores_unfound {f : Cursor → Cursor}
    (hf : ∀ s g : St, { St.withUnfound g s with c := f (St.withUnfound g s).c } =
      St.withUnfound g { s with c := f s.c }) :
    Act.Ignores St.withUnfound (Unw.setCursor f) :=
  Act.Ignores.modify fun s g => ⟨g, hf s g⟩

theorem fetchDone_ignores_unfound (need dynamic : Bool) (ret : Except UnwError Unit) :
    Act.Ignores St.withUnfound (fetchDone need dynamic ret) := by
  refine Act.Ignores.get_bind (fun _ _ => rfl) fun s => ?_
  split
  · exact Act.Ignores.fail _
  · refine (setCursor_ignores_unfound fun _ _ => rfl).bind fun _ => Act.Ignores.bind ?_ fun _ => ?_
    · refine Act.Ignores.get_bind (fun _ _ => rfl) fun s => ?_
      split
      · exact setCursor_ignores_unfound fun _ _ => rfl
      · exact Act.Ignores.pure _
    · cases ret with
      | ok _ => exact Act.Ignores.pure _
      | error e => exact Act.Ignores.fail _

/-- A lookup sees what a lookup writes, and nothing else. -/
theorem fetchProcInfo_ignores_unfound (ip : Word) (need : Bool) :
    Act.Ignores St.withUnfound (fetchProcInfo k m ip need) := by
  have honPi : ∀ x : Act UnwError PiState Unit, Act.Ignores St.withUnfound (onPi x) :=
    fun x s g => ⟨rfl, g, rfl⟩
  refine Act.Ignores.get_bind (fun _ _ => rfl) fun s => ?_
  split
  · exact Act.Ignores.pure _
  · refine (setCursor_ignores_unfound fun _ _ => rfl).bind fun _ => ?_
    refine (honPi _).attempt.bind fun ret => ?_
    split
    · exact (honPi _).bind fun _ => fetchDone_ignores_unfound _ _ _
    · exact fetchDone_ignores_unfound _ _ _

/-- What is left of a state without what a lookup writes. -/
def unfound (s : St) : St := s.withFound ⟨ProcInfo.zero, false, false, false, ⟨0, 0⟩⟩

theorem fetchProcInfo_keeps_unfound (ip : Word) (need : Bool) :
    Act.Keeps unfound (fetchProcInfo k m ip need) := by
  have hdone : ∀ (dynamic : Bool) ret, Act.Keeps unfound (fetchDone need dynamic ret) := by
    intro dynamic ret
    refine Act.Keeps.bind Act.Keeps.get fun s => ?_
    split
    · exact Act.Keeps.fail _
    · refine Act.Keeps.bind (Act.Keeps.modify fun _ => rfl) fun _ => Act.Keeps.bind ?_ fun _ => ?_
      · refine Act.Keeps.bind Act.Keeps.get fun s => ?_
        split
        · exact Act.Keeps.modify fun _ => rfl
        · exact Act.Keeps.pure _
      · cases ret with
        | ok _ => exact Act.Keeps.pure _
        | error e => exact Act.Keeps.fail _
  have honPi : ∀ x : Act UnwError PiState Unit, Act.Keeps unfound (onPi x) := fun _ _ => rfl
  refine Act.Keeps.bind Act.Keeps.get fun s => ?_
  split
  · exact Act.Keeps.pure _
  · refine Act.Keeps.bind (Act.Keeps.modify fun _ => rfl) fun _ => ?_
    refine Act.Keeps.bind (honPi _).attempt fun ret => ?_
    split
    · exact Act.Keeps.bind (honPi _) fun _ => hdone _ _
    · exact hdone _ _

theorem eq_withFound {s t : St} (h : unfound t = unfound s) : t = s.withFound (found t) := by
  have hput : (unfound t).withFound (found t) = (unfound s).withFound (found t) := by rw [h]
  exact hput

variable {k m}

/-- **Lookups in lockstep**: with another value of what it does not see, a lookup ends alike. -/
theorem fetchProcInfo_ignores {τ : Type} {put : τ → St → St} (h : LookupBlind put) (ip : Word)
    (need : Bool) : Act.Ignores put (fetchProcInfo k m ip need) := by
  intro s g
  rcases hs : fetchProcInfo k m ip need s with ⟨r, t⟩
  rcases hput : fetchProcInfo k m ip need (put g s) with ⟨r', t'⟩
  have hkeep : t = s.withFound (found t) :=
    eq_withFound ((fetchProcInfo_keeps_unfound k m ip need).run hs)
  have hkeep' : t' = (put g s).withFound (found t') :=
    eq_withFound ((fetchProcInfo_keeps_unfound k m ip need).run hput)
  -- the lookup sees the same in both states, so it has found the same
  have hseen : put g s = St.withUnfound (put g s) s := h g s (found s)
  obtain ⟨hout, g', hstate⟩ := fetchProcInfo_ignores_unfound k m ip need s (put g s)
  rw [← hseen, hput, hs] at hout hstate
  have hfound : found t' = found t := by
    have hstate' : t' = g'.withFound (found t) := hstate
    rw [hstate']
    rfl
  refine ⟨hout, g, ?_⟩
  calc t' = (put g s).withFound (found t) := hfound ▸ hkeep'
    _ = put g (s.withFound (found t)) := (h g s (found t)).symm
    _ = put g t := congrArg (put g) hkeep.symm

/-- Bringing the procedure info up to date leaves the rest of the cursor alone. -/
theorem dwarfMakeProcInfo_keeps : Act.Keeps unfound (dwarfMakeProcInfo k m) :=
  Act.Keeps.bind Act.Keeps.get fun s => fetchProcInfo_keeps_unfound k m s.c.ip false

theorem dwarfMakeProcInfo_ignores {τ : Type} {put : τ → St → St} (h : LookupBlind put)
    (hip : ∀ g s, (put g s).c.ip = s.c.ip) : Act.Ignores put (dwarfMakeProcInfo k m) := by
  refine Act.Ignores.get_bind (fun s g => ?_) fun s => fetchProcInfo_ignores h s.c.ip false
  rw [hip]

/-- In a system without unwind info, a lookup finds nothing. -/
theorem fetchProcInfo_bare {ip : Word} {need : Bool} {s : St}
    (hneed : need = true ∨ s.c.piValid = false) :
    fetchProcInfo bareKernel m ip need s =
      (.err .enoinfo, withPi s ⟨ProcInfo.zero, s.ciePool⟩) := by
  rw [fetchProcInfo_eq hneed]
  rfl

end Lookup

/-! ### What a resumption sees -/

section Resume

variable {c : Cursor} {k : Kernel} {v : Validator} {m : Mem} {s : St}

/-- With the installed validator, what a turn writes does not depend on the page cache. -/
theorem establishReg_lga {t t' : ResumeState} (hmem : t'.mem = t.mem) (hval : t'.val = t.val)
    (reg : ℕ) : (establishReg msyncValidate c reg t').mem = (establishReg msyncValidate c reg t).mem ∧
      (establishReg msyncValidate c reg t').val = (establishReg msyncValidate c reg t).val := by
  obtain ⟨value, hread⟩ | ⟨e, hread⟩ := tdepAccessReg_msync c reg
  · obtain ⟨hnew, hnewval⟩ := establishReg_of_ok (hread t'.mem t'.lga)
    obtain ⟨hold, holdval⟩ := establishReg_of_ok (hread t.mem t.lga)
    rw [hnew, hold, hnewval, holdval, hmem]
    exact ⟨rfl, rfl⟩
  · obtain ⟨hnew, hnewval⟩ := establishReg_of_err (hread t'.mem t'.lga)
    obtain ⟨hold, holdval⟩ := establishReg_of_err (hread t.mem t.lga)
    rw [hnew, hold, hnewval, holdval, hmem, hval]
    exact ⟨rfl, rfl⟩

theorem establishMachineState_lga (c : Cursor) (m : Mem) (g g' : Lga) (val : Word) :
    (establishMachineState msyncValidate c ⟨m, g', val⟩).mem =
      (establishMachineState msyncValidate c ⟨m, g, val⟩).mem := by
  have hbelow : ∀ n, (establishBelow msyncValidate c ⟨m, g', val⟩ n).mem =
      (establishBelow msyncValidate c ⟨m, g, val⟩ n).mem ∧
        (establishBelow msyncValidate c ⟨m, g', val⟩ n).val =
          (establishBelow msyncValidate c ⟨m, g, val⟩ n).val := by
    intro n
    induction n with
    | zero => exact ⟨rfl, rfl⟩
    | succ n ih => exact establishReg_lga ih.1 ih.2 n
  exact (hbelow _).1

/-- How a frame is resumed. -/
theorem unwResume_fst (w : Session) (val : Word) :
    (unwResume k v val w).1 =
      (x86_64LocalResume k (establishMachineState v w.st.c ⟨w.mem, w.st.lga, val⟩).mem
        { w.st with
          lga := (establishMachineState v w.st.c ⟨w.mem, w.st.lga, val⟩).lga }).1 := rfl

theorem unfound_resume {t : St} (h : unfound t = unfound s) :
    t.c.sigcontextFormat = s.c.sigcontextFormat ∧ t.c.uc = s.c.uc := by
  rw [eq_withFound h]
  exact ⟨rfl, rfl⟩

/-- **The two ways to resume.** The format in the cursor decides. -/
theorem x86_64LocalResume_of_ok {u : Unit} {t : St}
    (h : dwarfMakeProcInfo k m s = (.ok u, t) ∨ ∃ e, dwarfMakeProcInfo k m s = (.err e, t)) :
    (x86_64LocalResume k m s).1 =
      if s.c.sigcontextFormat ≠ .none then .panic else .ok s.c.uc := by
  have hkeep : unfound t = unfound s := by
    obtain h | ⟨e, h⟩ := h
    · exact dwarfMakeProcInfo_keeps.run h
    · exact dwarfMakeProcInfo_keeps.run h
  obtain ⟨hformat, huc⟩ := unfound_resume hkeep
  obtain ⟨r, hattempt⟩ : ∃ r, Act.attempt (dwarfMakeProcInfo k m) s = (.ok r, t) := by
    obtain h | ⟨e, h⟩ := h
    · exact ⟨_, Act.attempt_of_ok h⟩
    · exact ⟨_, Act.attempt_of_err h⟩
  unfold x86_64LocalResume
  rw [Act.bind_of_ok hattempt, Act.get_bind, hformat, huc]
  split
  · rfl
  · rfl

theorem x86_64LocalResume_of_stuck {r : Res UnwError Unit} {t : St}
    (h : dwarfMakeProcInfo k m s = (r, t)) (hr : r.Stuck) :
    (x86_64LocalResume k m s).1 = (r >>= fun _ => .diverge) := by
  unfold x86_64LocalResume
  rw [Act.attempt_bind_of_stuck h hr]

end Resume

end LibunwindKern
