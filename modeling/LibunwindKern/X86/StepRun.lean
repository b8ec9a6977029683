import LibunwindKern.Dwarf.CallSite
import LibunwindKern.Dwarf.Ownership
import LibunwindKern.X86.StepResult
import Mathlib.Logic.Relation

/-!
# Sequences of steps

The fallback of `unw_step` writes the frame in the cursor and nothing that the lookup of the
procedure has written, so that after `unw_step` this part of the state is as `dwarf_step` has
left it (`unwStep_found`). What `dwarf_step` does to it carries over to sequences of steps.

* `unwind_info_returned_iff`: when the pool of unwind info is as full after a step as before,
  and that it stays so over a sequence of such steps.
-/

namespace LibunwindKern

open CProg ByteMem Unw

/-! ### The fallback -/

section Fallback

variable (v : Validator) (m : Mem)

theorem accessMemAt_reframes (addr : Word) : Act.Moves Reframed (accessMemAt v m addr) :=
  read_reframes _

theorem sigcontextFormatAt_reframes (ip : Word) :
    Act.Moves Reframed (sigcontextFormatAt v m ip) := by
  refine Act.Moves.bind (accessMemAt_reframes v m _) fun w0 => ?_
  refine Act.Moves.bind (accessMemAt_reframes v m _) fun w1 => ?_
  refine Act.Moves.bind (accessMemAt_reframes v m _) fun w2 => ?_
  split
  · exact Act.Moves.pure _
  · refine Act.Moves.bind (accessMemAt_reframes v m _) fun b0 => ?_
    split
    · exact Act.Moves.pure _
    · exact Act.Moves.pure _

theorem unwIsSignalFrame_reframes : Act.Moves Reframed (unwIsSignalFrame v m) := by
  refine Act.Moves.bind (setCursor_reframes fun _ => ⟨rfl, rfl, rfl, rfl, id, rfl⟩) fun _ => ?_
  refine Act.Moves.bind Act.Moves.get fun s => ?_
  refine Act.Moves.bind (sigcontextFormatAt_reframes v m _).attempt fun format => ?_
  split
  · exact Act.Moves.pure _
  · exact Act.Moves.bind (setCursor_reframes fun _ => ⟨rfl, rfl, rfl, rfl, id, rfl⟩) fun _ =>
      Act.Moves.pure _

theorem unwHandleSignalFrame_reframes : Act.Moves Reframed (unwHandleSignalFrame v m) := by
  refine Act.Moves.bind Act.Moves.get fun s => ?_
  split
  · refine Act.Moves.bind (setCursor_reframes fun _ => ⟨rfl, rfl, rfl, rfl, id, rfl⟩) fun _ => ?_
    refine Act.Moves.bind (read_reframes _) fun cfa => ?_
    exact Act.Moves.bind (setCursor_reframes fun _ => ⟨rfl, rfl, rfl, rfl, id, rfl⟩) fun _ =>
      Act.Moves.pure _
  · refine Act.Moves.bind (setLoc_reframes _ _) fun _ => ?_
    refine Act.Moves.bind (setLoc_reframes _ _) fun _ => ?_
    refine Act.Moves.bind (read_reframes _) fun ip => ?_
    exact Act.Moves.bind (setCursor_reframes fun _ => ⟨rfl, rfl, rfl, rfl, id, rfl⟩) fun _ =>
      Act.Moves.pure _
  · exact Act.Moves.fail _

theorem isPltEntry_reframes : Act.Moves Reframed (isPltEntry v m) := by
  refine Act.Moves.bind Act.Moves.get fun s => ?_
  refine Act.Moves.bind (Act.Moves.attempt ?_) fun w => ?_
  · exact Act.Moves.bind (accessMemAt_reframes v m _) fun _ =>
      Act.Moves.bind (accessMemAt_reframes v m _) fun _ => Act.Moves.pure _
  · split
    · exact Act.Moves.pure _
    · exact Act.Moves.pure _

theorem guessFrame_reframes (rbp : Word) : Act.Moves Reframed (guessFrame v m rbp) := by
  refine Act.Moves.bind Act.Moves.get fun s => ?_
  refine Act.Moves.bind (read_reframes _).attempt fun ret => ?_
  refine Act.Moves.bind (setCursor_reframes fun _ => ⟨rfl, rfl, rfl, rfl, nofun, rfl⟩) fun _ => ?_
  refine Act.Moves.bind (read_reframes _).attempt fun prevRbp => ?_
  split
  · exact Act.Moves.lift _
  · refine Act.Moves.bind (setCursor_reframes fun _ => ⟨rfl, rfl, rfl, rfl, id, rfl⟩) fun _ => ?_
    split
    · exact Act.Moves.bind (setCursor_reframes fun _ => ⟨rfl, rfl, rfl, rfl, id, rfl⟩) fun _ =>
        Act.Moves.pure _
    · exact Act.Moves.bind (setCursor_reframes fun _ => ⟨rfl, rfl, rfl, rfl, id, rfl⟩) fun _ =>
        Act.Moves.pure _

theorem frameChain_reframes : Act.Moves Reframed (frameChain v m) := by
  refine Act.Moves.bind Act.Moves.get fun s => ?_
  refine Act.Moves.bind (read_reframes _) fun rbp => ?_
  split
  · exact Act.Moves.bind (setCursor_reframes fun _ => ⟨rfl, rfl, rfl, rfl, id, rfl⟩) fun _ =>
      Act.Moves.pure _
  · exact guessFrame_reframes v m rbp

theorem fallbackFrame_reframes : Act.Moves Reframed (fallbackFrame v m) := by
  refine Act.Moves.bind (unwIsSignalFrame_reframes v m) fun format => ?_
  split
  · refine Act.Moves.bind (unwHandleSignalFrame_reframes v m).attempt fun ret => ?_
    split
    · exact Act.Moves.pure _
    · exact Act.Moves.pure _
  · refine Act.Moves.bind (isPltEntry_reframes v m) fun plt => ?_
    refine Act.Moves.bind Act.Moves.get fun s => ?_
    split
    · exact Act.Moves.bind (setCursor_reframes fun _ => ⟨rfl, rfl, rfl, rfl, nofun, rfl⟩) fun _ =>
        Act.Moves.pure _
    · split
      · exact Act.Moves.bind (setCursor_reframes fun _ => ⟨rfl, rfl, rfl, rfl, id, rfl⟩) fun _ =>
          Act.Moves.pure _
      · exact Act.Moves.bind (frameChain_reframes v m) fun _ => Act.Moves.pure _

theorem fallbackReturn_reframes (ret : Except UnwError ℕ) :
    Act.Moves Reframed (fallbackReturn v m ret) := by
  refine Act.Moves.bind Act.Moves.get fun s => ?_
  split
  · refine Act.Moves.bind (read_reframes _) fun ip => ?_
    exact Act.Moves.bind (setCursor_reframes fun _ => ⟨rfl, rfl, rfl, rfl, id, rfl⟩) fun _ =>
      Act.Moves.pure _
  · exact Act.Moves.bind (setCursor_reframes fun _ => ⟨rfl, rfl, rfl, rfl, id, rfl⟩) fun _ =>
      Act.Moves.pure _

theorem fallbackFinish_reframes (prevIp prevCfa : Word) (ret : Except UnwError ℕ) :
    Act.Moves Reframed (fallbackFinish v m prevIp prevCfa ret) := by
  refine Act.Moves.bind (setCursor_reframes fun _ => ⟨rfl, rfl, rfl, rfl, id, rfl⟩) fun _ => ?_
  refine Act.Moves.bind Act.Moves.get fun s => ?_
  split
  · exact Act.Moves.pure _
  · refine Act.Moves.bind (fallbackReturn_reframes v m ret) fun ret => ?_
    refine Act.Moves.bind Act.Moves.get fun s => ?_
    split
    · exact Act.Moves.fail _
    · split
      · exact Act.Moves.pure _
      · exact Act.Moves.fail _

/-- **The fallback** writes the frame in the cursor and nothing else. -/
theorem stepFallback_reframes : Act.Moves Reframed (stepFallback v m) := by
  refine Act.Moves.bind Act.Moves.get fun s => ?_
  refine Act.Moves.bind (setCursor_reframes fun _ => ⟨rfl, rfl, rfl, rfl, id, rfl⟩) fun _ => ?_
  refine Act.Moves.bind (fallbackFrame_reframes v m) fun ret => ?_
  split
  · exact Act.Moves.pure _
  · exact fallbackFinish_reframes v m _ _ _

end Fallback

/-! ### One step -/

section Step

variable {k : Kernel} {v : Validator} {m : Mem} {fuel : ℕ} {s t : St}

/-- What `unw_step` does after `dwarf_step`. -/
def afterDwarfStep (v : Validator) (m : Mem) (validate : Bool) (ret : Except UnwError ℕ) :
    Unw ℕ := do
  setCursor fun c => { c with validate := validate }
  match ret with
  | .ok n => do
    let t ← Act.get
    if t.c.loc RBP = 0 then do
      setCursor fun c => { c with ip := 0 }
      pure 0
    else
      pure n
  | .error e => if e = .enoinfo then stepFallback v m else Act.fail e

theorem unwStep_eq (s : St) :
    unwStep k v m fuel s =
      (Act.attempt (dwarfStep k v m fuel) >>= afterDwarfStep v m s.c.validate) (arm s) := rfl

theorem afterDwarfStep_reframes (validate : Bool) (ret : Except UnwError ℕ) :
    Act.Moves Reframed (afterDwarfStep v m validate ret) := by
  refine Act.Moves.bind (setCursor_reframes fun _ => ⟨rfl, rfl, rfl, rfl, id, rfl⟩) fun _ => ?_
  split
  · refine Act.Moves.bind Act.Moves.get fun t => ?_
    split
    · exact Act.Moves.bind (setCursor_reframes fun _ => ⟨rfl, rfl, rfl, rfl, id, rfl⟩) fun _ =>
        Act.Moves.pure _
    · exact Act.Moves.pure _
  · split
    · exact stepFallback_reframes v m
    · exact Act.Moves.fail _

/-- **A step leaves what `dwarf_step` has found.** -/
theorem unwStep_found {r : Res UnwError ℕ} (h : unwStep k v m fuel s = (r, t)) :
    found t = found (dwarfStep k v m fuel (arm s)).2 := by
  have hafter : ∀ ret, Act.Keeps found (afterDwarfStep v m s.c.validate ret) :=
    fun ret t => congrArg Prod.fst (afterDwarfStep_reframes s.c.validate ret t).aside
  have hrun := congrArg (fun x : Res UnwError ℕ × St => found x.2) h
  rw [unwStep_eq, Act.Keeps.bind_snd hafter, Act.attempt_snd] at hrun
  exact hrun.symm

/-- A step whose lookup takes no object. -/
def CleanStep (s t : St) : Prop :=
  ∃ k v m fuel r, TakesNone k m s ∧ unwStep k v m fuel s = (r, t)

theorem CleanStep.live (h : CleanStep s t) : t.ciePool.live = s.ciePool.live := by
  obtain ⟨k, v, m, fuel, r, hnone, hrun⟩ := h
  have hfound := unwStep_found hrun
  have hpool : t.ciePool = (dwarfStep k v m fuel (arm s)).2.ciePool :=
    congrArg Found.ciePool hfound
  rw [hpool]
  -- the setting of `validate` has no influence on the lookup
  exact (dwarfStep_balanced_iff (s := arm s) rfl).2 (Or.inl hnone)

/-- **No unwind info is leaked** by a call of `dwarf_step` exactly if its lookup takes none,
or if the call succeeds with the object of an FDE that does not cover the address. Over a
sequence of steps that take no object the number of objects in use does not change. -/
theorem unwind_info_returned_iff (s t : St) :
    (∀ (k : Kernel) (v : Validator) (m : Mem) (fuel : ℕ) (r : Res UnwError ℕ),
      dwarfStep k v m fuel s = (r, t) →
      (t.ciePool.live = s.ciePool.live ↔ TakesNone k m s ∨ TakesStale k m s ∧ r = .ok 1)) ∧
    (Relation.ReflTransGen CleanStep s t → t.ciePool.live = s.ciePool.live) := by
  refine ⟨fun k v m fuel r h => dwarfStep_balanced_iff h, fun hrun => ?_⟩
  induction hrun with
  | refl => rfl
  | tail _ hstep ih => exact hstep.live.trans ih

end Step

theorem bareKernel_takesNone (m : Mem) (s : St) : TakesNone bareKernel m s :=
  ⟨id, fun h => h.2⟩

/-- The step at the bottom of a stack, without unwind info. -/
theorem unwind_info_returned_bottom :
    Relation.ReflTransGen CleanStep bottomState
        (unwStep bareKernel msyncValidate bottomMem 0 bottomState).2 ∧
      (unwStep bareKernel msyncValidate bottomMem 0 bottomState).2.ciePool.live = 0 := by
  have hstep : CleanStep bottomState (unwStep bareKernel msyncValidate bottomMem 0 bottomState).2 :=
    ⟨bareKernel, msyncValidate, bottomMem, 0, _, bareKernel_takesNone _ _, rfl⟩
  exact ⟨.single hstep, (unwind_info_returned_iff _ _).2 (.single hstep)⟩

/-- A step with an FDE of the dynamic list succeeds, and the object it took is not put
back. -/
theorem unwind_info_leaked :
    (dwarfStep twoRowsKernel msyncValidate twoRowsMem 9 (callFrame 0x5012)).1 = .ok 1 ∧
      (callFrame 0x5012).ciePool.live = 0 ∧
      (dwarfStep twoRowsKernel msyncValidate twoRowsMem 9 (callFrame 0x5012)).2.ciePool.live =
        1 := by
  decide +kernel

end LibunwindKern
