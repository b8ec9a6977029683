import LibunwindKern.Dwarf.RegLoc
import LibunwindKern.X86.Context
import LibunwindKern.X86.InitCursor

/-!
# Where the machine goes on

`unw_resume` writes the registers of a frame to the saved context and calls `setcontext`.
`resumeMachine` is the machine after that. `frameReg` is a register of the frame that a cursor is
at, and `Anchored` the condition under which the copy reads what it has to read: every location is
the register's own slot in the saved context, or off the context.

* `resume_lands`: from an anchored cursor, the machine goes on with the registers of the frame.
* `resume_returns_from_getcontext`: a cursor that was just initialised resumes the caller of
  `getcontext`.
* `landing_pad`: a frame that was resumed for a handler goes on at the handler, with the arguments
  that were set for it, and in all other registers with the values of the frame.
-/

namespace LibunwindKern

open CProg ByteMem StraightLine Unw

/-! ### The registers of a frame -/

/-- The register is an argument that was set for a handler. -/
def IsArg (c : Cursor) (reg : Fin dwarfNumPreservedRegs) : Prop :=
  reg.val < 2 ∧ c.ehValidMask.getLsbD reg = true

instance (c : Cursor) (reg : Fin dwarfNumPreservedRegs) : Decidable (IsArg c reg) :=
  inferInstanceAs (Decidable (_ ∧ _))

/-- A register of the frame that the cursor is at. -/
def frameReg (m : Mem) (c : Cursor) (reg : Fin dwarfNumPreservedRegs) : Word :=
  if reg = RSP then c.cfa
  else if h : IsArg c reg then c.ehArgs ⟨reg, h.1⟩
  else load64 m (c.loc reg)

/-- Every register can be read, at its own slot in the saved context or off the context. -/
structure Anchored (c : Cursor) : Prop where
  readable : ∀ reg, reg ≠ RSP → CanGet c (c.loc reg)
  place : ∀ reg, reg ≠ RSP → c.loc reg = slot c reg ∨ OffContext c.uc (c.loc reg)

section Copy

variable {c : Cursor} {s : ResumeState} {m : Mem}

theorem tdepAccessReg_frameReg (hread : ∀ reg, reg ≠ RSP → CanGet c (c.loc reg)) (m : Mem)
    (reg : Fin dwarfNumPreservedRegs) (g : Lga) :
    (tdepAccessReg msyncValidate m c reg g).1 = .ok (frameReg m c reg) := by
  have hne : ¬reg.val = 17 := Nat.ne_of_lt reg.isLt
  unfold tdepAccessReg frameReg
  by_cases hsp : reg = RSP
  · subst hsp
    rfl
  · have hsp' : ¬reg.val = 7 := fun h => hsp (Fin.ext h)
    rw [if_neg (fun h => h.elim hne hsp'), if_neg hsp]
    have hget : (dwarfGet msyncValidate m c (c.loc reg) g).1 = .ok (load64 m (c.loc reg)) :=
      (dwarfGet_msync _ _ _).mpr ⟨hread reg hsp, rfl⟩
    by_cases harg : IsArg c reg
    · rw [dif_pos harg, dif_pos harg.1, if_pos harg.2]
      rfl
    · rw [dif_neg harg]
      by_cases hlow : reg.val < 2
      · rw [dif_pos hlow, if_neg fun h => harg ⟨hlow, h⟩]
        exact hget
      · rw [dif_neg hlow, dif_pos reg.isLt]
        exact hget

theorem wanted_frameReg (h : Anchored c) (reg : Fin dwarfNumPreservedRegs) :
    wanted msyncValidate c s reg = frameReg s.mem c reg := by
  unfold wanted
  rw [tdepAccessReg_frameReg h.readable]

/-- What is settled before a register does not change it. -/
theorem load64_settled_loc (h : Anchored c) {reg : Fin dwarfNumPreservedRegs} (hsp : reg ≠ RSP) :
    ∀ n, n ≤ reg.val →
      load64 (settled msyncValidate c s n) (c.loc reg) = load64 s.mem (c.loc reg) := by
  intro n
  induction n with
  | zero => intro _; rfl
  | succ n ih =>
    intro hle
    have hlt : n < dwarfNumPreservedRegs := Nat.lt_trans hle reg.isLt
    rw [settled_succ hlt, load64_store64_of_disjoint, ih (Nat.le_of_succ_le hle)]
    obtain hown | hoff := h.place reg hsp
    · -- its own slot is written after the slots below it
      rw [hown]
      exact slot_disjoint c fun heq => absurd hle (by rw [← heq]; exact Nat.lt_irrefl n)
    · exact hoff _

theorem frameReg_settled (h : Anchored c) (reg : Fin dwarfNumPreservedRegs) :
    frameReg (settled msyncValidate c s reg) c reg = frameReg s.mem c reg := by
  unfold frameReg
  split_ifs with hsp harg
  · rfl
  · rfl
  · exact load64_settled_loc h hsp reg le_rfl

theorem Anchored.copyOrderly (h : Anchored c) : CopyOrderly msyncValidate c s := by
  intro reg
  unfold OrderlyAt
  rw [tdepAccessReg_frameReg h.readable]
  show (tdepAccessReg msyncValidate (settled msyncValidate c s reg) c reg s.lga).1 = _
  rw [tdepAccessReg_frameReg h.readable, frameReg_settled h]

/-- **The copy of an anchored cursor**: the saved context holds the registers of the frame. -/
theorem Anchored.saved (h : Anchored c) :
    ∀ reg, load64 (establishMachineState msyncValidate c s).mem (slot c reg) =
      frameReg s.mem c reg := by
  intro reg
  rw [(establishMachineState_exact_iff c s).mpr h.copyOrderly reg, wanted_frameReg h]

/-- A copy leaves alone what is off the context. -/
theorem establishMachineState_off {a : Word} (hoff : OffContext c.uc a) :
    load64 (establishMachineState msyncValidate c s).mem a = load64 s.mem a := by
  have hbelow : ∀ n, n ≤ dwarfNumPreservedRegs →
      load64 (establishBelow msyncValidate c s n).mem a = load64 s.mem a := by
    intro n
    induction n with
    | zero => intro _; rfl
    | succ n ih =>
      intro hle
      obtain ⟨val, hmem⟩ := establishReg_mem msyncValidate c (establishBelow msyncValidate c s n)
        ⟨n, hle⟩
      have hslot : Disjoint64 (slot c ⟨n, hle⟩) a := hoff _
      rw [establishBelow, hmem, load64_store64_of_disjoint hslot, ih (Nat.le_of_succ_le hle)]
  exact hbelow _ le_rfl

end Copy

/-! ### Resuming -/

/-- `unw_resume` and the `setcontext` it ends in. `regs` are the registers of the machine at the
call of `setcontext`, whose argument is the saved context. -/
def resumeMachine (k : Kernel) (v : Validator) (val : Word)
    (regs : Fin dwarfNumPreservedRegs → Word) (w : Session) : Res UnwError Machine := do
  let uc ← (unwResume k v val w).1
  .ok (call setcontext ⟨Function.update regs RDI uc, (unwResume k v val w).2.mem⟩)

section Resume

variable {k : Kernel} {val : Word} {regs : Fin dwarfNumPreservedRegs → Word} {w : Session}
  {t : Machine}

theorem resumeMachine_of_ok {v : Validator} {uc : Word} (regs : Fin dwarfNumPreservedRegs → Word)
    (h : (unwResume k v val w).1 = .ok uc) :
    resumeMachine k v val regs w =
      .ok (call setcontext ⟨Function.update regs RDI uc, (unwResume k v val w).2.mem⟩) := by
  unfold resumeMachine
  rw [h]
  rfl

theorem unwResume_mem (v : Validator) :
    (unwResume k v val w).2.mem =
      (establishMachineState v w.st.c ⟨w.mem, w.st.lga, val⟩).mem := rfl

/-- **How a resumption ends.** It comes to `setcontext` with the saved context of the cursor, or it
does not come back. It never returns an error. -/
theorem unwResume_ends (v : Validator) :
    (unwResume k v val w).1 = .ok w.st.c.uc ∨ (unwResume k v val w).1.Stuck := by
  rw [unwResume_fst]
  generalize hm : (establishMachineState v w.st.c ⟨w.mem, w.st.lga, val⟩).mem = m
  generalize hs : ({ w.st with lga := (establishMachineState v w.st.c ⟨w.mem, w.st.lga, val⟩).lga } :
    St) = s
  have huc : s.c.uc = w.st.c.uc := by rw [← hs]
  rw [← huc]
  have hends : ∀ {u : Unit} {t : St},
      (dwarfMakeProcInfo k m s = (.ok u, t) ∨ ∃ e, dwarfMakeProcInfo k m s = (.err e, t)) →
      (x86_64LocalResume k m s).1 = .ok s.c.uc ∨ (x86_64LocalResume k m s).1.Stuck := by
    intro u t h
    rw [x86_64LocalResume_of_ok h]
    split
    · exact Or.inr ⟨nofun, nofun⟩
    · exact Or.inl rfl
  rcases hinfo : dwarfMakeProcInfo k m s with ⟨r, s'⟩
  obtain ⟨u, rfl⟩ | ⟨e, rfl⟩ | hstuck := r.ok_or_err_or_stuck
  · exact hends (Or.inl hinfo)
  · exact hends (u := ()) (Or.inr ⟨e, hinfo⟩)
  · rw [x86_64LocalResume_of_stuck hinfo hstuck]
    exact Or.inr (hstuck.bind _)

theorem unwResume_uc {v : Validator} {uc : Word} (h : (unwResume k v val w).1 = .ok uc) :
    uc = w.st.c.uc := by
  obtain hok | hstuck := unwResume_ends (k := k) (w := w) v
  · exact Res.ok.inj (h.symm.trans hok)
  · exact absurd h (hstuck.1 uc)

/-- The word below the stack pointer of the frame is not a slot that is read after it was
written. -/
def StackClear (c : Cursor) : Prop := ∀ reg ∈ [RCX, RDI], Disjoint64 (c.cfa - 8) (slot c reg)

instance (c : Cursor) : Decidable (StackClear c) := inferInstanceAs (Decidable (∀ _ ∈ _, _))

/-- **Landing.** From an anchored cursor the machine goes on with the registers of the frame. `R10`
and `R11` are not restored. Off the saved context, and off the word below the stack pointer, memory
is as it was. -/
theorem resume_lands (h : Anchored w.st.c) (hstack : StackClear w.st.c)
    (hrun : resumeMachine k msyncValidate val regs w = .ok t) :
    (∀ reg, t.reg reg = if Saved reg then frameReg w.mem w.st.c reg else regs reg) ∧
      ∀ a, OffContext w.st.c.uc a → Disjoint64 (w.st.c.cfa - 8) a →
        load64 t.mem a = load64 w.mem a := by
  obtain ⟨uc, hresume, hcall⟩ := Res.bind_eq_ok hrun
  obtain rfl := unwResume_uc hresume
  cases hcall
  -- the machine when `setcontext` is called
  obtain ⟨u, hu⟩ : ∃ u : Machine, u = ⟨Function.update regs RDI w.st.c.uc,
    (unwResume k msyncValidate val w).2.mem⟩ := ⟨_, rfl⟩
  have hmem : u.mem = (establishMachineState msyncValidate w.st.c ⟨w.mem, w.st.lga, val⟩).mem := by
    rw [hu]
    exact unwResume_mem (k := k) msyncValidate
  have hdi : u.reg RDI = w.st.c.uc := by
    rw [hu]
    exact Function.update_self RDI w.st.c.uc regs
  have hsp : frameReg w.mem w.st.c RSP = w.st.c.cfa := rfl
  obtain ⟨hreg, hpush⟩ := setcontext_restores (t := u) (frameReg w.mem w.st.c)
    (fun reg _ => by
      rw [hmem, hdi]
      exact h.saved reg)
    (fun reg hlast => by
      rw [hsp, hdi]
      exact hstack reg hlast)
  rw [← hu]
  refine ⟨fun reg => ?_, fun a hoff hbelow => ?_⟩
  · rw [hreg]
    unfold restored
    by_cases hsave : Saved reg
    · rw [if_pos hsave, if_pos hsave]
    · have hne : reg ≠ RDI := by
        rintro rfl
        exact hsave (by decide)
      rw [if_neg hsave, if_neg hsave, hu]
      exact Function.update_of_ne hne _ _
  · rw [hpush, hsp, load64_store64_of_disjoint hbelow, hmem, establishMachineState_off hoff]

end Resume

/-! ### A cursor that was just initialised -/

/-- No slot of the saved context at `uc` is at the address zero. -/
def ContextAt (uc : Word) : Prop := ∀ reg, uc + ucOffset reg ≠ 0

instance (uc : Word) : Decidable (ContextAt uc) := inferInstanceAs (Decidable (∀ _, _))

theorem initialCursor_anchored {uc : Word} (h : ContextAt uc) (m : Mem) (c : Cursor) :
    Anchored (initialCursor m uc c) :=
  ⟨fun reg _ => ⟨h reg, nofun⟩, fun _ _ => Or.inl rfl⟩

/-- What a new cursor holds for a register: the saved one, or an argument of a handler that was in
the mask before. -/
theorem frameReg_initial (m : Mem) (uc : Word) (c : Cursor) (reg : Fin dwarfNumPreservedRegs) :
    frameReg m (initialCursor m uc c) reg =
      if h : IsArg c reg then c.ehArgs ⟨reg, h.1⟩ else load64 m (uc + ucOffset reg) := by
  unfold frameReg
  by_cases hsp : reg = RSP
  · subst hsp
    rfl
  · rw [if_neg hsp]
    rfl

theorem callerRegs_arg (s : Machine) (i : Fin 2) :
    callerRegs s (argColumn i) = s.reg (argColumn i) := by
  have hne : argColumn i ≠ RSP ∧ argColumn i ≠ RIP := by
    revert i
    decide
  rw [callerRegs, Function.update_of_ne hne.1, Function.update_of_ne hne.2]

-- the values of the registers are compared as they are, without their bytes
attribute [local irreducible] load64

/-- **Resuming at once.** A context was saved by `getcontext` on the machine `s`, and a cursor was
initialised on it, over the prior contents `st`. Resuming it goes on in the caller of `getcontext`
with the registers it had, if and only if the prior contents had no argument of a handler in the
mask, or the very value of the register. -/
theorem resume_returns_from_getcontext (k : Kernel) {val : Word}
    {regs : Fin dwarfNumPreservedRegs → Word} {s t : Machine} (st : St)
    (huc : ContextAt (s.reg RDI)) (hstack : OffContext (s.reg RDI) (s.reg RSP))
    (hrun : resumeMachine k msyncValidate val regs
      ⟨(unwInitLocal msyncValidate (call getcontext s).mem (s.reg RDI) st).2,
        (call getcontext s).mem⟩ = .ok t) :
    t.reg = (fun reg => if Saved reg then callerRegs s reg else regs reg) ↔
      ∀ i : Fin 2, st.c.ehValidMask.getLsbD i = true → st.c.ehArgs i = s.reg (argColumn i) := by
  obtain ⟨-, hsaved⟩ := getcontext_saves hstack
  rw [unwInitLocal_eq (huc RIP) (huc RSP)] at hrun
  generalize hm : (call getcontext s).mem = m at hsaved hrun
  have hcfa : load64 m (s.reg RDI + ucOffset RSP) - 8 = s.reg RSP := by
    rw [hsaved RSP (by decide), callerRegs, Function.update_self]
    exact add_sub_cancel_right _ _
  have hclear : StackClear (initialCursor m (s.reg RDI) st.c) := by
    intro reg _
    show Disjoint64 (load64 m (s.reg RDI + ucOffset RSP) - 8) (s.reg RDI + ucOffset reg)
    rw [hcfa]
    exact Disjoint64.symm (hstack reg)
  obtain ⟨hlands, -⟩ := resume_lands
    (w := ⟨{ st with c := initialCursor m (s.reg RDI) st.c }, m⟩)
    (initialCursor_anchored huc m st.c) hclear hrun
  simp only [frameReg_initial] at hlands
  constructor
  · intro hregs i hbit
    have harg : IsArg st.c (argColumn i) := ⟨i.isLt, hbit⟩
    have hsave : ∀ i, Saved (argColumn i) := by decide
    have hreg := congrFun hregs (argColumn i)
    rw [hlands, if_pos (hsave i), if_pos (hsave i), dif_pos harg, callerRegs_arg] at hreg
    exact hreg
  · intro hargs
    funext reg
    rw [hlands]
    by_cases hsave : Saved reg
    · rw [if_pos hsave, if_pos hsave]
      by_cases harg : IsArg st.c reg
      · rw [dif_pos harg]
        exact (hargs ⟨reg, harg.1⟩ harg.2).trans (callerRegs_arg s ⟨reg, harg.1⟩).symm
      · rw [dif_neg harg, hsaved reg hsave]
    · rw [if_neg hsave, if_neg hsave]

/-! ### A frame that is resumed for a handler -/

/-- Calls of `unw_set_reg`, one after the other. -/
def setRegs : List (Fin dwarfNumPreservedRegs × Word) → Act UnwError Session Unit
  | [] => pure ()
  | x :: ws => do
    unwSetReg x.1 x.2
    setRegs ws

/-- Registers that were overwritten in this order. -/
def overwrite (ws : List (Fin dwarfNumPreservedRegs × Word))
    (regs : Fin dwarfNumPreservedRegs → Word) : Fin dwarfNumPreservedRegs → Word :=
  ws.foldl (fun regs x => Function.update regs x.1 x.2) regs

theorem overwrite_congr {f g : Fin dwarfNumPreservedRegs → Word} {reg : Fin dwarfNumPreservedRegs}
    (h : f reg = g reg) (ws : List (Fin dwarfNumPreservedRegs × Word)) :
    overwrite ws f reg = overwrite ws g reg := by
  induction ws generalizing f g with
  | nil => exact h
  | cons x ws ih =>
    refine ih (show Function.update f x.1 x.2 reg = Function.update g x.1 x.2 reg from ?_)
    by_cases heq : reg = x.1
    · rw [heq, Function.update_self, Function.update_self]
    · rw [Function.update_of_ne heq, Function.update_of_ne heq, h]

/-- The registers that are overwritten are among the ones that are restored. -/
theorem overwrite_saved (regs junk : Fin dwarfNumPreservedRegs → Word) :
    ∀ ws : List (Fin dwarfNumPreservedRegs × Word), (∀ x ∈ ws, Saved x.1) →
      (fun reg => if Saved reg then overwrite ws regs reg else junk reg) =
        overwrite ws fun reg => if Saved reg then regs reg else junk reg
  | [], _ => rfl
  | x :: ws, h => by
    refine (overwrite_saved (Function.update regs x.1 x.2) junk ws fun y hy =>
      h y (List.mem_cons_of_mem _ hy)).trans (congrArg (overwrite ws) (funext fun reg => ?_))
    show _ = Function.update (fun reg => if Saved reg then regs reg else junk reg) x.1 x.2 reg
    by_cases heq : reg = x.1
    · subst heq
      rw [if_pos (h x List.mem_cons_self), Function.update_self, Function.update_self]
    · rw [Function.update_of_ne heq, Function.update_of_ne heq]

/-- The location of a register shares no byte with the ones of the other registers. The arguments
of a handler are not stored there. -/
def LocApart (c : Cursor) (i : Fin dwarfNumPreservedRegs) : Prop :=
  2 ≤ i.val → ∀ j, j ≠ RSP → j ≠ i → Disjoint64 (c.loc i) (c.loc j)

instance (c : Cursor) : DecidablePred (LocApart c) := fun _ => inferInstanceAs (Decidable (_ → _))

section Handler

variable {w u : Session} {reg : Fin dwarfNumPreservedRegs}

/-- What a write of a register leaves alone. -/
structure SamePlaces (c c' : Cursor) : Prop where
  loc : c'.loc = c.loc
  cfa : c'.cfa = c.cfa
  uc : c'.uc = c.uc
  validate : c'.validate = c.validate

theorem SamePlaces.trans {a b c : Cursor} (h : SamePlaces a b) (h' : SamePlaces b c) :
    SamePlaces a c :=
  ⟨h'.loc.trans h.loc, h'.cfa.trans h.cfa, h'.uc.trans h.uc, h'.validate.trans h.validate⟩

theorem SamePlaces.anchored {c c' : Cursor} (h : SamePlaces c c') (hc : Anchored c) :
    Anchored c' := by
  have hslot : ∀ reg, slot c' reg = slot c reg := fun reg => by
    unfold slot
    rw [h.uc]
  refine ⟨fun reg hsp => ?_, fun reg hsp => ?_⟩
  · unfold CanGet
    rw [h.loc, h.validate]
    exact hc.readable reg hsp
  · rw [h.loc, hslot, h.uc]
    exact hc.place reg hsp

/-- A store at the location of a register changes this register only. -/
theorem frameReg_store {m : Mem} {c : Cursor} (hapart : LocApart c reg) (hsp : reg ≠ RSP)
    (hhigh : 2 ≤ reg.val) (val : Word) :
    frameReg (store64 m (c.loc reg) val) c = Function.update (frameReg m c) reg val := by
  funext other
  by_cases heq : other = reg
  · subst heq
    have harg : ¬IsArg c other := fun h => Nat.not_lt_of_le hhigh h.1
    rw [Function.update_self, frameReg, if_neg hsp, dif_neg harg, load64_store64_self]
  · rw [Function.update_of_ne heq]
    unfold frameReg
    split_ifs with hcfa hset
    · rfl
    · rfl
    · exact load64_store64_of_disjoint (hapart hhigh other hcfa heq)

/-- An argument for the handler is set in the cursor. -/
theorem frameReg_withArg (i : Fin 2) (val : Word) :
    frameReg (w.withArg i val).mem (w.withArg i val).st.c =
      Function.update (frameReg w.mem w.st.c) (argColumn i) val := by
  funext other
  have hcfa : ∀ i, argColumn i ≠ RSP := by decide
  by_cases heq : other = argColumn i
  · subst heq
    have hset : IsArg (w.withArg i val).st.c (argColumn i) := by
      refine ⟨i.isLt, ?_⟩
      show (w.st.c.ehValidMask ||| (1 <<< i.val)).getLsbD i = true
      rw [getLsbD_or_one, decide_eq_true rfl, Bool.or_true]
    rw [Function.update_self, frameReg, if_neg (hcfa i), dif_pos hset]
    exact Function.update_self i val w.st.c.ehArgs
  · rw [Function.update_of_ne heq]
    have hother : IsArg (w.withArg i val).st.c other ↔ IsArg w.st.c other := by
      refine and_congr_right fun hlow => ?_
      have hne : ¬i = ⟨other, hlow⟩ := fun h => heq (Fin.ext (congrArg Fin.val h).symm)
      show (w.st.c.ehValidMask ||| (1 <<< i.val)).getLsbD other = true ↔ _
      rw [show other.val = (⟨other, hlow⟩ : Fin 2).val from rfl, getLsbD_or_one,
        decide_eq_false hne, Bool.or_false]
    unfold frameReg
    by_cases hsp : other = RSP
    · rw [if_pos hsp, if_pos hsp]
      rfl
    · rw [if_neg hsp, if_neg hsp]
      by_cases hset : IsArg w.st.c other
      · rw [dif_pos hset, dif_pos (hother.mpr hset)]
        have hne : (⟨other, hset.1⟩ : Fin 2) ≠ i := fun h => heq (Fin.ext (congrArg Fin.val h :))
        exact Function.update_of_ne hne val w.st.c.ehArgs
      · rw [dif_neg hset, dif_neg fun h => hset (hother.mp h)]
        rfl

/-- **One register is set.** The write succeeds, and of the registers of the frame it changes this
one only. -/
theorem unwSetReg_frameReg (hloc : ∀ reg, reg ≠ RSP → w.st.c.loc reg ≠ 0)
    (hapart : LocApart w.st.c reg) (hsp : reg ≠ RSP) (val : Word) :
    ∃ u, unwSetReg reg val w = (.ok (), u) ∧ SamePlaces w.st.c u.st.c ∧
      frameReg u.mem u.st.c = Function.update (frameReg w.mem w.st.c) reg val := by
  by_cases hlow : reg.val < 2
  · -- an argument is kept in the cursor
    exact ⟨_, unwSetReg_args w ⟨reg, hlow⟩ val, ⟨rfl, rfl, rfl, rfl⟩,
      frameReg_withArg ⟨reg, hlow⟩ val⟩
  · have hstore := frameReg_store (m := w.mem) hapart hsp (Nat.le_of_not_lt hlow) val
    by_cases hip : reg = RIP
    · subst hip
      refine ⟨_, (unwSetReg_rip w val).trans (if_neg (hloc RIP hsp)), ⟨rfl, rfl, rfl, rfl⟩, ?_⟩
      exact hstore
    · have hsaved : IsSaved reg := by
        have hlt : reg.val < 17 := reg.isLt
        have hne : reg.val ≠ 16 := fun h => hip (Fin.ext h)
        exact ⟨Nat.le_of_not_lt hlow, by omega, fun h => hsp (Fin.ext h)⟩
      exact ⟨_, (unwSetReg_saved hsaved w val).trans (if_neg (hloc reg hsp)),
        ⟨rfl, rfl, rfl, rfl⟩, hstore⟩

/-- **Several registers are set**, one after the other. -/
theorem setRegs_frameReg : ∀ (ws : List (Fin dwarfNumPreservedRegs × Word)) (w : Session),
    (∀ x ∈ ws, x.1 ≠ RSP ∧ LocApart w.st.c x.1) → (∀ reg, reg ≠ RSP → w.st.c.loc reg ≠ 0) →
    ∃ u, setRegs ws w = (.ok (), u) ∧ SamePlaces w.st.c u.st.c ∧
      frameReg u.mem u.st.c = overwrite ws (frameReg w.mem w.st.c)
  | [], w, _, _ => ⟨w, rfl, ⟨rfl, rfl, rfl, rfl⟩, rfl⟩
  | x :: ws, w, hws, hloc => by
    obtain ⟨hsp, hapart⟩ := hws x List.mem_cons_self
    obtain ⟨w', hset, hsame, hreg⟩ := unwSetReg_frameReg hloc hapart hsp x.2
    obtain ⟨u, hrest, hsame', hregs⟩ := setRegs_frameReg ws w'
      (fun y hy => by
        unfold LocApart
        rw [hsame.loc]
        exact hws y (List.mem_cons_of_mem _ hy))
      (fun reg hsp => by rw [hsame.loc]; exact hloc reg hsp)
    refine ⟨u, ?_, hsame.trans hsame', ?_⟩
    · unfold setRegs
      rw [Act.bind_of_ok hset, hrest]
    · rw [hregs, hreg]
      rfl

end Handler

/-! ### A machine that resumes itself -/

/-- A cursor on the context that `callingMachine` has saved. -/
def callingSession : Session where
  st := (unwInitLocal msyncValidate (call getcontext callingMachine).mem 0x40000 bottomState).2
  mem := (call getcontext callingMachine).mem

/-- It goes on after its call of `getcontext`. -/
theorem resume_returns_from_getcontext_calling :
    ∃ t, resumeMachine bareKernel msyncValidate 0 (fun _ => 7) callingSession = .ok t ∧
      t.reg = fun reg => if Saved reg then callerRegs callingMachine reg else 7 := by
  have hok : (unwResume bareKernel msyncValidate 0 callingSession).1 = .ok 0x40000 := by
    decide +kernel
  have hrun := resumeMachine_of_ok (fun _ => 7) hok
  exact ⟨_, hrun, (resume_returns_from_getcontext (s := callingMachine) bareKernel
    bottomState (by decide +kernel) (by decide +kernel) hrun).mpr
      fun i h => absurd (h.symm.trans BitVec.getLsbD_zero) (by decide)⟩

/-- A handler at `0x9000` that expects an exception object and a selector. -/
def handlerWrites : List (Fin dwarfNumPreservedRegs × Word) :=
  [(RAX, 0x111), (RDX, 2), (RIP, 0x9000)]

end LibunwindKern
