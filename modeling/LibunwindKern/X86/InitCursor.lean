import LibunwindKern.X86.RegWrite
import LibunwindKern.X86.UnsetFields

/-!
# Does `unw_init_local` determine the cursor?

The calls on a cursor after `unw_init_local` may see what the caller's stack held before only
through the fields that are not set. `LaterCall` is such a call, or a write of somebody else to the
memory, and `outcomes` is what the calls return one after the other.

None of the calls sees the prior contents, except for the arguments of a handler that are in the
mask (`outcomes_putPrior`). The mask is not set either. So the cursor is determined if and only if
the bits of `RAX` and `RDX` were clear in the prior contents (`init_determines_iff`).
-/

namespace LibunwindKern

open CProg ByteMem Unw

/-! ### The calls on a cursor -/

/-- A call on a cursor, or another memory between two calls. -/
inductive LaterCall where
  | getReg (v : Validator) (reg : ℕ)
  | setReg (reg : ℕ) (val : Word)
  | step (k : Kernel) (v : Validator) (fuel : ℕ)
  -- `val` is the variable of `establish_machine_state`
  | resume (k : Kernel) (v : Validator) (val : Word)
  | getProcInfo (k : Kernel)
  | isSignalFrame (v : Validator)
  | memory (m : Mem)

/-- What a call returns. -/
inductive CallResult where
  | done
  | word (w : Word)
  | count (n : ℕ)
  | procInfo (pi : ProcInfo)
  | format (f : SigcontextFormat)

def LaterCall.run : LaterCall → Act UnwError Session CallResult
  | .getReg v reg => do
    let val ← Session.onCursor fun m => read fun c => unwGetReg v m c reg
    pure (.word val)
  | .setReg reg val => do
    unwSetReg reg val
    pure .done
  | .step k v fuel => do
    let n ← Session.onCursor fun m => unwStep k v m fuel
    pure (.count n)
  | .resume k v val => do
    let uc ← unwResume k v val
    pure (.word uc)
  | .getProcInfo k => do
    let pi ← Session.onCursor (unwGetProcInfo k)
    pure (.procInfo pi)
  | .isSignalFrame v => do
    let format ← Session.onCursor (unwIsSignalFrame v)
    pure (.format format)
  | .memory m => do
    Act.modify fun w => { w with mem := m }
    pure .done

/-- What the calls return one after the other, each with the memory that it leaves. -/
def outcomes : List LaterCall → Session → List (Res UnwError CallResult × Mem)
  | [], _ => []
  | call :: calls, w => ((call.run w).1, (call.run w).2.mem) :: outcomes calls (call.run w).2

/-! ### What the calls see -/

/-- Put the prior contents into the state of a session. -/
def putSession (g : Prior) (w : Session) : Session := { w with st := putPrior g w.st }

section Calls

variable (k : Kernel) (v : Validator)

theorem onCursor_ignores {α : Type} {x : Mem → Unw α} (h : ∀ m, Act.Ignores putPrior (x m)) :
    Act.Ignores putSession (Session.onCursor x) :=
  Act.Ignores.get_bind (fun _ _ => rfl) fun w =>
    (h w.mem).zoom (fun _ g => ⟨g, rfl⟩) fun _ _ _ g' => ⟨g', rfl⟩

theorem unwGetReg_ignores (m : Mem) (reg : ℕ) :
    Act.Ignores putPrior (read fun c => unwGetReg v m c reg) :=
  putPrior_frameBlind.read fun g s => by rw [putPrior_frameBlind.unwGetReg]

/-- The bit of an argument is one of the two lowest. -/
theorem mask_or_arg (mask prior : BitVec 32) (i : Fin 2) :
    ((mask &&& (3 : BitVec 32)) ||| (prior &&& ~~~(3 : BitVec 32))) |||
        ((1 <<< i.val : ℕ) : BitVec 32) =
      ((mask ||| ((1 <<< i.val : ℕ) : BitVec 32)) &&& (3 : BitVec 32)) |||
        (prior &&& ~~~(3 : BitVec 32)) := by
  have hlow : ((1 <<< i.val : ℕ) : BitVec 32) &&& (3 : BitVec 32) =
      ((1 <<< i.val : ℕ) : BitVec 32) := by
    revert i
    decide
  rw [BitVec.and_or_distrib_right, hlow, BitVec.or_assoc, BitVec.or_assoc,
    BitVec.or_comm (prior &&& ~~~(3 : BitVec 32))]

/-- An argument that is written is not a prior one. -/
theorem withArgs_update (w : Session) (g : Prior) (i : Fin 2) (val : Word) :
    Function.update (w.st.c.withPrior g).ehArgs i val =
      ((w.withArg i val).st.c.withPrior g).ehArgs := by
  funext j
  show Function.update (w.st.c.withPrior g).ehArgs i val j =
    if (w.st.c.ehValidMask ||| (1 <<< i.val)).getLsbD j
      then Function.update w.st.c.ehArgs i val j else g.ehArgs j
  rw [getLsbD_or_one]
  by_cases hj : j = i
  · rw [hj, decide_eq_true rfl, Bool.or_true, if_pos rfl, Function.update_self, Function.update_self]
  · rw [decide_eq_false (Ne.symm hj), Bool.or_false, Function.update_of_ne hj,
      Function.update_of_ne hj]
    rfl

theorem withArg_prior (w : Session) (g : Prior) (i : Fin 2) (val : Word) :
    (putSession g w).withArg i val = putSession g (w.withArg i val) := by
  have hargs := withArgs_update w g i val
  have hmask : (w.st.c.withPrior g).ehValidMask ||| ((1 <<< i.val : ℕ) : BitVec 32) =
      ((w.withArg i val).st.c.withPrior g).ehValidMask :=
    mask_or_arg w.st.c.ehValidMask g.ehValidMask i
  show (⟨{ putPrior g w.st with c := { (putPrior g w.st).c with
      ehArgs := Function.update (w.st.c.withPrior g).ehArgs i val
      ehValidMask := (w.st.c.withPrior g).ehValidMask ||| ((1 <<< i.val : ℕ) : BitVec 32) } },
    w.mem⟩ : Session) = putSession g (w.withArg i val)
  rw [hargs, hmask]
  rfl

theorem dwarfPut_ignores (loc val : Word) : Act.Ignores putSession (dwarfPut loc val) := by
  unfold dwarfPut
  split
  · exact Act.Ignores.fail _
  · exact Act.Ignores.modify fun _ g => ⟨g, rfl⟩

theorem unwSetReg_ignores (reg : ℕ) (val : Word) : Act.Ignores putSession (unwSetReg reg val) := by
  by_cases harg : reg < 2
  · intro w g
    have hwrite := unwSetReg_args w ⟨reg, harg⟩ val
    have hwrite' := unwSetReg_args (putSession g w) ⟨reg, harg⟩ val
    rw [withArg_prior] at hwrite'
    show Act.Alike putSession (unwSetReg (⟨reg, harg⟩ : Fin 2) val w)
      (unwSetReg (⟨reg, harg⟩ : Fin 2) val (putSession g w))
    rw [hwrite, hwrite']
    exact ⟨rfl, g, rfl⟩
  · refine Act.Ignores.get_bind (fun _ _ => rfl) fun w => ?_
    split
    · exact Act.Ignores.bind (Act.Ignores.modify fun _ g => ⟨g, rfl⟩) fun _ =>
        dwarfPut_ignores _ _
    · split
      · exact Act.Ignores.fail _
      · split
        · exact dwarfPut_ignores _ _
        · exact Act.Ignores.fail _

/-! #### Resuming -/

theorem FrameBlind.establishMachineState {τ : Type} {put : τ → St → St} (h : FrameBlind put) (g : τ)
    (s : St) (t : ResumeState) :
    establishMachineState v (put g s).c t = establishMachineState v s.c t := by
  have hreg : ∀ reg t, establishReg v (put g s).c reg t = establishReg v s.c reg t := by
    intro reg t
    unfold establishReg
    rw [h.getReg, h.uc]
  have hbelow : ∀ n, establishBelow v (put g s).c t n = establishBelow v s.c t n := by
    intro n
    induction n with
    | zero => rfl
    | succ n ih =>
      show establishReg v (put g s).c n (establishBelow v (put g s).c t n) =
        establishReg v s.c n (establishBelow v s.c t n)
      rw [ih, hreg]
  exact hbelow dwarfNumPreservedRegs

theorem dwarfMakeProcInfo_prior (m : Mem) (s : St) (g : Prior) :
    dwarfMakeProcInfo k m (putPrior g s) = dwarfMakeProcInfo k m (putUnset g s) :=
  fetchProcInfo_prior k m s.c.ip false s g

theorem dwarfMakeProcInfo_unset (m : Mem) : IgnoresUnset (dwarfMakeProcInfo k m) :=
  dwarfMakeProcInfo_ignores putUnset_lookupBlind fun _ _ => rfl

theorem x86_64LocalResume_ignores (m : Mem) : Act.Ignores putPrior (x86_64LocalResume k m) := by
  have hunset : IgnoresUnset (x86_64LocalResume k m) := by
    refine (dwarfMakeProcInfo_unset k m).attempt.bind fun _ => ?_
    refine Act.Ignores.get_bind (fun _ _ => rfl) fun s => ?_
    split
    · exact Act.Ignores.lift _
    · exact Act.Ignores.pure _
  refine hunset.prior fun s g => ?_
  exact Act.bind_congr_left _ (Act.attempt_congr (dwarfMakeProcInfo_prior k m s g))

theorem unwResume_ignores (val : Word) : Act.Ignores putSession (unwResume k v val) := by
  refine Act.Ignores.bind ?_ fun _ => onCursor_ignores (x86_64LocalResume_ignores k)
  refine Act.Ignores.modify fun w g => ⟨g, ?_⟩
  have hmachine := putPrior_frameBlind.establishMachineState v g w.st ⟨w.mem, w.st.lga, val⟩
  show (⟨{ putPrior g w.st with lga := (establishMachineState v (putPrior g w.st).c
      ⟨w.mem, w.st.lga, val⟩).lga }, (establishMachineState v (putPrior g w.st).c
      ⟨w.mem, w.st.lga, val⟩).mem⟩ : Session) = _
  rw [hmachine]
  rfl

theorem unwGetProcInfo_ignores (m : Mem) : Act.Ignores putPrior (unwGetProcInfo k m) := by
  have hunset : IgnoresUnset (unwGetProcInfo k m) := by
    refine (dwarfMakeProcInfo_unset k m).attempt.bind fun ret => ?_
    refine Act.Ignores.get_bind (fun _ _ => rfl) fun s => ?_
    cases ret with
    | ok _ => exact Act.Ignores.pure _
    | error e => exact Act.Ignores.pure _
  refine hunset.prior fun s g => ?_
  exact Act.bind_congr_left _ (Act.attempt_congr (dwarfMakeProcInfo_prior k m s g))

/-! #### Every call -/

/-- **No call** sees the prior contents. -/
theorem run_ignores (call : LaterCall) : Act.Ignores putSession call.run := by
  cases call with
  | getReg v reg =>
    exact (onCursor_ignores fun m => unwGetReg_ignores v m reg).bind fun _ => Act.Ignores.pure _
  | setReg reg val => exact (unwSetReg_ignores reg val).bind fun _ => Act.Ignores.pure _
  | step k v fuel =>
    exact (onCursor_ignores fun m => unwStep_ignores k v m fuel).bind fun _ => Act.Ignores.pure _
  | resume k v val => exact (unwResume_ignores k v val).bind fun _ => Act.Ignores.pure _
  | getProcInfo k =>
    exact (onCursor_ignores (unwGetProcInfo_ignores k)).bind fun _ => Act.Ignores.pure _
  | isSignalFrame v =>
    have hformat := fun m => unwIsSignalFrame_blind putPrior_frameBlind v m
    exact (onCursor_ignores hformat).bind fun _ => Act.Ignores.pure _
  | memory m =>
    exact Act.Ignores.bind (Act.Ignores.modify fun _ g => ⟨g, rfl⟩) fun _ => Act.Ignores.pure _

/-- **Runs of calls** return the same with other prior contents. -/
theorem outcomes_putPrior (calls : List LaterCall) (w : Session) (g : Prior) :
    outcomes calls (putSession g w) = outcomes calls w := by
  induction calls generalizing w g with
  | nil => rfl
  | cons call calls ih =>
    obtain ⟨hout, g', hstate⟩ := run_ignores call w g
    show ((call.run (putSession g w)).1, (call.run (putSession g w)).2.mem) ::
        outcomes calls (call.run (putSession g w)).2 =
      ((call.run w).1, (call.run w).2.mem) :: outcomes calls (call.run w).2
    rw [hout, hstate, ih]
    rfl

end Calls

/-! ### The cursor after `unw_init_local` -/

/-- A cursor that holds zeros. -/
def Cursor.blank : Cursor where
  cfa := 0
  ip := 0
  argsSize := 0
  retAddrColumn := 0
  ehArgs _ := 0
  ehValidMask := 0
  loc _ := 0
  stashFrames := false
  usePrevInstr := false
  piValid := false
  piIsDynamic := false
  pi := ProcInfo.zero
  frameInfo := ⟨0, .other, false, false, 0, 0, 0⟩
  sigcontextFormat := .none
  sigcontextAddr := 0
  validate := false
  uc := 0

/-- The cursor that `unw_init_local` leaves, over the prior contents `c`. -/
def initialCursor (m : Mem) (uc : Word) (c : Cursor) : Cursor :=
  { c with
    cfa := load64 m (uc + ucOffset RSP)
    ip := load64 m (uc + ucOffset RIP)
    argsSize := 0
    retAddrColumn := 16
    loc := fun reg => uc + ucOffset reg
    stashFrames := false
    usePrevInstr := true
    piValid := false
    piIsDynamic := false
    sigcontextFormat := .none
    sigcontextAddr := 0
    validate := false
    uc := uc }

/-- The registers of a new cursor are those of the saved context at `uc`, and all that is seen later
is what is seen of a cursor over zeros. -/
structure Determined (v : Validator) (m : Mem) (uc : Word) (t : St) : Prop where
  saved : ∀ reg : Fin dwarfNumPreservedRegs,
    (unwGetReg v m t.c reg t.lga).1 = .ok (load64 m (uc + ucOffset reg))
  cfa : (unwGetReg v m t.c 17 t.lga).1 = .ok (load64 m (uc + ucOffset RSP))
  later : ∀ calls, outcomes calls ⟨t, m⟩ =
    outcomes calls ⟨(unwInitLocal v m uc { t with c := Cursor.blank }).2, m⟩

-- two cursors are compared without the bytes of what was read
attribute [local irreducible] load64

section Init

variable {v : Validator} {m : Mem} {uc : Word} {s t : St}

theorem dwarfGet_unvalidated {c : Cursor} {loc : Word} (hv : c.validate = false) (hloc : loc ≠ 0)
    (g : Lga) : dwarfGet v m c loc g = (.ok (load64 m loc), g) := by
  unfold dwarfGet
  rw [if_neg hloc, hv, accessMem_of_not_validate]

theorem read_unvalidated {loc : Cursor → Word} (s : St) (hv : s.c.validate = false)
    (hloc : loc s.c ≠ 0) :
    read (fun c => dwarfGet v m c (loc c)) s = (.ok (load64 m (loc s.c)), s) :=
  read_of_ok (dwarfGet_unvalidated hv hloc s.lga)

/-- `unw_init_local` reads two slots, and returns 0 if they are somewhere. -/
theorem unwInitLocal_eq (hrip : uc + ucOffset RIP ≠ 0) (hrsp : uc + ucOffset RSP ≠ 0) (s : St) :
    unwInitLocal v m uc s = (.ok (), { s with c := initialCursor m uc s.c }) := by
  unfold unwInitLocal commonInit
  rw [setCursor_bind, setCursor_bind]
  refine (Act.bind_of_ok (read_unvalidated _ rfl hrip)).trans ?_
  rw [setCursor_bind]
  exact Act.bind_of_ok (read_unvalidated _ rfl hrsp)

theorem ne_of_dwarfGet_ok {c : Cursor} {loc val : Word} {g g' : Lga}
    (h : dwarfGet v m c loc g = (.ok val, g')) : loc ≠ 0 := by
  intro hloc
  unfold dwarfGet at h
  rw [if_pos hloc] at h
  cases h

theorem unwInitLocal_eq_ok (h : unwInitLocal v m uc s = (.ok (), t)) :
    uc + ucOffset RIP ≠ 0 ∧ uc + ucOffset RSP ≠ 0 := by
  unfold unwInitLocal commonInit at h
  rw [setCursor_bind, setCursor_bind] at h
  obtain ⟨ip, s₁, hip, h⟩ := Act.bind_eq_ok h
  obtain ⟨g₁, hrip, rfl⟩ := read_eq_ok hip
  rw [setCursor_bind] at h
  obtain ⟨cfa, s₂, hcfa, -⟩ := Act.bind_eq_ok h
  obtain ⟨g₂, hrsp, -⟩ := read_eq_ok hcfa
  exact ⟨ne_of_dwarfGet_ok hrip, ne_of_dwarfGet_ok hrsp⟩

/-- A new cursor without arguments has two registers in its own fields. -/
theorem unwGetReg_initial {c : Cursor} (hmask : ∀ i : Fin 2, c.ehValidMask.getLsbD i = false)
    (m' : Mem) (reg : Fin dwarfNumPreservedRegs) :
    unwGetReg v m' (initialCursor m uc c) reg =
      if reg = RIP ∨ reg = RSP then pure (load64 m (uc + ucOffset reg))
      else dwarfGet v m' (initialCursor m uc c) (uc + ucOffset reg) := by
  obtain ⟨reg, hreg⟩ := reg
  -- the two registers that the cursor holds itself
  by_cases hip : reg = 16
  · subst hip
    rfl
  by_cases hsp : reg = 7
  · subst hsp
    rfl
  have hother : ¬((⟨reg, hreg⟩ : Fin dwarfNumPreservedRegs) = RIP ∨
      (⟨reg, hreg⟩ : Fin dwarfNumPreservedRegs) = RSP) := by
    rintro (heq | heq)
    · exact hip (congrArg Fin.val heq)
    · exact hsp (congrArg Fin.val heq)
  have hcfa : ¬(reg = 17 ∨ reg = 7) := by
    rintro (heq | heq)
    · exact absurd hreg (by rw [heq]; decide)
    · exact hsp heq
  rw [if_neg hother]
  unfold unwGetReg tdepAccessReg
  rw [if_neg hip, if_neg hcfa]
  by_cases harg : reg < 2
  · -- `RAX` and `RDX` come from the slots when their bits are clear
    have hbit : ¬(initialCursor m uc c).ehValidMask.getLsbD reg = true := by
      have hclear : (initialCursor m uc c).ehValidMask.getLsbD reg = false := hmask ⟨reg, harg⟩
      rw [hclear]
      exact Bool.false_ne_true
    rw [dif_pos harg, if_neg hbit]
    rfl
  · rw [dif_neg harg, dif_pos hreg]
    rfl

/-- Where every slot is somewhere, the registers of a new cursor without arguments are the saved
ones. -/
theorem unwGetReg_saved_slot {c : Cursor} (hslots : ∀ reg, uc + ucOffset reg ≠ 0)
    (hmask : ∀ i : Fin 2, c.ehValidMask.getLsbD i = false) (reg : Fin dwarfNumPreservedRegs)
    (g : Lga) :
    unwGetReg v m (initialCursor m uc c) reg g = (.ok (load64 m (uc + ucOffset reg)), g) := by
  rw [unwGetReg_initial hmask]
  split
  · rfl
  · exact dwarfGet_unvalidated rfl (hslots reg) g

/-- The cursor over a mask without arguments is the one over zeros, and the prior contents. -/
theorem initialCursor_eq_prior {c : Cursor} (hmask : ∀ i : Fin 2, c.ehValidMask.getLsbD i = false) :
    { t with c := initialCursor m uc c } =
      putPrior ⟨c.ehArgs, c.ehValidMask, c.frameInfo, c.pi⟩
        { t with c := initialCursor m uc Cursor.blank } := by
  have hbits := mask_eq_prior hmask
  have hargs : (fun i : Fin 2 => if (0 : BitVec 32).getLsbD i then (0 : Word) else c.ehArgs i) =
      c.ehArgs := by
    funext i
    have hclear : (0 : BitVec 32).getLsbD i = false := BitVec.getLsbD_zero
    rw [hclear]
    rfl
  show ({ t with c := initialCursor m uc c } : St) = { t with c := { initialCursor m uc c with
    ehArgs := fun i : Fin 2 => if (0 : BitVec 32).getLsbD i then (0 : Word) else c.ehArgs i
    ehValidMask := ((0 : BitVec 32) &&& 3) ||| (c.ehValidMask &&& ~~~3) } }
  rw [hbits, hargs]
  rfl

/-- The column of the register that an argument stands for. -/
def argColumn (i : Fin 2) : Fin dwarfNumPreservedRegs := ⟨i, Nat.lt_trans i.isLt (by decide)⟩

/-- Another value in the slot of an argument, and a read of its register. -/
def argProbe (v : Validator) (m : Mem) (uc : Word) (i : Fin 2) (val : Word) : List LaterCall :=
  [.memory (store64 m (uc + ucOffset (argColumn i)) val), .getReg v i]

theorem getReg_run (v : Validator) (reg : ℕ) (w : Session) :
    ((LaterCall.getReg v reg).run w).1 =
      ((unwGetReg v w.mem w.st.c reg w.st.lga).1 >>= fun val => .ok (.word val)) :=
  Act.bind_fst (k := fun val => .ok (.word val)) (f := fun val => pure (CallResult.word val))
    (fun _ _ => rfl) w

/-- What the register reads as, when the slot holds the value. -/
theorem argProbe_read {i : Fin 2} {val : Word} {t' : St}
    (h : outcomes (argProbe v m uc i val) ⟨t, m⟩ = outcomes (argProbe v m uc i val) ⟨t', m⟩) :
    ((unwGetReg v (store64 m (uc + ucOffset (argColumn i)) val) t.c i t.lga).1 >>= fun val =>
        (.ok (.word val) : Res UnwError CallResult)) =
      ((unwGetReg v (store64 m (uc + ucOffset (argColumn i)) val) t'.c i t'.lga).1 >>= fun val =>
        .ok (.word val)) := by
  have hread := congrArg Prod.fst (List.cons.inj (List.cons.inj h).2).1
  simp only [getReg_run] at hread
  exact hread

theorem argColumn_kept (i : Fin 2) : ¬(argColumn i = RIP ∨ argColumn i = RSP) := by
  revert i
  decide

/-- An argument in the prior mask is read, and not the slot. -/
theorem argProbe_ne {c : Cursor} {i : Fin 2} (hbit : c.ehValidMask.getLsbD i = true) :
    outcomes (argProbe v m uc i (c.ehArgs i + 1)) ⟨{ t with c := initialCursor m uc c }, m⟩ ≠
      outcomes (argProbe v m uc i (c.ehArgs i + 1))
        ⟨{ t with c := initialCursor m uc Cursor.blank }, m⟩ := by
  intro hsame
  have hblank : ∀ j : Fin 2, Cursor.blank.ehValidMask.getLsbD j = false :=
    fun _ => BitVec.getLsbD_zero
  have hread := argProbe_read hsame
  have harg : unwGetReg v (store64 m (uc + ucOffset (argColumn i)) (c.ehArgs i + 1))
      (initialCursor m uc c) i = pure (c.ehArgs i) := by
    rw [unwGetReg_arg]
    exact if_pos hbit
  have hslot : unwGetReg v (store64 m (uc + ucOffset (argColumn i)) (c.ehArgs i + 1))
      (initialCursor m uc Cursor.blank) i = _ := unwGetReg_initial hblank _ (argColumn i)
  rw [if_neg (argColumn_kept i)] at hslot
  rw [harg, hslot] at hread
  by_cases hnull : uc + ucOffset (argColumn i) = 0
  · -- the slot is nowhere, and the register cannot be read
    unfold dwarfGet at hread
    rw [if_pos hnull] at hread
    cases hread
  · rw [dwarfGet_unvalidated rfl hnull, load64_store64_self] at hread
    have hval : c.ehArgs i = c.ehArgs i + 1 := CallResult.word.inj (Res.ok.inj hread)
    exact absurd hval (by simp)

end Init

/-- **Initialisation and the prior contents**: after `unw_init_local` returns 0, the registers are
those of the saved context and nothing seen later depends on what the cursor held before, if and
only if it held no arguments of a handler. The slots of a context are never at the null address. -/
theorem init_determines_iff (v : Validator) (m : Mem) (uc : Word) {s t : St}
    (h : unwInitLocal v m uc s = (.ok (), t)) :
    Determined v m uc t ↔
      (∀ reg, uc + ucOffset reg ≠ 0) ∧ ∀ i : Fin 2, s.c.ehValidMask.getLsbD i = false := by
  obtain ⟨hrip, hrsp⟩ := unwInitLocal_eq_ok h
  have hinit : ∀ s, unwInitLocal v m uc s = (.ok (), { s with c := initialCursor m uc s.c }) :=
    unwInitLocal_eq hrip hrsp
  obtain rfl : { s with c := initialCursor m uc s.c } = t := by
    rw [hinit] at h
    exact (Prod.mk.inj h).2
  constructor
  · rintro ⟨hsaved, -, hlater⟩
    have hmask : ∀ i : Fin 2, s.c.ehValidMask.getLsbD i = false := by
      intro i
      by_contra hbit
      have hsame := hlater (argProbe v m uc i (s.c.ehArgs i + 1))
      rw [hinit] at hsame
      exact argProbe_ne (Bool.eq_true_of_not_eq_false hbit) hsame
    refine ⟨fun reg hnull => ?_, hmask⟩
    have hread := hsaved reg
    rw [unwGetReg_initial hmask] at hread
    by_cases hkept : reg = RIP ∨ reg = RSP
    · obtain rfl | rfl := hkept
      · exact hrip hnull
      · exact hrsp hnull
    · rw [if_neg hkept, hnull] at hread
      cases hread
  · rintro ⟨hslots, hmask⟩
    have hread := fun reg g => unwGetReg_saved_slot (v := v) (m := m) hslots hmask reg g
    refine ⟨fun reg => ?_, rfl, fun calls => ?_⟩
    · rw [hread]
    · rw [hinit, initialCursor_eq_prior hmask]
      exact outcomes_putPrior calls ⟨{ s with c := initialCursor m uc Cursor.blank }, m⟩ _

/-- Over this prior contents there are no arguments, and the cursor is determined. -/
theorem init_determines_bottom :
    Determined msyncValidate bottomMem 0x40000
      (unwInitLocal msyncValidate bottomMem 0x40000 bottomState).2 := by
  have hret : (unwInitLocal msyncValidate bottomMem 0x40000 bottomState).1 = .ok () := by
    decide +kernel
  refine (init_determines_iff msyncValidate bottomMem 0x40000 (Prod.ext hret rfl)).mpr ⟨?_, ?_⟩
  · decide
  · exact fun _ => BitVec.getLsbD_zero

/-- A cursor on a stack whose words make an argument for `RAX`. -/
def garbageState : St :=
  { bottomState with c := { bottomCursor with ehArgs := fun _ => 0xbad, ehValidMask := 1 } }

/-- `RAX` is 0 in the saved context, and `unw_get_reg` returns the word of the stack. -/
theorem init_leaves_garbage :
    (unwInitLocal msyncValidate bottomMem 0x40000 garbageState).1 = .ok () ∧
      ¬Determined msyncValidate bottomMem 0x40000
        (unwInitLocal msyncValidate bottomMem 0x40000 garbageState).2 := by
  have hret : (unwInitLocal msyncValidate bottomMem 0x40000 garbageState).1 = .ok () := by
    decide +kernel
  have hread : (unwGetReg msyncValidate bottomMem
      (unwInitLocal msyncValidate bottomMem 0x40000 garbageState).2.c 0
      (unwInitLocal msyncValidate bottomMem 0x40000 garbageState).2.lga).1 = .ok 0xbad := by
    decide +kernel
  have hslot : load64 bottomMem (0x40000 + ucOffset 0) = 0 := by decide +kernel
  refine ⟨hret, fun h => ?_⟩
  have hsaved := h.saved 0
  rw [hslot] at hsaved
  have hval : (0xbad : Word) = 0 := Res.ok.inj (hread.symm.trans hsaved)
  exact absurd hval (by decide)

end LibunwindKern
