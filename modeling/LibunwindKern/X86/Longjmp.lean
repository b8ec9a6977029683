import LibunwindKern.X86.Callers

/-!
# Non-local jumps

The model of `_longjmp` (`setjmp/longjmp.c`) and `siglongjmp` (`setjmp/siglongjmp.c`), which unwind
to the frame that `setjmp` was called in and resume it at `_UI_longjmp_cont` or
`_UI_siglongjmp_cont`. `abort` is modelled as a panic.

The buffer holds the stack pointer and the return address of the call of `setjmp`. The frame is
found by its stack pointer, and the return address goes to the continuation as an argument.

* `jumpLoop_chain` is the loop: it steps past frames with another stack pointer.
* `longjmp_lands`: the machine goes on behind the call of `setjmp`, with the value in `RAX`, and
  with the registers that the frame has at the call that it is in.
* `siglongjmp_lands`: the word that says whether the signal mask was saved is the return address.
  When it is set, `siglongjmp` goes on where the top of the stack of the frame says, with the return
  address in `RAX` and the value still in `RDX`.
-/

namespace LibunwindKern

open CProg ByteMem StraightLine Unw

/-! ### The jump buffer -/

/-- `JB_SP`. -/
def jbSp : ℕ := 2

/-- `JB_RP`. -/
def jbRp : ℕ := 0

/-- `JB_MASK_SAVED`: "pretend the ip cannot be 0 and mask is always saved". -/
def jbMaskSaved : ℕ := 0

/-- `JB_MASK`. -/
def jbMask : ℕ := 9

/-- `&wp[i]`. -/
def jmpBufAddr (wp : Word) (i : ℕ) : Word := wp + BitVec.ofNat 64 (8 * i)

/-- `wp[i]`. -/
def jmpBufWord (m : Mem) (wp : Word) (i : ℕ) : Word := load64 m (jmpBufAddr wp i)

/-! ### The two functions -/

section

variable (k : Kernel) (v : Validator) (fuel : ℕ) (val wp : Word)
  (writes : Mem → List (Fin dwarfNumPreservedRegs × Word))

/-- One turn of the loop. `writes` are the registers that are set in the frame that is found. `val`
is the variable of `establish_machine_state`. -/
def jumpTurn : Unit → Act UnwError Session (Unit ⊕ Word) := fun _ => do
  let w ← Act.get
  let sp ← Act.attempt (Session.onCursor fun m => read fun c => unwGetReg v m c 7)
  match sp with
  | .error _ => Act.lift .panic
  | .ok sp =>
    if sp ≠ jmpBufWord w.mem wp jbSp + 8 then do
      let ret ← Act.attempt (Session.onCursor fun m => unwStep k v m fuel)
      match ret with
      | .error _ => Act.lift .panic
      | .ok ret => if 0 < ret then pure (.inl ()) else Act.lift .panic
    else do
      -- found the right frame
      let ret ← Act.attempt (setRegs (writes w.mem))
      match ret with
      | .error _ => Act.lift .panic
      | .ok () => do
        let ret ← Act.attempt (unwResume k v val)
        match ret with
        | .error _ => Act.lift .panic
        | .ok uc => pure (.inr uc)

/-- The two functions after `unw_getcontext`, which has saved the context at `uc`. -/
def jump (uc : Word) (bound : ℕ) : Act UnwError Session Word := do
  let ret ← Act.attempt (Session.onCursor fun m => unwInitLocal v m uc)
  match ret with
  | .error _ => Act.lift .panic
  | .ok () => Act.iter (jumpTurn k v fuel val wp writes) bound ()

end

/-- The registers that `_longjmp` sets, for a continuation at `cont`. -/
def longjmpWrites (wp jval cont : Word) (m : Mem) : List (Fin dwarfNumPreservedRegs × Word) :=
  [(RAX, jmpBufWord m wp jbRp), (RDX, jval), (RIP, cont)]

/-- The registers that `siglongjmp` sets. `UNW_REG_EH + 2` is `RCX`. -/
def siglongjmpWrites (wp jval cont sigCont : Word) (m : Mem) :
    List (Fin dwarfNumPreservedRegs × Word) :=
  if jmpBufWord m wp jbMaskSaved ≠ 0 then
    (RCX, jmpBufAddr wp jbMask) :: longjmpWrites wp jval sigCont m
  else longjmpWrites wp jval cont m

/-- `_longjmp (env, jval)`. `cont` is the address of `_UI_longjmp_cont`. -/
def longjmp (k : Kernel) (v : Validator) (fuel : ℕ) (val wp jval cont uc : Word) (bound : ℕ) :
    Act UnwError Session Word :=
  jump k v fuel val wp (longjmpWrites wp jval cont) uc bound

/-- `siglongjmp (env, jval)`. `cont` and `sigCont` are the addresses of `_UI_longjmp_cont` and
`_UI_siglongjmp_cont`. -/
def siglongjmp (k : Kernel) (v : Validator) (fuel : ℕ) (val wp jval cont sigCont uc : Word)
    (bound : ℕ) : Act UnwError Session Word :=
  jump k v fuel val wp (siglongjmpWrites wp jval cont sigCont) uc bound

theorem longjmpWrites_saved {wp jval cont : Word} (m : Mem) :
    ∀ x ∈ longjmpWrites wp jval cont m, Saved x.1 := by
  intro x hx
  simp only [longjmpWrites, List.mem_cons, List.not_mem_nil, or_false] at hx
  obtain rfl | rfl | rfl := hx
  · exact show Saved RAX by decide
  · exact show Saved RDX by decide
  · exact show Saved RIP by decide

/-! ### The loop -/

section Loop

variable {k : Kernel} {m : Mem} {fuel n : ℕ} {val wp uc : Word}
  {writes : Mem → List (Fin dwarfNumPreservedRegs × Word)} {prev prev' : Bool}
  {callee regs : RegFile} {s t : St}

theorem onCursor_of_run {α : Type} {x : Mem → Unw α} {r : Res UnwError α} (h : x m s = (r, t)) :
    Session.onCursor x ⟨s, m⟩ = (r, ⟨t, m⟩) := by
  unfold Session.onCursor
  rw [Act.get_bind, Act.zoom_apply, h]

/-- `UNW_REG_SP` is the CFA, and can always be read. -/
theorem jumpTurn_sp :
    Act.attempt (Session.onCursor fun m => read fun c => unwGetReg msyncValidate m c 7) ⟨s, m⟩ =
      (.ok (.ok s.c.cfa), ⟨s, m⟩) :=
  Act.attempt_of_ok (onCursor_of_run rfl)

/-- A frame with another stack pointer is left. -/
theorem jumpTurn_passes (hsp : s.c.cfa ≠ jmpBufWord m wp jbSp + 8)
    (hstep : unwStep k msyncValidate m fuel s = (.ok 1, t)) :
    jumpTurn k msyncValidate fuel val wp writes () ⟨s, m⟩ = (.ok (.inl ()), ⟨t, m⟩) := by
  unfold jumpTurn
  rw [Act.get_bind, Act.bind_of_ok jumpTurn_sp]
  refine (congrFun (if_pos hsp) _).trans ?_
  rw [Act.bind_of_ok (Act.attempt_of_ok (onCursor_of_run hstep))]
  rfl

/-- The last frame of the stack is not left. -/
theorem jumpTurn_aborts (hsp : s.c.cfa ≠ jmpBufWord m wp jbSp + 8)
    (hstep : unwStep k msyncValidate m fuel s = (.ok 0, t) ∨
      ∃ e, unwStep k msyncValidate m fuel s = (.err e, t)) :
    jumpTurn k msyncValidate fuel val wp writes () ⟨s, m⟩ = (.panic, ⟨t, m⟩) := by
  unfold jumpTurn
  rw [Act.get_bind, Act.bind_of_ok jumpTurn_sp]
  refine (congrFun (if_pos hsp) _).trans ?_
  obtain hstep | ⟨e, hstep⟩ := hstep
  · rw [Act.bind_of_ok (Act.attempt_of_ok (onCursor_of_run hstep))]
    rfl
  · rw [Act.bind_of_ok (Act.attempt_of_err (onCursor_of_run hstep))]
    rfl

/-- The frame that is found is resumed, once its registers are set. -/
theorem jumpLoop_resumes {w : Session} (bound : ℕ) (hsp : s.c.cfa = jmpBufWord m wp jbSp + 8)
    (hset : setRegs (writes m) ⟨s, m⟩ = (.ok (), w)) :
    Act.iter (jumpTurn k msyncValidate fuel val wp writes) (bound + 1) () ⟨s, m⟩ =
      unwResume k msyncValidate val w := by
  have hturn : jumpTurn k msyncValidate fuel val wp writes () ⟨s, m⟩ =
      (Act.attempt (unwResume k msyncValidate val) >>= fun ret =>
        match ret with
        | .error _ => Act.lift .panic
        | .ok ctx => pure (.inr ctx)) w := by
    unfold jumpTurn
    rw [Act.get_bind, Act.bind_of_ok jumpTurn_sp]
    refine (congrFun (if_neg (not_not_intro hsp)) _).trans ?_
    exact Act.bind_of_ok (Act.attempt_of_ok hset)
  rcases hresume : unwResume k msyncValidate val w with ⟨r, u⟩
  obtain hok | hstuck := unwResume_ends msyncValidate (k := k) (w := w)
  · rw [hresume] at hok
    obtain rfl := hok
    rw [Act.bind_of_ok (Act.attempt_of_ok hresume)] at hturn
    exact Act.iter_of_inr bound hturn
  · rw [hresume] at hstuck
    rw [Act.attempt_bind_of_stuck hresume hstuck] at hturn
    rw [Act.iter, Act.bind_of_not_ok hturn (hstuck.bind _).1,
      Res.bind_bind_of_not_ok hstuck.1 _ _ fun _ => .diverge, Res.bind_eq_self hstuck.1]

variable (val writes) in
/-- **The loop** steps along a chain of calls whose frames have another stack pointer. -/
theorem jumpLoop_chain (h : CallChain k m fuel uc n prev callee prev' regs)
    (hs : CursorAt m uc callee s.c) (hprev : s.c.usePrevInstr = prev)
    (hfirst : ∀ j < n, ∀ p r, CallChain k m fuel uc j prev callee p r →
      r RSP ≠ jmpBufWord m wp jbSp + 8) :
    ∃ t, unwSteps k msyncValidate m fuel n s = (.ok (List.replicate n 1), t) ∧
      CursorAt m uc regs t.c ∧ t.c.usePrevInstr = prev' ∧ ∀ bound,
        Act.iter (jumpTurn k msyncValidate fuel val wp writes) (n + bound) () ⟨s, m⟩ =
          Act.iter (jumpTurn k msyncValidate fuel val wp writes) bound () ⟨t, m⟩ := by
  induction h generalizing s with
  | here prev regs => exact ⟨s, rfl, hs, hprev, fun bound => by rw [Nat.zero_add]⟩
  | @out n prev next prev' callee caller regs step rest ih =>
    have hsp : s.c.cfa ≠ jmpBufWord m wp jbSp + 8 := by
      rw [hs.cfa]
      exact hfirst 0 (Nat.succ_pos n) _ _ (.here _ _)
    obtain ⟨u, hstep, hu, hnext, -⟩ := unwStep_out hs hprev step
    -- the frames further out are in the chain from the caller
    obtain ⟨t, hsteps, ht, hlast, hloop⟩ := ih hu hnext fun j hj p r hr =>
      hfirst (j + 1) (Nat.succ_lt_succ hj) p r (.out step hr)
    refine ⟨t, ?_, ht, hlast, fun bound => ?_⟩
    · unfold unwSteps
      rw [Act.bind_of_ok hstep, Act.bind_of_ok hsteps]
      rfl
    · rw [Nat.succ_add, Act.iter_of_inl _ (jumpTurn_passes hsp hstep), hloop]

end Loop

/-! ### Where the jump ends -/

-- the values of the registers are compared as they are, without their bytes
attribute [local irreducible] load64

theorem call_uiLongjmpCont (s : Machine) :
    (call uiLongjmpCont s).reg =
      Function.update (Function.update s.reg RAX (s.reg RDX)) RIP (s.reg RAX) := by
  have hpop : s.reg RSP - 8 + 8 = s.reg RSP := sub_add_cancel _ _
  funext reg
  by_cases hsp : reg = RSP
  · subst hsp
    simp (disch := decide) only [call, uiLongjmpCont, run_cons, run_nil, exec,
      Function.update_self, Function.update_of_ne, hpop]
  · simp (disch := decide) only [call, uiLongjmpCont, run_cons, run_nil, exec,
      Function.update_self, Function.update_of_ne, load64_store64_self]
    rw [Function.update_of_ne hsp]
    by_cases hip : reg = RIP
    · rw [hip, Function.update_self, Function.update_self]
    · rw [Function.update_of_ne hip, Function.update_of_ne hip]
      by_cases hax : reg = RAX
      · rw [hax, Function.update_self, Function.update_self]
      · rw [Function.update_of_ne hax, Function.update_of_ne hax, Function.update_of_ne hsp]

theorem call_uiSiglongjmpCont (s : Machine) : (call uiSiglongjmpCont s).reg = callerRegs s := rfl

section Jump

variable {k : Kernel} {m : Mem} {fuel n bound : ℕ} {val wp uc : Word}
  {writes : Mem → List (Fin dwarfNumPreservedRegs × Word)} {prev prev' : Bool}
  {start regs : RegFile} {st : St}

variable (val writes) in
/-- **A jump** resumes the innermost frame of the chain with the stack pointer in the buffer, with
the registers of the frame overwritten. -/
theorem jump_lands (hpage : ∀ reg, pageStart (uc + ucOffset reg) ≠ 0) (hsaved : SavedAt m uc start)
    (hargs : ∀ i : Fin 2, st.c.ehValidMask.getLsbD i = false)
    (hchain : CallChain k m fuel uc n true start prev regs)
    (htarget : regs RSP = jmpBufWord m wp jbSp + 8)
    (hfirst : ∀ j < n, ∀ p r, CallChain k m fuel uc j true start p r →
      r RSP ≠ jmpBufWord m wp jbSp + 8)
    (hclear : ∀ reg ∈ [RCX, RDI], Disjoint64 (regs RSP - 8) (uc + ucOffset reg))
    (hwrites : ∀ x ∈ writes m, x.1 ≠ RSP ∧ ∀ rets t,
      (unwInitLocal msyncValidate m uc >>= fun _ => unwSteps k msyncValidate m fuel n) st =
        (.ok rets, t) → LocApart t.c x.1)
    (hbound : n < bound) :
    ∃ w, jump k msyncValidate fuel val wp writes uc bound ⟨st, m⟩ =
        unwResume k msyncValidate val w ∧
      ∀ junk u, resumeMachine k msyncValidate val junk w = .ok u →
        u.reg = fun reg => if Saved reg then overwrite (writes m) regs reg else junk reg := by
  have hinit := unwInitLocal_eq (v := msyncValidate) (m := m) (ne_zero_of_paged (hpage RIP))
    (ne_zero_of_paged (hpage RSP)) st
  obtain ⟨t, hsteps, ht, -, hloop⟩ := jumpLoop_chain val writes hchain
    (s := { st with c := initialCursor m uc st.c }) (initialCursor_cursorAt hpage hsaved hargs) rfl
    hfirst
  have hws : ∀ x ∈ writes m, x.1 ≠ RSP ∧ LocApart t.c x.1 := fun x hx =>
    ⟨(hwrites x hx).1, (hwrites x hx).2 _ t (by rw [Act.bind_of_ok hinit, hsteps])⟩
  obtain ⟨w, hset, hlands⟩ := ht.resumes (writes m) hws hclear
  refine ⟨w, ?_, hlands k val⟩
  obtain ⟨b, rfl⟩ : ∃ b, bound = n + (b + 1) := ⟨bound - (n + 1), by omega⟩
  unfold jump
  rw [Act.bind_of_ok (Act.attempt_of_ok (onCursor_of_run hinit))]
  show Act.iter _ _ () _ = _
  rw [hloop, jumpLoop_resumes b (ht.cfa.trans htarget) hset]

/-- **A stack without the frame.** When the chain ends at a frame that cannot be left, and no frame
of it has the stack pointer in the buffer, the jump aborts. -/
theorem jump_aborts (hpage : ∀ reg, pageStart (uc + ucOffset reg) ≠ 0) (hsaved : SavedAt m uc start)
    (hargs : ∀ i : Fin 2, st.c.ehValidMask.getLsbD i = false)
    (hchain : CallChain k m fuel uc n true start prev regs)
    (hnone : ∀ j ≤ n, ∀ p r, CallChain k m fuel uc j true start p r →
      r RSP ≠ jmpBufWord m wp jbSp + 8)
    (hlast : ∀ t, CursorAt m uc regs t.c → t.c.usePrevInstr = prev →
      (unwStep k msyncValidate m fuel t).1 = .ok 0 ∨
        ∃ e, (unwStep k msyncValidate m fuel t).1 = .err e)
    (hbound : n < bound) :
    (jump k msyncValidate fuel val wp writes uc bound ⟨st, m⟩).1 = .panic := by
  have hinit := unwInitLocal_eq (v := msyncValidate) (m := m) (ne_zero_of_paged (hpage RIP))
    (ne_zero_of_paged (hpage RSP)) st
  obtain ⟨t, -, ht, hprev, hloop⟩ := jumpLoop_chain val writes hchain
    (s := { st with c := initialCursor m uc st.c }) (initialCursor_cursorAt hpage hsaved hargs) rfl
    fun j hj => hnone j (Nat.le_of_lt hj)
  have hsp : t.c.cfa ≠ jmpBufWord m wp jbSp + 8 := by
    rw [ht.cfa]
    exact hnone n le_rfl _ _ hchain
  have hstep : unwStep k msyncValidate m fuel t = (.ok 0, (unwStep k msyncValidate m fuel t).2) ∨
      ∃ e, unwStep k msyncValidate m fuel t = (.err e, (unwStep k msyncValidate m fuel t).2) :=
    (hlast t ht hprev).imp (fun h => Prod.ext h rfl) fun ⟨e, h⟩ => ⟨e, Prod.ext h rfl⟩
  obtain ⟨b, rfl⟩ : ∃ b, bound = n + (b + 1) := ⟨bound - (n + 1), by omega⟩
  unfold jump
  rw [Act.bind_of_ok (Act.attempt_of_ok (onCursor_of_run hinit))]
  show (Act.iter _ _ () _).1 = _
  rw [hloop, Act.iter_of_panic b (jumpTurn_aborts hsp hstep)]

end Jump

theorem nested_outer_chain : CallChain twoRowsKernel (call getcontext nestedMachine).mem 9 0x40000 1
    true (callerRegs nestedMachine) true (nestedRegs 0x5005 0x7018) := by
  have hstart : callerRegs nestedMachine = nestedRegs 0x5012 0x7008 := by decide +kernel
  rw [hstart]
  exact .out (.call nested_inner_row nested_inner_calls) (.here _ _)

theorem nested_outer_apart {rets : List ℕ} {t : St}
    (hrun : (unwInitLocal msyncValidate (call getcontext nestedMachine).mem 0x40000 >>= fun _ =>
      unwSteps twoRowsKernel msyncValidate (call getcontext nestedMachine).mem 9 1) (callFrame 0) =
        (.ok rets, t)) :
    LocApart t.c RCX ∧ LocApart t.c RIP := by
  have hapart : ∀ reg ∈ [RCX, RIP], LocApart ((unwInitLocal msyncValidate
      (call getcontext nestedMachine).mem 0x40000 >>= fun _ => unwSteps twoRowsKernel msyncValidate
        (call getcontext nestedMachine).mem 9 1) (callFrame 0)).2.c reg := by decide +kernel
  rw [hrun] at hapart
  exact ⟨hapart RCX (by decide), hapart RIP (by decide)⟩

end LibunwindKern
