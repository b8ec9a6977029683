import LibunwindKern.X86.Regs

/-!
# Copying the cursor to the saved context

The model of `establish_machine_state` (`Gresume.c`), with the memory, the cache of
validated pages and the local variable `val` as the state of its loop. `val` is not
initialised, so its first value is a parameter.

In the source the test of `tdep_access_reg` guards the `Debug` line only, and
`access_reg` is called in any case. A register that cannot be read is therefore
overwritten with the value that was read before it. The registers are also copied one
after another, so a register whose save location is the slot of an earlier one is
read after that slot was written.

* `CopiesRegisters` is the purpose of the function: a simultaneous assignment of the
  registers as they were before the call, which leaves unreadable ones alone.
* `settled` and `stale` are the memory and the value of `val` of a copy that is right
  so far. `CopyOrderly` is the condition they give, and `establish_inv` the induction
  over the registers that ties the loop to it.
-/

namespace LibunwindKern

open CProg ByteMem

/-- The state of the loop of `establish_machine_state`. -/
structure ResumeState where
  mem : Mem
  lga : Lga
  val : Word

/-- `access_reg` for writing: the slot of `reg` in the saved context gets `val`. -/
def accessRegWrite (uc : Word) (reg : ℕ) (val : Word) (m : Mem) : Mem :=
  match x86_64RUcAddr uc reg with
  | some addr => store64 m addr val
  | none => m

/-- One turn of the loop of `establish_machine_state`. -/
def establishReg (v : Validator) (c : Cursor) (reg : ℕ) (s : ResumeState) : ResumeState :=
  match tdepAccessReg v s.mem c reg s.lga with
  | (.ok val, lga) => ⟨accessRegWrite c.uc reg val s.mem, lga, val⟩
  -- the failed read leaves `val` as it was, and it is written all the same
  | (_, lga) => ⟨accessRegWrite c.uc reg s.val s.mem, lga, s.val⟩

/-- The loop of `establish_machine_state` over the registers below a bound. -/
def establishBelow (v : Validator) (c : Cursor) (s : ResumeState) : ℕ → ResumeState
  | 0 => s
  | reg + 1 => establishReg v c reg (establishBelow v c s reg)

/-- `establish_machine_state`: every register up to `UNW_REG_LAST`. -/
def establishMachineState (v : Validator) (c : Cursor) (s : ResumeState) : ResumeState :=
  establishBelow v c s dwarfNumPreservedRegs

/-! ### The specification -/

/-- The slot of a register in the saved context. -/
def slot (c : Cursor) (reg : Fin dwarfNumPreservedRegs) : Word := c.uc + ucOffset reg

/-- What a register has to hold after the copy: its value in the cursor before the
call, or what its slot held if it cannot be read. -/
def wanted (v : Validator) (c : Cursor) (s : ResumeState) (reg : Fin dwarfNumPreservedRegs) :
    Word :=
  match (tdepAccessReg v s.mem c reg s.lga).1 with
  | .ok val => val
  | _ => load64 s.mem (slot c reg)

/-- **Resuming installs exactly the cursor's registers.** -/
def CopiesRegisters (v : Validator) (c : Cursor) (s t : ResumeState) : Prop :=
  ∀ reg, load64 t.mem (slot c reg) = wanted v c s reg

/-- The memory in which the slots of the registers below a bound hold what they have
to hold. -/
def settled (v : Validator) (c : Cursor) (s : ResumeState) : ℕ → Mem
  | 0 => s.mem
  | n + 1 =>
    if h : n < dwarfNumPreservedRegs then
      store64 (settled v c s n) (slot c ⟨n, h⟩) (wanted v c s ⟨n, h⟩)
    else settled v c s n

/-- The last value read from the registers below a bound, as they were before the
call. -/
def stale (v : Validator) (c : Cursor) (s : ResumeState) : ℕ → Word
  | 0 => s.val
  | n + 1 =>
    match (tdepAccessReg v s.mem c n s.lga).1 with
    | .ok val => val
    | _ => stale v c s n

/-- A register is in order: if it can be read, the slots settled before it do not change
its value, and if it cannot, its slot already holds the last value read before it. -/
def OrderlyAt (v : Validator) (c : Cursor) (s : ResumeState) (reg : Fin dwarfNumPreservedRegs) :
    Prop :=
  match (tdepAccessReg v s.mem c reg s.lga).1 with
  | .ok val => (tdepAccessReg v (settled v c s reg) c reg s.lga).1 = .ok val
  | _ => stale v c s reg = load64 s.mem (slot c reg)

/-- Every register is in order. -/
def CopyOrderly (v : Validator) (c : Cursor) (s : ResumeState) : Prop :=
  ∀ reg, OrderlyAt v c s reg

/-! ### Slots -/

/-- The slots of two registers share no byte. -/
theorem slot_disjoint (c : Cursor) {i j : Fin dwarfNumPreservedRegs} (h : i ≠ j) :
    Disjoint64 (slot c i) (slot c j) := by
  have hoff : ∀ i j : Fin dwarfNumPreservedRegs, i ≠ j →
      Disjoint64 (ucOffset i) (ucOffset j) := by decide
  unfold Disjoint64 slot
  rw [add_sub_add_left_eq_sub, add_sub_add_left_eq_sub]
  exact hoff i j h

theorem accessRegWrite_of_lt (uc val : Word) (m : Mem) {reg : ℕ}
    (h : reg < dwarfNumPreservedRegs) :
    accessRegWrite uc reg val m = store64 m (uc + ucOffset ⟨reg, h⟩) val := by
  unfold accessRegWrite x86_64RUcAddr
  rw [dif_pos h]

/-- A slot that was settled holds what it has to hold. -/
theorem load64_settled (v : Validator) (c : Cursor) (s : ResumeState) :
    ∀ (n : ℕ) (reg : Fin dwarfNumPreservedRegs), reg.val < n →
      load64 (settled v c s n) (slot c reg) = wanted v c s reg := by
  intro n
  induction n with
  | zero => intro reg h; exact absurd h (Nat.not_lt_zero _)
  | succ n ih =>
    intro reg hreg
    unfold settled
    by_cases hn : n < dwarfNumPreservedRegs
    · rw [dif_pos hn]
      by_cases heq : reg = ⟨n, hn⟩
      · rw [heq]
        exact load64_store64_self _ _ _
      · have hne : reg.val ≠ n := fun h => heq (Fin.ext h)
        rw [load64_store64_of_disjoint (slot_disjoint c (Ne.symm heq))]
        exact ih reg (Nat.lt_of_le_of_ne (Nat.le_of_lt_succ hreg) hne)
    · rw [dif_neg hn]
      exact ih reg (Nat.lt_of_lt_of_le reg.isLt (Nat.le_of_not_lt hn))

/-! ### Reading with the installed validator -/

/-- Whether a register can be read depends on the cursor only, not on the memory or on
the cache. -/
theorem tdepAccessReg_msync (c : Cursor) (reg : ℕ) :
    (∃ value : Mem → Word, ∀ m g, (tdepAccessReg msyncValidate m c reg g).1 = .ok (value m)) ∨
      ∃ e, ∀ m g, (tdepAccessReg msyncValidate m c reg g).1 = .err e := by
  -- whether a slot can be read does not depend on the memory
  have hmem : ∀ loc, (∃ value : Mem → Word, ∀ m g,
      (dwarfGet msyncValidate m c loc g).1 = .ok (value m)) ∨
      ∃ e, ∀ m g, (dwarfGet msyncValidate m c loc g).1 = .err e := by
    intro loc
    by_cases hloc : loc = 0
    · rw [hloc]
      exact Or.inr ⟨.ebadreg, fun m g => rfl⟩
    · simp only [dwarfGet_of_ne _ _ _ hloc]
      cases c.validate with
      | false => exact Or.inl ⟨fun m => load64 m loc, fun m g => rfl⟩
      | true =>
        simp only [accessMem_of_validate, validateMem_msync]
        by_cases hpage : pageStart loc = 0
        · refine Or.inr ⟨.eunspec, fun m g => ?_⟩
          rw [if_neg (by simpa using hpage)]
        · refine Or.inl ⟨fun m => load64 m loc, fun m g => ?_⟩
          rw [if_pos (by simpa using hpage)]
  unfold tdepAccessReg
  by_cases hcfa : reg = 17 ∨ reg = 7
  · refine Or.inl ⟨fun _ => c.cfa, fun m g => ?_⟩
    rw [if_pos hcfa]
    rfl
  · simp only [if_neg hcfa]
    split_ifs with heh hmask hreg
    · exact Or.inl ⟨fun _ => c.ehArgs ⟨reg, heh⟩, fun m g => rfl⟩
    · exact hmem _
    · exact hmem _
    · exact Or.inr ⟨.ebadreg, fun m g => rfl⟩

/-! ### The loop -/

section Loop

variable {v : Validator} {c : Cursor} {s t : ResumeState}

theorem settled_succ {n : ℕ} (hn : n < dwarfNumPreservedRegs) :
    settled v c s (n + 1) = store64 (settled v c s n) (slot c ⟨n, hn⟩) (wanted v c s ⟨n, hn⟩) := by
  rw [settled, dif_pos hn]

theorem stale_succ_of_ok {n : ℕ} {val : Word} (h : (tdepAccessReg v s.mem c n s.lga).1 = .ok val) :
    stale v c s (n + 1) = val := by
  rw [stale, h]

theorem stale_succ_of_err {n : ℕ} {e : UnwError}
    (h : (tdepAccessReg v s.mem c n s.lga).1 = .err e) : stale v c s (n + 1) = stale v c s n := by
  rw [stale, h]

theorem establishReg_of_ok {reg : ℕ} {val : Word}
    (h : (tdepAccessReg v t.mem c reg t.lga).1 = .ok val) :
    (establishReg v c reg t).mem = accessRegWrite c.uc reg val t.mem ∧
      (establishReg v c reg t).val = val := by
  unfold establishReg
  rcases hrun : tdepAccessReg v t.mem c reg t.lga with ⟨r, g⟩
  rw [hrun] at h
  cases h
  exact ⟨rfl, rfl⟩

theorem establishReg_of_err {reg : ℕ} {e : UnwError}
    (h : (tdepAccessReg v t.mem c reg t.lga).1 = .err e) :
    (establishReg v c reg t).mem = accessRegWrite c.uc reg t.val t.mem ∧
      (establishReg v c reg t).val = t.val := by
  unfold establishReg
  rcases hrun : tdepAccessReg v t.mem c reg t.lga with ⟨r, g⟩
  rw [hrun] at h
  cases h
  exact ⟨rfl, rfl⟩

/-- A turn writes the slot of its register and nothing else. -/
theorem establishReg_mem (v : Validator) (c : Cursor) (t : ResumeState)
    (reg : Fin dwarfNumPreservedRegs) :
    ∃ val, (establishReg v c reg t).mem = store64 t.mem (slot c reg) val := by
  unfold establishReg
  split
  · exact ⟨_, accessRegWrite_of_lt _ _ _ reg.isLt⟩
  · exact ⟨_, accessRegWrite_of_lt _ _ _ reg.isLt⟩

/-- The slot of a register keeps what its own turn wrote. -/
theorem load64_establishBelow (v : Validator) (c : Cursor) (s : ResumeState)
    (reg : Fin dwarfNumPreservedRegs) :
    ∀ n, reg.val < n → n ≤ dwarfNumPreservedRegs →
      load64 (establishBelow v c s n).mem (slot c reg) =
        load64 (establishReg v c reg (establishBelow v c s reg)).mem (slot c reg) := by
  intro n
  induction n with
  | zero => intro h; exact absurd h (Nat.not_lt_zero _)
  | succ n ih =>
    intro hlt hle
    rcases Nat.lt_or_eq_of_le (Nat.le_of_lt_succ hlt) with hlt' | heq
    · obtain ⟨val, hmem⟩ := establishReg_mem v c (establishBelow v c s n) ⟨n, hle⟩
      have hne : (⟨n, hle⟩ : Fin dwarfNumPreservedRegs) ≠ reg := by
        intro h
        rw [← h] at hlt'
        exact Nat.lt_irrefl _ hlt'
      rw [establishBelow, hmem, load64_store64_of_disjoint (slot_disjoint c hne)]
      exact ih hlt' (Nat.le_of_succ_le hle)
    · subst heq
      rw [establishBelow]

/-- A copy that is right so far: the memory is settled, and `val` is the last value that
could be read. -/
structure RightSoFar (c : Cursor) (s : ResumeState) (n : ℕ) (t : ResumeState) : Prop where
  mem : t.mem = settled msyncValidate c s n
  val : t.val = stale msyncValidate c s n

/-- What a turn has written is right if it is what the register has to hold. -/
theorem establishReg_settles {n : ℕ} (hn : n < dwarfNumPreservedRegs) {new : Word}
    (hmem : t.mem = settled msyncValidate c s n)
    (hwrite : (establishReg msyncValidate c n t).mem = store64 t.mem (slot c ⟨n, hn⟩) new)
    (hord : OrderlyAt msyncValidate c s ⟨n, hn⟩ ↔ new = wanted msyncValidate c s ⟨n, hn⟩) :
    (load64 (establishReg msyncValidate c n t).mem (slot c ⟨n, hn⟩) =
        wanted msyncValidate c s ⟨n, hn⟩ ↔ OrderlyAt msyncValidate c s ⟨n, hn⟩) ∧
      (OrderlyAt msyncValidate c s ⟨n, hn⟩ →
        (establishReg msyncValidate c n t).mem = settled msyncValidate c s (n + 1)) := by
  constructor
  · rw [hwrite, hord]
    exact Eq.congr_left (load64_store64_self _ _ _)
  · intro ho
    rw [hwrite, hord.mp ho, hmem, settled_succ hn]

/-- **One turn.** A turn of a copy that is right so far writes what its register has to
hold exactly when the register is in order, and the copy is then right so far for the
next register. -/
theorem establishReg_right {n : ℕ} (hn : n < dwarfNumPreservedRegs) (h : RightSoFar c s n t) :
    (load64 (establishReg msyncValidate c n t).mem (slot c ⟨n, hn⟩) =
        wanted msyncValidate c s ⟨n, hn⟩ ↔ OrderlyAt msyncValidate c s ⟨n, hn⟩) ∧
      (OrderlyAt msyncValidate c s ⟨n, hn⟩ →
        RightSoFar c s (n + 1) (establishReg msyncValidate c n t)) := by
  obtain ⟨hmem, hval⟩ := h
  rcases tdepAccessReg_msync c n with ⟨value, hread⟩ | ⟨e, hread⟩
  · -- the register can be read: its value must not have changed
    obtain ⟨hmem', hval'⟩ := establishReg_of_ok (hread t.mem t.lga)
    rw [accessRegWrite_of_lt _ _ _ hn] at hmem'
    have hwant : wanted msyncValidate c s ⟨n, hn⟩ = value s.mem := by
      unfold wanted
      simp only [hread]
    have hord : OrderlyAt msyncValidate c s ⟨n, hn⟩ ↔
        value t.mem = wanted msyncValidate c s ⟨n, hn⟩ := by
      rw [hwant]
      unfold OrderlyAt
      simp only [hread, ← hmem, Res.ok.injEq]
    obtain ⟨hiff, hsettled⟩ := establishReg_settles hn hmem hmem' hord
    refine ⟨hiff, fun ho => ⟨hsettled ho, ?_⟩⟩
    rw [hval', hord.mp ho, hwant, stale_succ_of_ok (hread s.mem s.lga)]
  · -- it cannot: the value left over from before is written
    obtain ⟨hmem', hval'⟩ := establishReg_of_err (hread t.mem t.lga)
    rw [accessRegWrite_of_lt _ _ _ hn] at hmem'
    have hwant : wanted msyncValidate c s ⟨n, hn⟩ = load64 s.mem (slot c ⟨n, hn⟩) := by
      unfold wanted
      simp only [hread]
    have hord : OrderlyAt msyncValidate c s ⟨n, hn⟩ ↔
        t.val = wanted msyncValidate c s ⟨n, hn⟩ := by
      rw [hwant]
      unfold OrderlyAt
      simp only [hread, hval]
    obtain ⟨hiff, hsettled⟩ := establishReg_settles hn hmem hmem' hord
    refine ⟨hiff, fun ho => ⟨hsettled ho, ?_⟩⟩
    rw [hval', hval, stale_succ_of_err (hread s.mem s.lga)]

/-- The loop up to a register, when every register below it is in order. -/
theorem establish_inv (h : ∀ reg, OrderlyAt msyncValidate c s reg) :
    ∀ n ≤ dwarfNumPreservedRegs, RightSoFar c s n (establishBelow msyncValidate c s n) := by
  intro n
  induction n with
  | zero => intro _; exact ⟨rfl, rfl⟩
  | succ n ih =>
    intro hle
    exact (establishReg_right hle (ih (Nat.le_of_succ_le hle))).2 (h ⟨n, hle⟩)

/-- The loop up to a register, when it ends with every slot as it has to be: each turn
has then written what it had to. -/
theorem establish_inv_of_copies
    (h : CopiesRegisters msyncValidate c s (establishMachineState msyncValidate c s)) :
    ∀ n ≤ dwarfNumPreservedRegs, RightSoFar c s n (establishBelow msyncValidate c s n) ∧
      ∀ reg : Fin dwarfNumPreservedRegs, reg.val < n → OrderlyAt msyncValidate c s reg := by
  intro n
  induction n with
  | zero => intro _; exact ⟨⟨rfl, rfl⟩, fun reg hreg => absurd hreg (Nat.not_lt_zero _)⟩
  | succ n ih =>
    intro hle
    obtain ⟨hright, hord⟩ := ih (Nat.le_of_succ_le hle)
    obtain ⟨hiff, hnext⟩ := establishReg_right hle hright
    have hslot := load64_establishBelow msyncValidate c s ⟨n, hle⟩ _ hle le_rfl
    have hn := hiff.mp (hslot.symm.trans (h ⟨n, hle⟩))
    refine ⟨hnext hn, fun reg hreg => ?_⟩
    rcases Nat.lt_or_eq_of_le (Nat.le_of_lt_succ hreg) with hlt | heq
    · exact hord reg hlt
    · rw [show reg = ⟨n, hle⟩ from Fin.ext heq]
      exact hn

/-- **When resuming installs the cursor's registers.** The copy is exact if and only if
every register is in order. -/
theorem establishMachineState_exact_iff (c : Cursor) (s : ResumeState) :
    CopiesRegisters msyncValidate c s (establishMachineState msyncValidate c s) ↔
      CopyOrderly msyncValidate c s := by
  constructor
  · intro h reg
    exact (establish_inv_of_copies h _ le_rfl).2 reg reg.isLt
  · intro h reg
    have hmem := (establish_inv h _ le_rfl).mem
    unfold establishMachineState
    rw [hmem]
    exact load64_settled _ _ _ _ reg reg.isLt

end Loop

/-- A cursor whose registers are all in their own slots, except for `RDX`, which has no
save location. -/
def noRdx : Cursor where
  cfa := 0
  ip := 0
  argsSize := 0
  retAddrColumn := 16
  ehArgs _ := 0
  ehValidMask := 0
  loc reg := if reg = RDX then 0 else 0x1000 + ucOffset reg
  stashFrames := false
  usePrevInstr := true
  piValid := false
  piIsDynamic := false
  pi := ProcInfo.zero
  frameInfo := ⟨0, .other, false, false, 0, 0, 0⟩
  sigcontextFormat := .none
  sigcontextAddr := 0
  validate := false
  uc := 0x1000

/-- A saved context in which `RAX` is 1 and every other register is 0. -/
def raxOne : ResumeState := ⟨fun a => if a = 0x1048 then 1 else 0, Lga.empty, 0⟩

/-- `RDX` cannot be read, so its slot should be left at 0. It gets the value of `RAX`. -/
theorem establishMachineState_clobbers_rdx :
    load64 (establishMachineState msyncValidate noRdx raxOne).mem (slot noRdx RDX) = 1 ∧
      wanted msyncValidate noRdx raxOne RDX = 0 ∧
      ¬CopiesRegisters msyncValidate noRdx raxOne
        (establishMachineState msyncValidate noRdx raxOne) := by
  have hgot : load64 (establishMachineState msyncValidate noRdx raxOne).mem (slot noRdx RDX) = 1 := by
    decide
  have hwant : wanted msyncValidate noRdx raxOne RDX = 0 := by decide
  refine ⟨hgot, hwant, fun h => ?_⟩
  have := h RDX
  rw [hgot, hwant] at this
  exact absurd this (by decide)

end LibunwindKern
