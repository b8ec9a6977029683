import LibunwindKern.X86.Cursor
import LibunwindKern.X86.StepResult

/-!
# Writing a register

`unw_set_reg` stores most registers at their save locations. `RAX` and `RDX` are kept in the cursor,
for a handler, and the two registers that stand for the CFA cannot be written. The instruction
pointer is in two places, in the cursor and at its save location. The cursor is written first, and
the store may find no location.

* `unwSetReg_rip`, `unwSetReg_args`, `unwSetReg_saved`, `unwSetReg_refused`: the four kinds of
  registers.
* `unw_set_reg_atomic_iff`: a write is done as a whole or not at all, except when it changes the
  instruction pointer of a frame that has no location for it.
-/

namespace LibunwindKern

open CProg ByteMem Unw

/-- A register that is read and written at its save location, and nowhere else. -/
def IsSaved (reg : ℕ) : Prop := 2 ≤ reg ∧ reg < 16 ∧ reg ≠ 7

theorem IsSaved.lt {reg : ℕ} (h : IsSaved reg) : reg < dwarfNumPreservedRegs :=
  Nat.lt_succ_of_lt h.2.1

/-- The save locations of two registers, where they have one, share no byte. -/
def SavedApart (c : Cursor) (i j : ℕ) : Prop :=
  ∀ (hi : i < dwarfNumPreservedRegs) (hj : j < dwarfNumPreservedRegs),
    c.loc ⟨i, hi⟩ ≠ 0 → c.loc ⟨j, hj⟩ ≠ 0 → Disjoint64 (c.loc ⟨i, hi⟩) (c.loc ⟨j, hj⟩)

/-- **A register write**: a write that fails changes nothing, and after one that succeeds the
register reads as the value and the other registers as before. -/
structure AtomicWrite (w : Session) (reg : ℕ) (val : Word) : Prop where
  failed : ∀ e u, unwSetReg reg val w = (.err e, u) → u = w
  readback : ∀ u v g x, unwSetReg reg val w = (.ok (), u) →
    (unwGetReg v u.mem u.st.c reg g).1 = .ok x → x = val
  others : ∀ u other, unwSetReg reg val w = (.ok (), u) → other ≠ reg →
    SavedApart w.st.c reg other → ∀ v g,
      unwGetReg v u.mem u.st.c other g = unwGetReg v w.mem w.st.c other g

/-! ### The kinds of registers -/

section

variable {w : Session} {reg : ℕ} {val : Word}

/-- The session with another instruction pointer. -/
def Session.withIp (w : Session) (ip : Word) : Session :=
  { w with st := { w.st with c := { w.st.c with ip := ip } } }

/-- The session with the argument of a handler. -/
def Session.withArg (w : Session) (i : Fin 2) (val : Word) : Session :=
  { w with st := { w.st with c := { w.st.c with
      ehArgs := Function.update w.st.c.ehArgs i val
      ehValidMask := w.st.c.ehValidMask ||| (1 <<< i.val) } } }

theorem dwarfPut_eq (loc val : Word) (w : Session) :
    dwarfPut loc val w =
      if loc = 0 then (.err .ebadreg, w) else (.ok (), { w with mem := store64 w.mem loc val }) := by
  unfold dwarfPut
  split_ifs
  · rfl
  · rfl

theorem unwSetReg_rip (w : Session) (val : Word) :
    unwSetReg 16 val w =
      if w.st.c.loc RIP = 0 then (.err .ebadreg, w.withIp val)
      else (.ok (), { w.withIp val with mem := store64 w.mem (w.st.c.loc RIP) val }) :=
  dwarfPut_eq (w.st.c.loc RIP) val (w.withIp val)

theorem unwSetReg_args (w : Session) (i : Fin 2) (val : Word) :
    unwSetReg i val w = (.ok (), w.withArg i val) := by
  obtain ⟨i, hi⟩ := i
  unfold unwSetReg tdepAccessRegWrite
  rw [Act.get_bind, if_neg (by omega), if_neg (by omega), dif_pos hi]
  rfl

theorem unwSetReg_saved (h : IsSaved reg) (w : Session) (val : Word) :
    unwSetReg reg val w =
      if w.st.c.loc ⟨reg, h.lt⟩ = 0 then (.err .ebadreg, w)
      else (.ok (), { w with mem := store64 w.mem (w.st.c.loc ⟨reg, h.lt⟩) val }) := by
  have hlt := h.lt
  obtain ⟨hlow, hhigh, hsp⟩ := h
  unfold unwSetReg tdepAccessRegWrite
  rw [Act.get_bind, if_neg (by omega), if_neg (by omega), dif_neg (by omega), dif_pos hlt]
  exact dwarfPut_eq _ val w

/-- The other numbers are refused: two are read-only, and the rest are no registers. -/
theorem unwSetReg_refused (hrip : reg ≠ 16) (harg : ¬reg < 2) (hsaved : ¬IsSaved reg) (w : Session)
    (val : Word) : ∃ e, unwSetReg reg val w = (.err e, w) := by
  unfold unwSetReg tdepAccessRegWrite
  rw [Act.get_bind, if_neg hrip]
  by_cases hcfa : reg = 17 ∨ reg = 7
  · rw [if_pos hcfa]
    exact ⟨_, rfl⟩
  · have hnone : ¬reg < dwarfNumPreservedRegs := by
      intro hlt
      have hlt' : reg < 17 := hlt
      exact hsaved ⟨by omega, by omega, by omega⟩
    rw [if_neg hcfa, dif_neg harg, dif_neg hnone]
    exact ⟨_, rfl⟩

/-! ### Reading after writing -/

theorem unwGetReg_saved (h : IsSaved reg) (v : Validator) (m : Mem) (c : Cursor) :
    unwGetReg v m c reg = dwarfGet v m c (c.loc ⟨reg, h.lt⟩) := by
  have hlt := h.lt
  obtain ⟨hlow, hhigh, hsp⟩ := h
  unfold unwGetReg tdepAccessReg
  rw [if_neg (by omega), if_neg (by omega), dif_neg (by omega), dif_pos hlt]

theorem unwGetReg_arg (v : Validator) (m : Mem) (c : Cursor) (i : Fin 2) :
    unwGetReg v m c i = if c.ehValidMask.getLsbD i then pure (c.ehArgs i)
      else dwarfGet v m c (c.loc ⟨i, Nat.lt_trans i.isLt (by decide)⟩) := by
  obtain ⟨i, hi⟩ := i
  unfold unwGetReg tdepAccessReg
  rw [if_neg (by omega), if_neg (by omega), dif_pos hi]

/-- A value that can be read where a word was stored is the word. -/
theorem dwarfGet_store_self {v : Validator} {m : Mem} {c : Cursor} {loc x : Word} {g : Lga}
    (h : (dwarfGet v (store64 m loc val) c loc g).1 = .ok x) : x = val := by
  have hword := load64_store64_self m loc val
  unfold dwarfGet at h
  split_ifs at h with hloc
  · cases h
  · unfold accessMem at h
    rw [hword] at h
    split_ifs at h
    · exact (Res.ok.inj h).symm
    · exact (Res.ok.inj h).symm

/-- A store is not seen at a location that shares no byte with it. -/
theorem dwarfGet_store {m : Mem} {loc at_ : Word} (v : Validator) (c : Cursor)
    (h : loc ≠ 0 → Disjoint64 at_ loc) :
    dwarfGet v (store64 m at_ val) c loc = dwarfGet v m c loc := by
  unfold dwarfGet
  by_cases hloc : loc = 0
  · rw [if_pos hloc, if_pos hloc]
  · unfold accessMem
    rw [load64_store64_of_disjoint (h hloc)]

/-- A store at the location of a register is not seen by the other registers. -/
theorem unwGetReg_store {other : ℕ} (v : Validator) (m : Mem) (c : Cursor)
    (hlt : reg < dwarfNumPreservedRegs) (hloc : c.loc ⟨reg, hlt⟩ ≠ 0)
    (hapart : SavedApart c reg other) :
    unwGetReg v (store64 m (c.loc ⟨reg, hlt⟩) val) c other = unwGetReg v m c other := by
  unfold unwGetReg tdepAccessReg
  split_ifs with hrip hcfa harg hmask hpres
  · rfl
  · rfl
  · rfl
  · exact dwarfGet_store v c (hapart hlt _ hloc)
  · exact dwarfGet_store v c (hapart hlt _ hloc)
  · rfl

/-- The instruction pointer in the cursor is read as register 16 only. -/
theorem unwGetReg_withIp {other : ℕ} (v : Validator) (m : Mem) (ip : Word) (h : other ≠ 16) :
    unwGetReg v m (w.withIp ip).st.c other = unwGetReg v m w.st.c other := by
  unfold unwGetReg
  rw [if_neg h, if_neg h]
  rfl

/-- The mask of the arguments, after one was set. -/
theorem getLsbD_or_one (mask : BitVec 32) (i j : Fin 2) :
    (mask ||| (1 <<< i.val)).getLsbD j = (mask.getLsbD j || decide (i = j)) := by
  revert i j
  simp [Fin.forall_fin_two]

/-- The argument of a handler is read as its own register only. -/
theorem unwGetReg_withArg {other : ℕ} (v : Validator) (m : Mem) (i : Fin 2) (h : other ≠ i) :
    unwGetReg v m (w.withArg i val).st.c other = unwGetReg v m w.st.c other := by
  by_cases hlt : other < 2
  · have hne : (⟨other, hlt⟩ : Fin 2) ≠ i := fun heq => h (congrArg Fin.val heq)
    have hmask : (w.withArg i val).st.c.ehValidMask.getLsbD other =
        w.st.c.ehValidMask.getLsbD other := by
      have hor := getLsbD_or_one w.st.c.ehValidMask i ⟨other, hlt⟩
      rw [decide_eq_false (Ne.symm hne), Bool.or_false] at hor
      exact hor
    have harg : (w.withArg i val).st.c.ehArgs ⟨other, hlt⟩ = w.st.c.ehArgs ⟨other, hlt⟩ :=
      Function.update_of_ne hne _ _
    have hread := unwGetReg_arg v m (w.withArg i val).st.c ⟨other, hlt⟩
    rw [hmask, harg] at hread
    exact hread.trans (unwGetReg_arg v m w.st.c ⟨other, hlt⟩).symm
  · unfold unwGetReg tdepAccessReg
    rw [dif_neg hlt, dif_neg hlt]
    rfl

/-! ### Each kind is written as a whole -/

/-- A write that is always refused. -/
theorem AtomicWrite.of_refused (h : ∃ e, unwSetReg reg val w = (.err e, w)) :
    AtomicWrite w reg val := by
  obtain ⟨e, hrefused⟩ := h
  refine ⟨fun e' u h => ?_, fun u v g x h _ => ?_, fun u other h _ _ v g => ?_⟩
  · rw [hrefused] at h
    exact (congrArg Prod.snd h).symm
  · rw [hrefused] at h
    cases h
  · rw [hrefused] at h
    cases h

/-- A write that succeeds. -/
theorem AtomicWrite.of_ok {u : Session} (h : unwSetReg reg val w = (.ok (), u))
    (hreadback : ∀ v g x, (unwGetReg v u.mem u.st.c reg g).1 = .ok x → x = val)
    (hothers : ∀ other, other ≠ reg → SavedApart w.st.c reg other → ∀ v g,
      unwGetReg v u.mem u.st.c other g = unwGetReg v w.mem w.st.c other g) :
    AtomicWrite w reg val := by
  refine ⟨fun e u' h' => ?_, fun u' v g x h' hx => ?_, fun u' other h' hne hapart v g => ?_⟩
  · rw [h] at h'
    cases h'
  · rw [h] at h'
    cases congrArg Prod.snd h'
    exact hreadback v g x hx
  · rw [h] at h'
    cases congrArg Prod.snd h'
    exact hothers other hne hapart v g

theorem atomicWrite_arg (w : Session) (i : Fin 2) (val : Word) : AtomicWrite w i val := by
  refine AtomicWrite.of_ok (unwSetReg_args w i val) (fun v g x hx => ?_) fun other hne _ v g => ?_
  · have hmask : (w.withArg i val).st.c.ehValidMask.getLsbD i = true := by
      show (w.st.c.ehValidMask ||| (1 <<< i.val)).getLsbD i = true
      rw [getLsbD_or_one, decide_eq_true rfl, Bool.or_true]
    have harg : (w.withArg i val).st.c.ehArgs i = val := Function.update_self _ _ _
    rw [unwGetReg_arg, if_pos hmask, harg] at hx
    exact (Res.ok.inj hx).symm
  · exact congrFun (unwGetReg_withArg v w.mem i hne) g

theorem atomicWrite_saved (h : IsSaved reg) (w : Session) (val : Word) : AtomicWrite w reg val := by
  have hset := unwSetReg_saved h w val
  by_cases hloc : w.st.c.loc ⟨reg, h.lt⟩ = 0
  · rw [if_pos hloc] at hset
    exact AtomicWrite.of_refused ⟨_, hset⟩
  · rw [if_neg hloc] at hset
    refine AtomicWrite.of_ok hset (fun v g x hx => ?_) fun other _ hapart v g => ?_
    · rw [unwGetReg_saved h] at hx
      exact dwarfGet_store_self hx
    · exact congrFun (unwGetReg_store v w.mem w.st.c h.lt hloc hapart) g

theorem withIp_eq_self {ip : Word} : w.withIp ip = w ↔ w.st.c.ip = ip := by
  constructor
  · intro h
    exact (congrArg (fun u : Session => u.st.c.ip) h).symm
  · rintro rfl
    rfl

/-- The instruction pointer is written to the cursor before its location is looked at. -/
theorem atomicWrite_rip_iff (w : Session) (val : Word) :
    AtomicWrite w 16 val ↔ (w.st.c.loc RIP = 0 → w.st.c.ip = val) := by
  have hset := unwSetReg_rip w val
  by_cases hloc : w.st.c.loc RIP = 0
  · rw [if_pos hloc] at hset
    constructor
    · intro h _
      exact withIp_eq_self.mp (h.failed _ _ hset)
    · intro h
      rw [withIp_eq_self.mpr (h hloc)] at hset
      exact AtomicWrite.of_refused ⟨_, hset⟩
  · rw [if_neg hloc] at hset
    constructor
    · intro _ hzero
      exact absurd hzero hloc
    · intro _
      refine AtomicWrite.of_ok hset (fun v g x hx => ?_) fun other hne hapart v g => ?_
      · exact (Res.ok.inj hx).symm
      · -- First the store is undone, then the instruction pointer in the cursor.
        calc unwGetReg v (store64 w.mem (w.st.c.loc RIP) val) (w.withIp val).st.c other g
            = unwGetReg v w.mem (w.withIp val).st.c other g :=
              congrFun (unwGetReg_store v w.mem (w.withIp val).st.c RIP.isLt hloc hapart) g
          _ = unwGetReg v w.mem w.st.c other g := congrFun (unwGetReg_withIp v w.mem val hne) g

end

/-- **When a register write is atomic**: always, except for the instruction pointer of a frame that
has no location for it, where the cursor must hold the value already. -/
theorem unw_set_reg_atomic_iff (w : Session) (reg : ℕ) (val : Word) :
    AtomicWrite w reg val ↔ (reg = 16 → w.st.c.loc RIP = 0 → w.st.c.ip = val) := by
  by_cases hrip : reg = 16
  · subst hrip
    exact (atomicWrite_rip_iff w val).trans ⟨fun h _ => h, fun h => h rfl⟩
  · refine iff_of_true ?_ fun h => absurd h hrip
    by_cases harg : reg < 2
    · exact atomicWrite_arg w ⟨reg, harg⟩ val
    · by_cases hsaved : IsSaved reg
      · exact atomicWrite_saved hsaved w val
      · exact AtomicWrite.of_refused (unwSetReg_refused hrip harg hsaved w val)

/-- The cursor that a step leaves at the end of a chain, where the saved frame pointer is 0. -/
def chainEnd : Session :=
  ⟨(unwStep bareKernel msyncValidate (fun _ => 0) 0 bottomState).2, fun _ => 0⟩

/-- That write of the instruction pointer fails, and the cursor has the new one. -/
theorem unw_set_reg_rip_half_done :
    (unwStep bareKernel msyncValidate (fun _ => 0) 0 bottomState).1 = .ok 0 ∧
      (unwSetReg 16 0x12345 chainEnd).1 = .err .ebadreg ∧
      (unwSetReg 16 0x12345 chainEnd).2.st.c.ip = 0x12345 ∧ chainEnd.st.c.ip = 0x10000 ∧
      ¬AtomicWrite chainEnd 16 0x12345 := by
  have hold : chainEnd.st.c.ip = 0x10000 := by decide +kernel
  have hnew : (unwSetReg 16 0x12345 chainEnd).2.st.c.ip = 0x12345 := by decide +kernel
  have hfails : (unwSetReg 16 0x12345 chainEnd).1 = .err .ebadreg := by decide +kernel
  refine ⟨by decide +kernel, hfails, hnew, hold, fun h => ?_⟩
  have hsame := h.failed _ _ (Act.run_of_outcome hfails)
  rw [hsame, hold] at hnew
  exact absurd hnew (by decide)

end LibunwindKern
