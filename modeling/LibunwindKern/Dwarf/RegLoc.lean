import LibunwindKern.Dwarf.RegRules

/-!
# The location of a register

In the local-only build the location of a register (`DWARF_REG_LOC`) is the address of its slot
in the context that the unwinding started from, and an address has no type.

* The frames that were left since then may have saved the register somewhere else, and then the
  slot does not hold the register of the frame. A rule that says that a register is in another
  one denotes the slot (`register_rule_value_iff`).
* A slot of the context is an address like any other, and so a CFA expression that denotes a
  register is not rejected (`cfa_register_accepted`).
-/

namespace LibunwindKern

open CProg ByteMem Unw

/-! ### A row that is applied -/

section Applied

variable {v : Validator} {m : Mem} {fuel : ℕ} {rs : RegState} {s t : St}

/-- What a cursor is set up with, and no step changes. -/
def setup (s : St) : Bool × Word := (s.c.validate, s.c.uc)

theorem tdepStashFrame_setup : Act.Keeps setup (tdepStashFrame rs) := by
  refine Act.Keeps.bind Act.Keeps.get fun s => ?_
  split
  · split
    · exact fun _ => rfl
    · split
      · exact Act.Keeps.lift _
      · exact Act.Keeps.pure _
  · exact Act.Keeps.lift _

theorem finishFrame_setup (prevIp prevCfa : Word) :
    Act.Keeps setup (finishFrame rs prevIp prevCfa) := by
  refine Act.Keeps.bind Act.Keeps.get fun s => ?_
  split
  · exact Act.Keeps.fail _
  · split
    · exact tdepStashFrame_setup
    · exact Act.Keeps.pure _

theorem applyRegState_setup : Act.Keeps setup (applyRegState v m fuel rs) := by
  have hblind : Blind setup := ⟨fun _ _ => rfl, fun _ _ => rfl⟩
  refine Act.Keeps.bind Act.Keeps.get fun s => ?_
  refine Act.Keeps.bind (evalCfa_keeps v m fuel rs hblind.lga) fun cfa => ?_
  refine Act.Keeps.bind (applyRules_keeps v m fuel rs hblind cfa _) fun _ => ?_
  refine Act.Keeps.bind (fun _ => rfl) fun _ => ?_
  refine Act.Keeps.bind (readReturnAddress_keeps hblind.lga v m) fun ip => ?_
  exact Act.Keeps.bind (fun _ => rfl) fun _ => finishFrame_setup _ _

/-- **A row that is applied**: the CFA is computed, then the columns are done, and both are in the
cursor at the end. -/
theorem applyRegState_eq_ok (h : applyRegState v m fuel rs s = (.ok (), t)) :
    ∃ cfa u w, evalCfa v m fuel rs s = (.ok cfa, u) ∧
      applyRules v m fuel rs cfa (List.finRange dwarfNumPreservedRegs) u = (.ok (), w) ∧
      t.c.cfa = cfa ∧ t.c.loc = w.c.loc := by
  unfold applyRegState at h
  rw [Act.get_bind] at h
  obtain ⟨cfa, u, hcfa, h⟩ := Act.bind_eq_ok h
  obtain ⟨⟨⟩, w, hrules, h⟩ := Act.bind_eq_ok h
  rw [setCursor_bind] at h
  obtain ⟨hnew, hloc⟩ := Prod.mk.inj ((afterRules_keeps s.c.ip s.c.cfa).run h)
  exact ⟨cfa, u, w, hcfa, hrules, hnew, hloc⟩

end Applied

/-! ### A register that is in another one -/

section Register

variable {m : Mem} {c : Cursor}

/-- `dwarf_get` can read the word at this location, with the validator that is installed. -/
def CanGet (c : Cursor) (loc : Word) : Prop := loc ≠ 0 ∧ (c.validate = true → pageStart loc ≠ 0)

theorem dwarfGet_msync (loc : Word) (x : Word) (g : Lga) :
    (dwarfGet msyncValidate m c loc g).1 = .ok x ↔ CanGet c loc ∧ load64 m loc = x := by
  unfold CanGet
  by_cases hloc : loc = 0
  · rw [hloc, dwarfGet_null]
    exact iff_of_false nofun fun h => h.1.1 rfl
  · rw [dwarfGet_of_ne _ _ _ hloc]
    cases hv : c.validate with
    | false =>
      -- no page is validated
      rw [accessMem_of_not_validate, Res.ok.injEq]
      exact (and_iff_right ⟨hloc, nofun⟩).symm
    | true =>
      -- the validator refuses the first page only
      rw [accessMem_of_validate, validateMem_msync]
      by_cases hpage : pageStart loc = 0
      · rw [if_neg (by rw [decide_eq_true_eq]; exact not_not_intro hpage)]
        exact iff_of_false nofun fun h => h.1.2 rfl hpage
      · rw [if_pos (decide_eq_true hpage), Res.ok.injEq]
        exact (and_iff_right ⟨hloc, fun _ => hpage⟩).symm

/-- A register that is not special is read at its location. -/
theorem unwGetReg_eq (v : Validator) {j : Fin dwarfNumPreservedRegs} (hle : j.val ≤ 15)
    (hsp : j ≠ RSP) (hset : c.ehValidMask = 0) :
    unwGetReg v m c j = dwarfGet v m c (c.loc j) := by
  -- `RIP` and `RSP` are not read at their locations
  have hne : ¬(j.val = 17 ∨ j.val = 7) := by
    rintro (h | h)
    · omega
    · exact hsp (Fin.ext h)
  -- a register that was set for the handler is read from the cursor
  have hmask : c.ehValidMask.getLsbD j ≠ true := by
    rw [hset]
    simp
  unfold unwGetReg tdepAccessReg
  rw [if_neg (by omega), if_neg hne]
  split_ifs with heh hpres
  · rfl
  · rfl
  · exact absurd j.isLt hpres

/-- The slot of a register in the context holds what the register has in the frame. -/
def SlotHolds (m : Mem) (c : Cursor) (j : Fin dwarfNumPreservedRegs) : Prop :=
  CanGet c (regLoc c j) ∧ load64 m (regLoc c j) = load64 m (c.loc j)

/-- A register rule denotes the slot. -/
theorem applyRegState_regLoc {v : Validator} {fuel : ℕ} {rs : RegState} {s t : St}
    {i j : Fin dwarfNumPreservedRegs} (hrule : (rs (column i)).whereSaved = .reg)
    (hj : (rs (column i)).val.toNat = j) (h : applyRegState v m fuel rs s = (.ok (), t)) :
    t.c.loc i = regLoc s.c j := by
  obtain ⟨cfa, u, w, hcfa, hrules, -, hloc⟩ := applyRegState_eq_ok h
  obtain ⟨u', hbefore, hrun⟩ := applyRules_column v m fuel rs cfa hrules i
  have hregnum : dwarfToUnwRegnum (rs (column i)).val = .ok j.val := by
    unfold dwarfToUnwRegnum
    rw [hj, if_pos j.isLt]
  unfold ruleLoc at hrun
  rw [Act.get_bind, hrule, hregnum] at hrun
  -- the context is what the cursor was set up with
  have huc : regLoc u'.c j = regLoc s.c j := by
    rw [(applyRules_before v m fuel rs cfa hbefore).1, evalCfa_state v m fuel rs hcfa]
    rfl
  rw [hloc, ← huc]
  exact (Res.ok.inj hrun).symm

/-- **A register that is in another one**: what is read through its location is the value of the
other register in the frame before, if and only if the slot of that register still holds it. -/
theorem register_rule_value_iff (m : Mem) (fuel : ℕ) (rs : RegState) (s t : St)
    (i j : Fin dwarfNumPreservedRegs) (x : Word) (hrule : (rs (column i)).whereSaved = .reg)
    (hj : (rs (column i)).val.toNat = j) (hle : j.val ≤ 15) (hsp : j ≠ RSP)
    (hset : s.c.ehValidMask = 0) (hx : (unwGetReg msyncValidate m s.c j s.lga).1 = .ok x)
    (h : applyRegState msyncValidate m fuel rs s = (.ok (), t)) :
    (dwarfGet msyncValidate m t.c (t.c.loc i) t.lga).1 = .ok x ↔ SlotHolds m s.c j := by
  obtain ⟨hvalidate, -⟩ := Prod.mk.inj (applyRegState_setup.run h)
  -- both reads go by the same flag
  have hcan : CanGet t.c (regLoc s.c j) ↔ CanGet s.c (regLoc s.c j) := by
    unfold CanGet
    rw [hvalidate]
  rw [unwGetReg_eq msyncValidate hle hsp hset, dwarfGet_msync] at hx
  rw [applyRegState_regLoc hrule hj h, dwarfGet_msync, hcan, ← hx.2]
  rfl

end Register

/-- A stack where `RBX` was saved as 5 at `0x7000`, with the return address `0x5100` above it. -/
def savedRbxMem : Mem := fun a => if a = 0x7000 then 5 else if a = 0x7009 then 0x51 else 0

/-- The frame that an unwinding starts from: each register is in its slot of the context. -/
def innerFrame : St :=
  { callFrame 0x5012 with
    c := { (callFrame 0x5012).c with loc := fun i => regLoc (callFrame 0x5012).c i } }

/-- The CFA is `RSP` + 16, and `RBX` and the return address are saved below it. -/
def saveRbxRow : RegState :=
  rowOf [(cfaRegColumn, ⟨.reg, 7⟩), (cfaOffColumn, ⟨.undefined, 16⟩), (column RBX, ⟨.cfarel, -16⟩),
    (column RIP, ⟨.cfarel, -8⟩)]

/-- The CFA is `RSP` + 16, and `R12` is in `RBX`. -/
def r12InRbxRow : RegState :=
  rowOf [(cfaRegColumn, ⟨.reg, 7⟩), (cfaOffColumn, ⟨.undefined, 16⟩), (column R12, ⟨.reg, 3⟩),
    (column RIP, ⟨.cfarel, -8⟩)]

/-- In the innermost frame `RBX` is in its slot. -/
theorem register_rule_value_innermost :
    (dwarfGet msyncValidate savedRbxMem
      (applyRegState msyncValidate savedRbxMem 9 r12InRbxRow innerFrame).2.c
      ((applyRegState msyncValidate savedRbxMem 9 r12InRbxRow innerFrame).2.c.loc R12)
      (applyRegState msyncValidate savedRbxMem 9 r12InRbxRow innerFrame).2.lga).1 = .ok 0 := by
  have hrun : (applyRegState msyncValidate savedRbxMem 9 r12InRbxRow innerFrame).1 = .ok () := by
    decide +kernel
  refine (register_rule_value_iff savedRbxMem 9 r12InRbxRow innerFrame _ R12 RBX 0 rfl rfl
    (by decide) (by decide) rfl (by decide +kernel) (Act.run_of_outcome hrun)).2 ?_
  exact ⟨⟨by decide +kernel, fun _ => by decide +kernel⟩, rfl⟩

/-- The state after the step out of the innermost frame, which had saved `RBX`. -/
def outerFrame : St := (applyRegState msyncValidate savedRbxMem 9 saveRbxRow innerFrame).2

/-- In the outer frame `RBX` is 5, but `R12` is read from the slot, which holds 0. -/
theorem register_rule_reads_slot :
    (applyRegState msyncValidate savedRbxMem 9 saveRbxRow innerFrame).1 = .ok () ∧
      (unwGetReg msyncValidate savedRbxMem outerFrame.c 3 outerFrame.lga).1 = .ok 5 ∧
      (applyRegState msyncValidate savedRbxMem 9 r12InRbxRow outerFrame).1 = .ok () ∧
      (dwarfGet msyncValidate savedRbxMem
        (applyRegState msyncValidate savedRbxMem 9 r12InRbxRow outerFrame).2.c
        ((applyRegState msyncValidate savedRbxMem 9 r12InRbxRow outerFrame).2.c.loc R12)
        (applyRegState msyncValidate savedRbxMem 9 r12InRbxRow outerFrame).2.lga).1 = .ok 0 := by
  refine ⟨?_, ?_, ?_, ?_⟩ <;> decide +kernel

/-! ### A CFA that is a register -/

section CfaRegister

variable (v : Validator) (m : Mem) (fuel : ℕ)

theorem dwarfToUnwRegnum_lt {reg : Word} {n : ℕ} (h : dwarfToUnwRegnum reg = .ok n) :
    n < dwarfNumPreservedRegs := by
  unfold dwarfToUnwRegnum at h
  split_ifs at h with hlt
  · cases h
    exact hlt
  · cases h
    decide

/-- The register that an expression denotes is one of those in the map. -/
theorem execOp_register {c : Cursor} {op : DwOp} {n : ℕ} {s t : ExprState}
    (h : execOp v m c op s = (.ok (some n), t)) : n < dwarfNumPreservedRegs := by
  unfold execOp at h
  rw [Act.get_bind] at h
  split at h
  · obtain ⟨regnum, u, hmap, h⟩ := Act.bind_eq_ok h
    cases h
    exact dwarfToUnwRegnum_lt (congrArg Prod.fst hmap)
  · obtain ⟨regnum, u, hmap, h⟩ := Act.bind_eq_ok h
    cases h
    exact dwarfToUnwRegnum_lt (congrArg Prod.fst hmap)
  · -- any other operation leaves a value on the stack
    obtain ⟨⟨⟩, u, -, h⟩ := Act.bind_eq_ok h
    cases h

theorem dwarfEvalExpr_register {c : Cursor} {addr len reg : Word} {g g' : Lga}
    (h : dwarfEvalExpr v m c fuel addr len g = (.ok (reg, true), g')) :
    reg.toNat < dwarfNumPreservedRegs := by
  rw [dwarfEvalExpr_eq_start] at h
  -- the loop ends with a register in a turn that executes `DW_OP_reg` or `DW_OP_regx`
  have hturn : ∀ i s a t, evalTurn v m c (addr + len) i s = (.ok (.inr a), t) →
      a.2 = true → a.1.toNat < dwarfNumPreservedRegs := by
    intro i s a t hrun hreg
    unfold evalTurn at hrun
    rw [Act.get_bind] at hrun
    split_ifs at hrun
    · rw [Act.modify_bind] at hrun
      obtain ⟨opcode, s₁, -, hrun⟩ := Act.bind_eq_ok hrun
      cases hop : DwOp.ofByte opcode with
      | none =>
        rw [hop] at hrun
        cases hrun
      | some op =>
        rw [hop] at hrun
        obtain ⟨⟨⟩, s₂, -, hrun⟩ := Act.bind_eq_ok hrun
        obtain ⟨r, s₃, hexec, hrun⟩ := Act.bind_eq_ok hrun
        cases r with
        | none => cases hrun
        | some regnum =>
          cases hrun
          have hlt := execOp_register v m hexec
          change (BitVec.ofNat 64 regnum).toNat < _
          rw [BitVec.toNat_ofNat]
          exact lt_of_le_of_lt (Nat.mod_le _ _) hlt
    · -- the loop is at its end, and the value is no register
      obtain ⟨val, s₁, -, hrun⟩ := Act.bind_eq_ok hrun
      cases hrun
      cases hreg
  obtain ⟨hout, -⟩ := Prod.mk.inj h
  exact Act.iter_result hturn (Act.run_of_outcome hout) rfl

/-- The location that an expression denotes, once it is evaluated. -/
theorem evalLocationExpr_of_ok {v : Validator} {m : Mem} {fuel : ℕ} {s : St} {addr addr' len : Word}
    {r : Word × Bool} {g : Lga} (hlen : dwarfReadUleb128 m addr = (.ok len, addr'))
    (heval : dwarfEvalExpr v m s.c fuel addr' len s.lga = (.ok r, g)) :
    evalLocationExpr v m fuel addr s =
      (if r.2 then (do
        let regnum ← Act.lift (dwarfToUnwRegnum r.1)
        pure (regLoc s.c regnum))
      else pure r.1 : Unw Word) { s with lga := g } := by
  have hread : read (fun c => dwarfEvalExpr v m c fuel addr' len) s =
      (.ok r, { s with lga := g }) := read_of_ok heval
  unfold evalLocationExpr
  rw [Act.get_bind, hlen]
  exact Act.bind_of_ok hread

/-- The row is rejected because its CFA is no location in memory. -/
structure RejectsCfa (rs : RegState) (s : St) : Prop where
  returns : (applyRegState v m fuel rs s).1 = .err .ebadframe
  unused : ∀ cfa u, evalCfa v m fuel rs s ≠ (.ok cfa, u)

/-- **A CFA that is a register** is not rejected: the slot of the register in the context is used
as the CFA. -/
theorem cfa_register_accepted (v : Validator) (m : Mem) (fuel : ℕ) (rs : RegState) (s : St)
    (addr len reg : Word) (g : Lga) (hexpr : (rs cfaRegColumn).whereSaved = .expr)
    (hlen : dwarfReadUleb128 m (rs cfaRegColumn).val = (.ok len, addr))
    (heval : dwarfEvalExpr v m s.c fuel addr len s.lga = (.ok (reg, true), g)) :
    ¬RejectsCfa v m fuel rs s ∧
      ∀ t, applyRegState v m fuel rs s = (.ok (), t) → t.c.cfa = regLoc s.c reg.toNat := by
  have hregnum : dwarfToUnwRegnum reg = .ok reg.toNat := by
    unfold dwarfToUnwRegnum
    rw [if_pos (dwarfEvalExpr_register v m fuel heval)]
  -- `DWARF_IS_REG_LOC` is 0, so the location is taken as it is
  have hcfa : evalCfa v m fuel rs s = (.ok (regLoc s.c reg.toNat), { s with lga := g }) := by
    have hloc : evalLocationExpr v m fuel (rs cfaRegColumn).val s =
        (.ok (regLoc s.c reg.toNat), { s with lga := g }) := by
      rw [evalLocationExpr_of_ok hlen heval, if_pos rfl, hregnum]
      rfl
    unfold evalCfa
    rw [Act.get_bind, hexpr]
    exact Act.bind_of_ok hloc
  refine ⟨fun hrej => hrej.unused _ _ hcfa, fun t ht => ?_⟩
  obtain ⟨cfa, u, w, hcfa', -, hnew, -⟩ := applyRegState_eq_ok ht
  rw [hcfa] at hcfa'
  cases hcfa'
  exact hnew

end CfaRegister

/-- The block `DW_OP_reg3` at `0x9000`. -/
def reg3Mem : Mem := fun a => ([0x01, 0x53] : List Byte).getD (a - 0x9000).toNat 0

/-- The CFA is the block. -/
def exprCfaRow : RegState := rowOf [(cfaRegColumn, ⟨.expr, 0x9000⟩)]

/-- The block denotes `RBX`, and the row is not rejected. -/
theorem cfa_register_accepted_rbx :
    (dwarfEvalExpr msyncValidate reg3Mem (callFrame 0x5012).c 9 0x9001 1 Lga.empty).1 =
        .ok (3, true) ∧
      ¬RejectsCfa msyncValidate reg3Mem 9 exprCfaRow (callFrame 0x5012) := by
  have heval : dwarfEvalExpr msyncValidate reg3Mem (callFrame 0x5012).c 9 0x9001 1 Lga.empty =
      (.ok (3, true), Lga.empty) := rfl
  exact ⟨congrArg Prod.fst heval,
    (cfa_register_accepted msyncValidate reg3Mem 9 exprCfaRow (callFrame 0x5012) 0x9001 1 3 Lga.empty
      rfl rfl heval).1⟩

/-- The call succeeds, and the slot of `RBX` is the CFA. -/
theorem cfa_register_used :
    (dwarfEvalExpr msyncValidate reg3Mem (callFrame 0x5012).c 9 0x9001 1 Lga.empty).1 =
        .ok (3, true) ∧
      (applyRegState msyncValidate reg3Mem 9 exprCfaRow (callFrame 0x5012)).1 = .ok () ∧
      (applyRegState msyncValidate reg3Mem 9 exprCfaRow (callFrame 0x5012)).2.c.cfa = 0x40050 := by
  refine ⟨?_, ?_, ?_⟩ <;> decide +kernel

end LibunwindKern
