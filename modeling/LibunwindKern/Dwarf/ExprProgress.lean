import LibunwindKern.Dwarf.ExprFraming
import LibunwindKern.Dwarf.ReadProgress

/-!
# Expressions that only go forward

The loop of `dwarf_eval_expr` ends when the address variable has left the block. An operation moves
it behind its operands, and a branch adds a signed 16-bit displacement to that. So without a
negative displacement each turn goes on by one byte at least, and the addresses at which opcodes
are fetched increase.

The addresses wrap, and what keeps a turn from wrapping is the room behind the block: 8 bytes for
the operands and less than `2 ^ 15` for a displacement.

`GoesOn x s` says this of a part `x` of a turn, in the state `s`. `evalTurn_goesOn` is the step
lemma, `iter_goesOn` the run lemma, and `expr_forward_terminates` the result.
-/

namespace LibunwindKern

open CProg ByteMem Eval

/-- The address variable does not go back, and nothing is fetched. -/
def NotBack (s t : ExprState) : Prop := NotBefore s.addr t.addr ∧ t.fetched = s.fetched

instance : IsPreorder ExprState NotBack where
  refl _ := ⟨refl_of NotBefore _, rfl⟩
  trans _ _ _ h h' := ⟨trans_of NotBefore h.1 h'.1, h'.2.trans h.2⟩

/-- The call ends, does not go back and fetches nothing. -/
abbrev GoesOn {α : Type} (x : Eval α) (s : ExprState) : Prop := Act.EndsIn NotBack x s

/-- The operation at `a` is a branch with a negative displacement. -/
def BranchesBack (m : Mem) (a : Word) : Prop :=
  ∃ op, DwOp.ofByte (m a) = some op ∧ isBranch op = true ∧ (load16 m (a + 1)).msb = true

section

variable {v : Validator} {m : Mem} {c : Cursor} {s : ExprState} {α : Type}

/-- What leaves the address variable alone goes on. -/
theorem Stays.goesOn {x : Eval α} (hx : Stays x) : GoesOn x s := by
  refine hx.ends.endsIn (hx.keeps.moves fun s t hplace => ?_)
  obtain ⟨haddr, hfetched⟩ := Prod.mk.inj hplace
  exact ⟨Nat.le_of_eq (congrArg BitVec.toNat haddr.symm), hfetched⟩

/-- Reading moves the address variable as the reader does. -/
theorem onAddr_goesOn {x : Reader α} (hx : Onward x s.addr) : GoesOn (Eval.onAddr x) s :=
  ⟨hx.ends, hx.rel, rfl⟩

/-! ### The operands -/

theorem readOperand_onward {t : OperandType} {a : Word} (hroom : a.toNat + 8 < 2 ^ 64)
    (hleb : t.isLeb = true → LebEnds m a) : Onward (readOperand m t) a := by
  cases t with
  | val8 => exact (onward_of_load (n := 1) rfl (by omega)).bind fun _ _ _ => Act.EndsIn.pure _
  | val16 => exact (onward_of_load (n := 2) rfl (by omega)).bind fun _ _ _ => Act.EndsIn.pure _
  | val32 => exact (onward_of_load (n := 4) rfl (by omega)).bind fun _ _ _ => Act.EndsIn.pure _
  | val64 => exact onward_of_load (n := 8) rfl hroom
  | uleb128 => exact dwarfReadUleb128_onward (hleb rfl)
  | sleb128 => exact dwarfReadSleb128_onward (hleb rfl)
  | offset => exact Act.EndsIn.fail _
  | addr => exact onward_of_load (n := 8) rfl hroom

/-- Only `DW_OP_bregx` has two operands, and both are LEB128. -/
theorem operands_two {op : DwOp} {t₁ t₂ : OperandType} {ts : List OperandType}
    (h : operands op = t₁ :: t₂ :: ts) : t₁ = .uleb128 ∧ t₂ = .sleb128 := by
  cases op <;> cases h
  exact ⟨rfl, rfl⟩

theorem readOperands_goesOn {op : DwOp} (hroom : s.addr.toNat + 8 < 2 ^ 64)
    (hleb : ∀ x ∈ operandReads m (operands op) s.addr, x.1.isLeb = true → LebEnds m x.2) :
    GoesOn (readOperands m op) s := by
  have hstore₁ : ∀ val t, GoesOn (Act.modify fun s => { s with operand1 := val }) t :=
    fun _ _ => Act.EndsIn.modify ⟨Nat.le_refl _, rfl⟩
  have hstore₂ : ∀ val t, GoesOn (Act.modify fun s => { s with operand2 := val }) t :=
    fun _ _ => Act.EndsIn.modify ⟨Nat.le_refl _, rfl⟩
  unfold readOperands
  split
  · exact (Stays.pure ()).goesOn
  · next t htypes =>
    rw [htypes] at hleb
    have hfirst := readOperand_onward (m := m) hroom (hleb (t, s.addr) List.mem_cons_self)
    exact (onAddr_goesOn hfirst).bind fun val t _ => hstore₁ val t
  · next t₁ t₂ ts htypes =>
    rw [htypes] at hleb
    obtain ⟨rfl, rfl⟩ := operands_two htypes
    have hfirst := readOperand_onward (m := m) hroom (hleb (.uleb128, s.addr) List.mem_cons_self)
    refine (onAddr_goesOn hfirst).bind fun val₁ t hread => ?_
    obtain ⟨b, hb, rfl⟩ := Act.zoom_eq_ok hread
    refine (hstore₁ val₁ _).bind fun _ t hmodify => ?_
    cases hmodify
    -- the second operand stands where the first one ends
    have hmem : (OperandType.sleb128, b) ∈
        operandReads m (.uleb128 :: .sleb128 :: ts) s.addr := by
      rw [operandReads, hb]
      exact List.mem_cons_of_mem _ List.mem_cons_self
    exact (onAddr_goesOn (dwarfReadSleb128_onward (hleb _ hmem rfl))).bind fun val t _ =>
      hstore₂ val t

/-! ### Branches -/

/-- A displacement that is not negative is added as it is. -/
theorem toNat_add_displacement {a : Word} {d : BitVec 16} (hd : d.msb = false)
    (hroom : a.toNat + 2 ^ 15 < 2 ^ 64) : (a + d.signExtend 64).toNat = a.toNat + d.toNat := by
  have hlt : d.toNat < 2 ^ 15 := by
    rw [BitVec.msb_eq_decide, decide_eq_false_iff_not] at hd
    omega
  rw [BitVec.signExtend_eq_setWidth_of_msb_false hd, BitVec.toNat_add, BitVec.toNat_setWidth]
  omega

theorem branch_goesOn {d : BitVec 16} (hoperand : s.operand1 = d.setWidth 64) (hd : d.msb = false)
    (hroom : s.addr.toNat + 2 ^ 15 < 2 ^ 64) : GoesOn Eval.branch s := by
  have hcut : s.operand1.setWidth 16 = d := by
    rw [hoperand]
    exact BitVec.setWidth_setWidth_of_le d (by decide)
  refine ⟨nofun, ?_, rfl⟩
  show s.addr.toNat ≤ (s.addr + (s.operand1.setWidth 16).signExtend 64).toNat
  rw [hcut, toNat_add_displacement hd hroom]
  exact Nat.le_add_right _ _

theorem execOp_branch_goesOn {op : DwOp} {d : BitVec 16} (hop : isBranch op = true)
    (hoperand : s.operand1 = d.setWidth 64) (hd : d.msb = false)
    (hroom : s.addr.toNat + 2 ^ 15 < 2 ^ 64) : GoesOn (execOp v m c op) s := by
  have hbranch : ∀ t : ExprState, t.addr = s.addr → t.operand1 = s.operand1 →
      GoesOn Eval.branch t := by
    intro t haddr hsame
    exact branch_goesOn (hsame.trans hoperand) hd (by rwa [haddr])
  cases op
  case skip =>
    exact Act.EndsIn.bind Stays.get.goesOn fun _ t hget => by
      cases hget
      exact (hbranch s rfl rfl).bind fun _ _ _ => (Stays.pure none).goesOn
  case bra =>
    refine Act.EndsIn.bind Stays.get.goesOn fun _ t hget => ?_
    cases hget
    refine Act.EndsIn.bind ?_ fun _ _ _ => (Stays.pure none).goesOn
    refine pop_stays.goesOn.bind fun tmp1 t hpop => ?_
    split
    · have hplace := pop_stays.keeps.run hpop
      exact hbranch t (congrArg Prod.fst hplace) (pop_operand1.run hpop)
    · exact (Stays.pure ()).goesOn
  all_goals cases hop

/-! ### Turns -/

theorem afterOp_stays (r : Option ℕ) : Stays (afterOp r) := by
  cases r with
  | none => exact Stays.pure _
  | some regnum => exact Stays.pure _

/-- The operand of a branch is the 16-bit word behind the opcode. -/
theorem readOperands_branch {op : DwOp} (hop : isBranch op = true) {t : ExprState}
    (hread : readOperands m op s = (.ok (), t)) :
    t.operand1 = (load16 m s.addr).setWidth 64 ∧ t.addr = s.addr + 2 := by
  cases op
  case skip => cases hread; exact ⟨rfl, rfl⟩
  case bra => cases hread; exact ⟨rfl, rfl⟩
  all_goals cases hop

/-- **One turn.** Inside of a block with room behind it, a turn that does not branch back goes on by
one byte at least. -/
theorem evalTurn_goesOn {e : Word} (hroom : e.toNat + 2 ^ 17 < 2 ^ 64) (hlt : s.addr < e)
    (hleb : ∀ a ∈ lebReads m s.addr, LebEnds m a) (hback : ¬BranchesBack m s.addr) :
    (evalTurn v m c e () s).1 ≠ .diverge ∧
      s.addr.toNat < (evalTurn v m c e () s).2.addr.toNat ∧
      (evalTurn v m c e () s).2.fetched = s.fetched ++ [s.addr] := by
  have hbelow : s.addr.toNat < e.toNat := hlt
  have hnext : s.pastOpcode.addr.toNat = s.addr.toNat + 1 := toNat_past (n := 1) (by omega)
  rw [evalTurn_of_lt hlt]
  cases hop : DwOp.ofByte (m s.addr) with
  | none => exact ⟨nofun, by rw [hnext]; exact Nat.lt_succ_self _, rfl⟩
  | some op =>
    have hoperands : ∀ x ∈ operandReads m (operands op) s.pastOpcode.addr, x.1.isLeb = true →
        LebEnds m x.2 := by
      intro x hx hx1
      apply hleb
      unfold lebReads
      rw [hop]
      exact List.mem_map_of_mem (List.mem_filter.2 ⟨hx, hx1⟩)
    have hturn : GoesOn (readOperands m op >>= fun _ => execOp v m c op >>= afterOp)
        s.pastOpcode := by
      refine (readOperands_goesOn (by omega) hoperands).bind fun _ t hread => ?_
      refine Act.EndsIn.bind ?_ fun r _ _ => (afterOp_stays r).goesOn
      cases hbranch : isBranch op with
      | false => exact (execOp_stays hbranch v m c).goesOn
      | true =>
        -- a displacement that is not negative, from behind the operand
        obtain ⟨hoperand, haddr⟩ := readOperands_branch hbranch hread
        have hd : (load16 m (s.addr + 1)).msb = false := by
          rw [← Bool.not_eq_true]
          exact fun hmsb => hback ⟨op, hop, hbranch, hmsb⟩
        have hbehind : t.addr.toNat = s.pastOpcode.addr.toNat + 2 := by
          rw [haddr]
          exact toNat_past (n := 2) (by omega)
        exact execOp_branch_goesOn hbranch hoperand hd (by omega)
    have hle : s.pastOpcode.addr.toNat ≤ _ := hturn.rel.1
    exact ⟨hturn.ends, Nat.lt_of_lt_of_le (by omega) hle, hturn.rel.2⟩

end

/-! ### Runs -/

/-- The addresses increase, from `lo` on and below `hi`, and there are at most as many of them as
there are addresses in between. -/
structure Increasing (lo hi : ℕ) (l : List Word) : Prop where
  sorted : l.Pairwise fun a b => a.toNat < b.toNat
  inside : ∀ a ∈ l, lo ≤ a.toNat ∧ a.toNat < hi
  count : lo + l.length ≤ hi

theorem Increasing.nil {lo hi : ℕ} (h : lo ≤ hi) : Increasing lo hi [] :=
  ⟨List.Pairwise.nil, nofun, h⟩

theorem Increasing.mono {lo hi hi' : ℕ} {l : List Word} (h : Increasing lo hi l) (hle : hi ≤ hi') :
    Increasing lo hi' l where
  sorted := h.sorted
  inside := fun a ha => ⟨(h.inside a ha).1, Nat.lt_of_lt_of_le (h.inside a ha).2 hle⟩
  count := Nat.le_trans h.count hle

theorem Increasing.concat {lo : ℕ} {l : List Word} {a : Word} (h : Increasing lo a.toNat l) :
    Increasing lo (a.toNat + 1) (l ++ [a]) where
  sorted := by
    refine List.pairwise_append.2 ⟨h.sorted, List.pairwise_singleton _ _, fun x hx y hy => ?_⟩
    obtain rfl := List.mem_singleton.1 hy
    exact (h.inside x hx).2
  inside := by
    intro x hx
    rcases List.mem_append.1 hx with hx | hx
    · exact (h.mono (Nat.le_succ _)).inside x hx
    · obtain rfl := List.mem_singleton.1 hx
      exact ⟨Nat.le_trans (Nat.le_add_right _ _) h.count, Nat.lt_succ_self _⟩
  count := by
    rw [List.length_append, List.length_singleton, ← Nat.add_assoc]
    exact Nat.succ_le_succ h.count

section

variable {v : Validator} {m : Mem} {c : Cursor}

/-- At the end of the block the value is popped, and nothing is fetched. -/
theorem evalTurn_at_end {e : Word} {s : ExprState} (h : ¬s.addr < e) :
    (evalTurn v m c e () s).1 ≠ .diverge ∧ (∀ j, (evalTurn v m c e () s).1 ≠ .ok (.inl j)) ∧
      (evalTurn v m c e () s).2.fetched = s.fetched := by
  rw [evalTurn_of_not_lt h]
  have hstays : Stays (pop >>= fun val =>
      (pure (.inr (val, false)) : Eval (Unit ⊕ (Word × Bool)))) :=
    pop_stays.bind fun _ => Stays.pure _
  refine ⟨hstays.ends s, fun j hj => ?_, congrArg Prod.snd (hstays.keeps s)⟩
  obtain ⟨val, t, -, hval⟩ := Act.bind_eq_ok (Act.run_of_outcome hj)
  cases hval

/-- **The run.** By induction on the number of turns. The addresses fetched so far are below the
address variable, and those of the whole run below the end of the block. -/
theorem iter_goesOn {lo : ℕ} {e : Word} (hroom : e.toNat + 2 ^ 17 < 2 ^ 64) {fuel : ℕ}
    {s : ExprState}
    (hturns : ∀ t ∈ Act.iterStates (evalTurn v m c e) fuel () s, t.addr < e →
      (∀ a ∈ lebReads m t.addr, LebEnds m a) ∧ ¬BranchesBack m t.addr)
    (hinc : Increasing lo s.addr.toNat s.fetched) (hblock : Increasing lo e.toNat s.fetched) :
    (e.toNat - s.addr.toNat < fuel → (Act.iter (evalTurn v m c e) fuel () s).1 ≠ .diverge) ∧
      Increasing lo e.toNat (Act.iter (evalTurn v m c e) fuel () s).2.fetched := by
  induction fuel generalizing s with
  | zero => exact ⟨fun h => absurd h (Nat.not_lt_zero _), hblock⟩
  | succ fuel ih =>
    rcases hrun : evalTurn v m c e () s with ⟨r, t⟩
    by_cases hlt : s.addr < e
    · -- a turn in the block: it has one address more, and the next one is larger
      have hbelow : s.addr.toNat < e.toNat := hlt
      rw [Act.iterStates, List.forall_mem_cons, hrun] at hturns
      obtain ⟨hleb, hback⟩ := hturns.1 hlt
      have hturn := evalTurn_goesOn (v := v) (c := c) hroom hlt hleb hback
      rw [hrun] at hturn
      obtain ⟨hends, hnext, hfetched⟩ := hturn
      have hinc' : Increasing lo (s.addr.toNat + 1) t.fetched := by
        rw [hfetched]
        exact hinc.concat
      have hblock' : Increasing lo e.toNat t.fetched := hinc'.mono hbelow
      by_cases hgo : ∃ j, r = .ok (.inl j)
      · obtain ⟨j, rfl⟩ := hgo
        have hlarger : s.addr.toNat < t.addr.toNat := hnext
        rw [Act.iter_of_inl fuel hrun]
        obtain ⟨hrest, hfinal⟩ := ih hturns.2 (hinc'.mono hnext) hblock'
        exact ⟨fun hfuel => hrest (by omega), hfinal⟩
      · obtain ⟨q, hq, hqends⟩ := Act.iter_of_not_inl fuel hrun (fun j hj => hgo ⟨j, hj⟩) hends
        rw [hq]
        exact ⟨fun _ => hqends, hblock'⟩
    · -- the end of the block has been reached, or passed
      have hturn := evalTurn_at_end (v := v) (m := m) (c := c) hlt
      rw [hrun] at hturn
      obtain ⟨hends, hstop, hfetched⟩ := hturn
      obtain ⟨q, hq, hqends⟩ := Act.iter_of_not_inl fuel hrun hstop hends
      rw [hq]
      refine ⟨fun _ => hqends, ?_⟩
      show Increasing lo e.toNat t.fetched
      rwa [hfetched]

end

/-- An evaluation in which every LEB128 operand that is read is terminated, and no branch with a
negative displacement is executed. -/
def ForwardOnly (v : Validator) (m : Mem) (c : Cursor) (fuel : ℕ) (addr len : Word) (lga : Lga) :
    Prop :=
  ∀ s ∈ exprTurns v m c fuel addr len lga, s.addr < addr + len →
    (∀ a ∈ lebReads m s.addr, LebEnds m a) ∧ ¬BranchesBack m s.addr

/-- **Forward-only expressions terminate inside their block.** The opcodes are fetched from
increasing addresses of the block, so at most `len` of them, and `len` turns and one for the value
are enough. -/
theorem expr_forward_terminates (v : Validator) (m : Mem) (c : Cursor) (fuel : ℕ)
    (addr len : Word) (lga : Lga) (hroom : addr.toNat + len.toNat < 2 ^ 64 - 2 ^ 17)
    (hforward : ForwardOnly v m c fuel addr len lga) :
    (len.toNat < fuel → (dwarfEvalExpr v m c fuel addr len lga).1 ≠ .diverge) ∧
      Increasing addr.toNat (addr.toNat + len.toNat)
        (evalExpr v m c fuel (addr + len) (ExprState.init addr lga)).2.fetched := by
  have hend : (addr + len).toNat = addr.toNat + len.toNat := by
    rw [BitVec.toNat_add]
    omega
  have hrun := iter_goesOn (s := evalStart c addr lga) (by omega) hforward
    (Increasing.nil (Nat.le_refl addr.toNat)) (Increasing.nil (by omega))
  rw [hend] at hrun
  have haddr : (evalStart c addr lga).addr = addr := rfl
  refine ⟨fun hfuel => ?_, hrun.2⟩
  rw [dwarfEvalExpr_eq_start]
  exact hrun.1 (by rw [haddr]; omega)

theorem not_branchesBack {m : Mem} {a : Word} (op : DwOp) (hop : DwOp.ofByte (m a) = some op)
    (h : isBranch op = true → (load16 m (a + 1)).msb = false) : ¬BranchesBack m a := by
  rintro ⟨op', hop', hbranch, hmsb⟩
  cases hop.symm.trans hop'
  rw [h hbranch] at hmsb
  cases hmsb

/-- `DW_OP_lit1`, `DW_OP_bra` over one byte, a byte that is no opcode, `DW_OP_plus_uconst 2`. -/
def forwardMem : Mem := fun a =>
  ([0x31, 0x28, 0x01, 0x00, 0xff, 0x23, 0x02] : List Byte).getD (a - 0x9000).toNat 0

/-- A branch forward, and a LEB128 operand behind it. -/
theorem expr_forward_branch :
    ForwardOnly msyncValidate forwardMem zeroCursor 8 0x9000 7 Lga.empty ∧
      (dwarfEvalExpr msyncValidate forwardMem zeroCursor 8 0x9000 7 Lga.empty).1 ≠ .diverge ∧
      (evalExpr msyncValidate forwardMem zeroCursor 8 (0x9000 + 7)
        (ExprState.init 0x9000 Lga.empty)).2.fetched = [0x9000, 0x9001, 0x9005] := by
  have hturns : (exprTurns msyncValidate forwardMem zeroCursor 8 0x9000 7 Lga.empty).map
      ExprState.addr = [0x9000, 0x9001, 0x9005, 0x9007] := by decide +kernel
  have hforward : ForwardOnly msyncValidate forwardMem zeroCursor 8 0x9000 7 Lga.empty := by
    intro s hs hlt
    have hmem : s.addr ∈ [0x9000, 0x9001, 0x9005, 0x9007] := hturns ▸ List.mem_map_of_mem hs
    generalize s.addr = a at hlt hmem
    simp only [List.mem_cons, List.not_mem_nil, or_false] at hmem
    obtain rfl | rfl | rfl | rfl := hmem
    -- the literal, the branch, the addition, and the end of the block
    · have hleb : lebReads forwardMem 0x9000 = [] := by decide +kernel
      refine ⟨fun b hb => ?_, not_branchesBack (.lit 1) (by decide +kernel) nofun⟩
      rw [hleb] at hb
      cases hb
    · have hleb : lebReads forwardMem 0x9001 = [] := by decide +kernel
      have hop : DwOp.ofByte (forwardMem 0x9001) = some .bra := by decide +kernel
      refine ⟨fun b hb => ?_, not_branchesBack .bra hop fun _ => by decide +kernel⟩
      rw [hleb] at hb
      cases hb
    · have hleb : lebReads forwardMem 0x9005 = [0x9006] := by decide +kernel
      refine ⟨fun b hb => ?_, not_branchesBack .plusUconst (by decide +kernel) nofun⟩
      rw [hleb] at hb
      obtain rfl := List.mem_singleton.1 hb
      exact ⟨0, by decide, by decide⟩
    · exact absurd hlt (by decide)
  exact ⟨hforward, (expr_forward_terminates _ _ _ 8 _ _ _ (by decide) hforward).1 (by decide),
    by decide +kernel⟩

end LibunwindKern
