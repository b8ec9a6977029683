import LibunwindKern.Dwarf.ExprFraming
import Mathlib.Tactic.IntervalCases

/-!
# `DW_OP_deref_size`

The operation reads a word of 1, 2, 4 or 8 bytes, whichever is the next that holds the size, and cuts
it to the size with a mask. For 3 bytes the mask keeps the low bytes. For 5, 6 and 7 bytes the mask is
the complement of what it should be, and keeps the high bytes.

* `derefValue_eq_iff`: when the value that is pushed is that of the bytes at the address.
* `deref_size_exact_iff`: the same for a turn of the evaluator.
-/

namespace LibunwindKern

open CProg ByteMem Eval

section

variable {m : Mem} {a : Word}

/-- A narrow load, extended with zeros. -/
theorem setWidth_eq_loadNat {w n : ℕ} {x : BitVec w} (h : x.toNat = loadNat m a n) :
    x.setWidth 64 = BitVec.ofNat 64 (loadNat m a n) := by
  rw [← h, BitVec.ofNat_toNat]

/-- The mask for three bytes keeps the low bytes. -/
theorem load32_and_low : (load32 m a).setWidth 64 &&& 0xffffff = BitVec.ofNat 64 (loadNat m a 3) := by
  have hlt := loadNat_lt m a 4
  have hlow : loadNat m a 4 % 2 ^ 24 = loadNat m a 3 := loadNat_add_mod m a 3 1
  apply BitVec.eq_of_toNat_eq
  calc ((load32 m a).setWidth 64 &&& 0xffffff).toNat
      = ((load32 m a).setWidth 64).toNat &&& 2 ^ 24 - 1 := BitVec.toNat_and _ _
    _ = loadNat m a 4 % 2 ^ 24 := by
        rw [Nat.and_two_pow_sub_one_eq_mod, BitVec.toNat_setWidth, toNat_load32]
        omega
    _ = (BitVec.ofNat 64 (loadNat m a 3)).toNat := by
        rw [BitVec.toNat_ofNat]
        omega

/-- The mask for five, six and seven bytes keeps the high bytes, so the value is right only if there
is nothing in any of the eight bytes. -/
theorem load64_and_high_iff {k n : ℕ} (hsum : n + k = 8) (hpos : 0 < k) :
    load64 m a &&& (BitVec.allOnes 64 <<< (8 * n)) = BitVec.ofNat 64 (loadNat m a n) ↔
      loadNat m a 8 = 0 := by
  have hmask : BitVec.allOnes 64 <<< (8 * n) = ~~~(BitVec.ofNat 64 (2 ^ (8 * n) - 1)) := by
    apply BitVec.eq_of_getLsbD_eq
    intro i hi
    rw [BitVec.getLsbD_shiftLeft, BitVec.getLsbD_allOnes, BitVec.getLsbD_not, BitVec.getLsbD_ofNat,
      Nat.testBit_two_pow_sub_one]
    by_cases hik : i < 8 * n
    · simp [hik]
    · simp [hik, hi]
      omega
  have hpow : 256 ^ n = 2 ^ (8 * n) := by
    rw [Nat.pow_mul]
  have hlow : loadNat m a 8 % 2 ^ (8 * n) = loadNat m a n := by
    rw [← hpow, ← hsum]
    exact loadNat_add_mod m a n k
  have hlt : loadNat m a n < 2 ^ (8 * n) := by
    rw [← hpow]
    exact loadNat_lt m a n
  have hword : 2 ^ (8 * n) < 2 ^ 64 := Nat.pow_lt_pow_right (by decide) (by omega)
  rw [hmask, ← BitVec.toNat_inj, toNat_and_not_low, toNat_load64, BitVec.toNat_ofNat,
    Nat.mod_eq_of_lt (Nat.lt_trans hlt hword)]
  -- the high bytes are a multiple of a power of two which the low bytes are below
  have hsplit := Nat.div_add_mod' (loadNat m a 8) (2 ^ (8 * n))
  rw [hlow] at hsplit
  constructor
  · intro heq
    have hzero : loadNat m a 8 / 2 ^ (8 * n) = 0 := by
      by_contra hne
      have hmul := Nat.le_mul_of_pos_left (2 ^ (8 * n)) (Nat.pos_of_ne_zero hne)
      omega
    rw [hzero, Nat.zero_mul] at hsplit heq
    omega
  · intro hzero
    rw [hzero] at hsplit ⊢
    omega

/-- **The value that is pushed**, for each of the sizes. -/
theorem derefValue_eq_iff {size : Word} (hsize : 1 ≤ size.toNat ∧ size.toNat ≤ 8) :
    derefValue m size a = some (BitVec.ofNat 64 (loadNat m a size.toNat)) ↔
      (5 ≤ size.toNat ∧ size.toNat ≤ 7 → loadNat m a 8 = 0) := by
  have hhigh : ∀ n k : ℕ, n + k = 8 → 0 < k → 5 ≤ n ∧ n ≤ 7 →
      (some (load64 m a &&& (BitVec.allOnes 64 <<< (8 * n))) =
          some (BitVec.ofNat 64 (loadNat m a n)) ↔
        (5 ≤ n ∧ n ≤ 7 → loadNat m a 8 = 0)) := by
    intro n k hsum hpos hn
    rw [Option.some.injEq, load64_and_high_iff hsum hpos]
    exact ⟨fun h _ => h, fun h => h hn⟩
  unfold derefValue
  generalize size.toNat = n at *
  obtain ⟨hone, height⟩ := hsize
  interval_cases n
  · exact iff_of_true (congrArg some (setWidth_eq_loadNat rfl)) (by omega)
  · exact iff_of_true (congrArg some (setWidth_eq_loadNat (toNat_load16 m a))) (by omega)
  · exact iff_of_true (congrArg some load32_and_low) (by omega)
  · exact iff_of_true (congrArg some (setWidth_eq_loadNat (toNat_load32 m a))) (by omega)
  · exact hhigh 5 3 rfl (by decide) (by decide)
  · exact hhigh 6 2 rfl (by decide) (by decide)
  · exact hhigh 7 1 rfl (by decide) (by decide)
  · exact iff_of_true rfl (by omega)

/-- Any other size is refused. -/
theorem derefValue_eq_none {size : Word} (hsize : ¬(1 ≤ size.toNat ∧ size.toNat ≤ 8)) :
    derefValue m size a = none := by
  unfold derefValue
  generalize size.toNat = n at *
  rcases n with _ | _ | _ | _ | _ | _ | _ | _ | _ | n
  · rfl
  all_goals first | rfl | omega

/-! ### The turn -/

/-- What the turn of `DW_OP_deref_size` is to do, with `x` on top of the entries `xs`: a size from 1 to
8 replaces `x` by the number in that many bytes at `x`, and any other size is refused. -/
def DerefsExactly (v : Validator) (m : Mem) (c : Cursor) (e : Word) (s : ExprState) (x : Word)
    (xs : List Word) : Prop :=
  let size := (m (s.addr + 1)).toNat
  if 1 ≤ size ∧ size ≤ 8 then
    ∃ t, evalTurn v m c e () s = (.ok (.inl ()), t) ∧
      StackIs t (BitVec.ofNat 64 (loadNat m x size) :: xs)
  else
    (evalTurn v m c e () s).1 = .err .einval

variable {v : Validator} {c : Cursor} {e x : Word} {s : ExprState} {xs : List Word}

/-- A turn of the operation pops the address, and pushes the value unless the size is refused. -/
theorem evalTurn_derefSize (hlt : s.addr < e) (hop : DwOp.ofByte (m s.addr) = some .derefSize)
    (hstack : StackIs s (x :: xs)) :
    match derefValue m ((m (s.addr + 1)).setWidth 64) x with
    | some val => ∃ t, evalTurn v m c e () s = (.ok (.inl ()), t) ∧ StackIs t (val :: xs)
    | none => (evalTurn v m c e () s).1 = .err .einval := by
  set size : Word := (m (s.addr + 1)).setWidth 64
  -- the state behind the operand
  set t : ExprState := { s.pastOpcode with addr := s.pastOpcode.addr + 1, operand1 := size }
  have hread : readOperands m .derefSize s.pastOpcode = (.ok (), t) := rfl
  have hturn : evalTurn v m c e () s = ((Eval.derefSize m >>= fun _ => pure none) >>= afterOp) t := by
    rw [evalTurn_of_lt hlt, hop]
    simp only [Act.bind_of_ok hread]
    rfl
  obtain ⟨u, hpop, hu, -⟩ := pop_spec (show StackIs t (x :: xs) from hstack.of_same rfl rfl)
  have hderef : Eval.derefSize m t =
      (match derefValue m size x with
        | some tmp2 => Eval.push tmp2
        | none => Act.fail .einval) u := by
    rw [derefSize_eq]
    exact Act.bind_of_ok hpop
  cases hval : derefValue m size x with
  | some val =>
    rw [hval] at hderef
    have hroom : xs.length < maxExprStackSize := hstack.le
    obtain ⟨w, hpush, hw, -⟩ := push_spec hu hroom val
    refine ⟨w, ?_, hw⟩
    rw [hturn, Act.bind_assoc, Act.bind_of_ok (hderef.trans hpush)]
    rfl
  | none =>
    rw [hval] at hderef
    show (evalTurn v m c e () s).1 = _
    rw [hturn, Act.bind_assoc, Act.bind_of_err hderef]

/-- **Exact reads.** For every memory, address and size, `DW_OP_deref_size` does what it is to do,
except that for a size of 5, 6 or 7 it does so only if all eight bytes at the address are zero. -/
theorem deref_size_exact_iff (v : Validator) (m : Mem) (c : Cursor) (e : Word) (s : ExprState)
    (x : Word) (xs : List Word) (hlt : s.addr < e)
    (hop : DwOp.ofByte (m s.addr) = some .derefSize) (hstack : StackIs s (x :: xs)) :
    DerefsExactly v m c e s x xs ↔
      (5 ≤ (m (s.addr + 1)).toNat ∧ (m (s.addr + 1)).toNat ≤ 7 → loadNat m x 8 = 0) := by
  have hturn := evalTurn_derefSize (v := v) (c := c) hlt hop hstack
  have hsize : ((m (s.addr + 1)).setWidth 64).toNat = (m (s.addr + 1)).toNat :=
    BitVec.toNat_setWidth_of_le (by decide)
  unfold DerefsExactly
  by_cases hrange : 1 ≤ (m (s.addr + 1)).toNat ∧ (m (s.addr + 1)).toNat ≤ 8
  · rw [if_pos hrange]
    have hvalue := derefValue_eq_iff (m := m) (a := x) (by rwa [hsize])
    rw [hsize] at hvalue
    rw [← hvalue]
    cases hval : derefValue m ((m (s.addr + 1)).setWidth 64) x with
    | none =>
      -- the turn fails, and there is no value to be right
      rw [hval] at hturn
      refine iff_of_false (fun ⟨t, hrun, _⟩ => ?_) nofun
      rw [hrun] at hturn
      cases hturn
    | some val =>
      rw [hval] at hturn
      obtain ⟨t, hrun, ht⟩ := hturn
      constructor
      · rintro ⟨u, hu, hstacku⟩
        cases hrun.symm.trans hu
        have htop := ht.unique hstacku
        exact congrArg some (List.cons.inj htop).1
      · intro heq
        cases heq
        exact ⟨t, hrun, ht⟩
  · -- another size is refused, as it is to be
    rw [if_neg hrange]
    rw [derefValue_eq_none (by rwa [hsize])] at hturn
    exact iff_of_true hturn fun hfive => absurd ⟨by omega, by omega⟩ hrange

end

/-- `DW_OP_deref_size 5`, and at `0x9100` the bytes 1 to 8. -/
def derefFiveMem : Mem := fun a =>
  if a = 0x9000 then 0x94 else if a = 0x9001 then 5
  else ([1, 2, 3, 4, 5, 6, 7, 8] : List Byte).getD (a - 0x9100).toNat 0

/-- The state of a turn at `0x9000`, with the address `0x9100` on the stack. -/
def derefState : ExprState := { ExprState.ofStack [0x9100] with addr := 0x9000 }

/-- The three high bytes are pushed, where they stand in the word, and not the five low ones. -/
theorem deref_size_five_keeps_high :
    StackIs derefState [0x9100] ∧
      (∃ t, evalTurn msyncValidate derefFiveMem zeroCursor 0x9002 () derefState =
          (.ok (.inl ()), t) ∧ StackIs t [0x0807060000000000]) ∧
      loadNat derefFiveMem 0x9100 5 = 0x0504030201 ∧
      ¬DerefsExactly msyncValidate derefFiveMem zeroCursor 0x9002 derefState 0x9100 [] := by
  have hstack : StackIs derefState [0x9100] := (stackIs_ofStack (by decide)).of_same rfl rfl
  have hop : DwOp.ofByte (derefFiveMem derefState.addr) = some .derefSize := by decide
  have hlt : derefState.addr < 0x9002 := by decide
  have hbytes : loadNat derefFiveMem 0x9100 5 = 0x0504030201 := by decide
  have hval : derefValue derefFiveMem ((derefFiveMem (derefState.addr + 1)).setWidth 64) 0x9100 =
      some 0x0807060000000000 := by decide
  have hturn := evalTurn_derefSize (v := msyncValidate) (c := zeroCursor) hlt hop hstack
  rw [hval] at hturn
  obtain ⟨t, hrun, ht⟩ := hturn
  refine ⟨hstack, ⟨t, hrun, ht⟩, hbytes, fun hexact => ?_⟩
  unfold DerefsExactly at hexact
  rw [if_pos (by decide)] at hexact
  obtain ⟨u, hu, hstacku⟩ := hexact
  cases hrun.symm.trans hu
  exact absurd (ht.unique hstacku) (by decide)

/-- Three bytes are read as they should be. -/
def derefThreeMem : Mem := fun a => if a = 0x9001 then 3 else derefFiveMem a

theorem deref_size_three_exact :
    DerefsExactly msyncValidate derefThreeMem zeroCursor 0x9002 derefState 0x9100 [] := by
  have hstack : StackIs derefState [0x9100] := (stackIs_ofStack (by decide)).of_same rfl rfl
  exact (deref_size_exact_iff _ _ _ _ _ _ _ (by decide) (by decide) hstack).2
    fun hfive => absurd hfive (by decide)

end LibunwindKern
