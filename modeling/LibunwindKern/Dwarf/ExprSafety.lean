import LibunwindKern.Dwarf.ExprFraming
import LibunwindKern.Dwarf.ReadProgress

/-!
# What an expression cannot do

The bytes of an expression are arbitrary, and so are the branches it takes. Two things can go wrong
while it is evaluated: an access outside of the stack array, and arithmetic that C does not define.

The checks of the macros `pop`, `push` and `pick` are made on `tos`, with unsigned arithmetic of
mixed widths. The invariant is that the array holds a list (`StackIs`), whose length is `tos`. Then
an index that passes its check is below `tos`, and the entry there was pushed.

The divisor is tested for zero before a division. The other quotient that traps, the least word by
`-1`, and the shifts by 64 and more are not tested for, neither those of the operations nor those
by which a LEB128 operand is read.

* `expr_stack_safe`: every access to the stack, in every evaluation.
* `expr_arith_defined_iff`: when the arithmetic of an evaluation is defined.
-/

namespace LibunwindKern

open CProg ByteMem Eval

/-! ### The invariant -/

/-- The array holds a list. -/
def Held (s : ExprState) : Prop := ∃ xs, StackIs s xs

theorem Held.of_same {s t : ExprState} (h : Held s) (hstack : t.stack = s.stack)
    (htos : t.tos = s.tos) : Held t := by
  obtain ⟨xs, hxs⟩ := h
  exact ⟨xs, hxs.of_same hstack htos⟩

theorem Held.tos_le {s : ExprState} (h : Held s) : s.tos.toNat ≤ maxExprStackSize := by
  obtain ⟨xs, hxs⟩ := h
  rw [hxs.depth]
  exact hxs.le

theorem held_init (addr : Word) (lga : Lga) : Held (ExprState.init addr lga) :=
  ⟨[], rfl, by decide, fun i hi => absurd hi (Nat.not_lt_zero _)⟩

section Keep

variable {v : Validator} {m : Mem} {c : Cursor} {s : ExprState}

theorem held_pop (h : Held s) : Held (pop s).2 := by
  obtain ⟨xs, hxs⟩ := h
  cases xs with
  | nil =>
    rw [pop_empty hxs]
    exact ⟨[], hxs⟩
  | cons x xs =>
    obtain ⟨t, hpop, ht, -⟩ := pop_spec hxs
    rw [hpop]
    exact ⟨xs, ht⟩

theorem held_push (h : Held s) (val : Word) : Held (push val s).2 := by
  obtain ⟨xs, hxs⟩ := h
  rcases Nat.lt_or_eq_of_le hxs.le with hroom | hfull
  · obtain ⟨t, hpush, ht, -⟩ := push_spec hxs hroom val
    rw [hpush]
    exact ⟨val :: xs, ht⟩
  · rw [push_full hxs hfull]
    exact ⟨xs, hxs⟩

/-- The part of the state that a stack is in. -/
def ExprState.array (s : ExprState) : (Fin maxExprStackSize → Option Word) × BitVec 32 :=
  (s.stack, s.tos)

/-- A call that leaves the array alone keeps the invariant. -/
theorem held_of_keeps {α : Type} {x : Eval α} (hx : Act.Keeps ExprState.array x) :
    Act.Preserves Held x :=
  hx.preserves fun _ _ heq h => h.of_same (Prod.mk.inj heq).1 (Prod.mk.inj heq).2

/-- **Every command keeps the invariant**, whether it succeeds or not. -/
theorem held_execCmd {β : Type} (cmd : ExprCmd β) : Act.Preserves Held (execCmd v m c cmd) := by
  cases cmd with
  | pop => exact fun _ => held_pop
  | push val => exact fun _ h => held_push h val
  | pick n => exact held_of_keeps (Act.Keeps.get.bind fun _ =>
      (entry_keeps _).comp ExprState.array)
  | room =>
    refine held_of_keeps (Act.Keeps.get.bind fun s => ?_)
    split
    · exact Act.Keeps.pure _
    · exact Act.Keeps.fail _
  | getReg n => exact held_of_keeps fun _ => rfl
  | setOperand1 val => exact held_of_keeps fun _ => rfl
  | branch => exact held_of_keeps fun _ => rfl
  -- the commands that only compute
  | _ => exact fun _ h => h

theorem held_execOp (op : DwOp) : Act.Preserves Held (execOp v m c op) := by
  intro s h
  rw [← opProgram_run]
  exact (opProgram_has m op _ _).run_preserves (fun cmd _ => held_execCmd cmd) s h

theorem readOperands_keeps_array (op : DwOp) : Act.Keeps ExprState.array (readOperands m op) := by
  have hread : ∀ t, Act.Keeps ExprState.array (Eval.onAddr (readOperand m t)) := fun _ _ => rfl
  unfold readOperands
  split
  · exact Act.Keeps.pure _
  · exact (hread _).bind fun _ => Act.Keeps.modify fun _ => rfl
  · exact (hread _).bind fun _ => Act.Keeps.bind (Act.Keeps.modify fun _ => rfl) fun _ =>
      (hread _).bind fun _ => Act.Keeps.modify fun _ => rfl

/-- **One turn.** Wherever it jumps, it leaves a stack. -/
theorem held_evalTurn (e : Word) (i : Unit) : Act.Preserves Held (evalTurn v m c e i) := by
  refine Act.Moves.bind Act.Moves.get fun s => ?_
  split
  · refine Act.Moves.bind (held_of_keeps (Act.Keeps.modify fun _ => rfl)) fun _ => ?_
    refine Act.Moves.bind (held_of_keeps fun _ => rfl) fun opcode => ?_
    split
    · exact Act.Moves.fail _
    · refine Act.Moves.bind (held_of_keeps (readOperands_keeps_array _)) fun _ => ?_
      refine Act.Moves.bind (held_execOp _) fun r => ?_
      split <;> exact Act.Moves.pure _
  · exact Act.Moves.bind (fun _ => held_pop) fun _ => Act.Moves.pure _

/-- **The run.** Every turn of an evaluation starts from a stack. -/
theorem held_exprTurns {fuel : ℕ} {addr len : Word} {lga : Lga} :
    ∀ s ∈ exprTurns v m c fuel addr len lga, Held s :=
  Act.iterStates_inv Held (held_evalTurn _) (held_push (held_init addr lga) c.cfa)

end Keep

/-! ### Stack accesses -/

/-- The entry of the array that a command reads, once its check has been passed. -/
def readIndex : Call ExprCmd ExprState → Option (BitVec 32)
  | ⟨.pop, s⟩ => if (s.tos - 1).toNat < maxExprStackSize then some (s.tos - 1) else none
  | ⟨.pick n, s⟩ =>
    if (s.tos - 1 - n.setWidth 32).toNat < maxExprStackSize then some (s.tos - 1 - n.setWidth 32)
    else none
  | _ => none

/-- The entry of the array that a command writes. -/
def writeIndex : Call ExprCmd ExprState → Option (BitVec 32)
  | ⟨.push _, s⟩ => if s.tos.toNat < maxExprStackSize then some s.tos else none
  | _ => none

/-- The command underflows or overflows the stack, or picks an entry that is not on it. -/
def OutOfStack : Call ExprCmd ExprState → Prop
  | ⟨.pop, s⟩ => s.tos.toNat = 0
  | ⟨.push _, s⟩ => s.tos.toNat = maxExprStackSize
  | ⟨.room, s⟩ => s.tos.toNat = maxExprStackSize
  | ⟨.pick n, s⟩ => s.tos.toNat ≤ n.toNat
  | _ => False

/-- The command accesses the stack only where there is an entry, or where the next one goes. -/
structure StackSafe (v : Validator) (m : Mem) (c : Cursor) (x : Call ExprCmd ExprState) : Prop where
  depth : x.state.tos.toNat ≤ maxExprStackSize
  read : ∀ i, readIndex x = some i → i.toNat < x.state.tos.toNat ∧
    ∃ h : i.toNat < maxExprStackSize, ∃ val, x.state.stack ⟨i.toNat, h⟩ = some val
  write : ∀ i, writeIndex x = some i → i = x.state.tos ∧ i.toNat < maxExprStackSize
  refused : OutOfStack x → (execCmd v m c x.cmd x.state).1 = .err .einval

/-- The number of a `pick` is a byte. -/
def SmallPick {β : Type} : ExprCmd β → Prop
  | .pick n => n.toNat < 256
  | _ => True

section StackSafe

variable {v : Validator} {m : Mem} {c : Cursor} {s : ExprState}

/-- An entry below `tos` has been pushed. -/
theorem Held.pushed (h : Held s) {i : BitVec 32} (hi : i.toNat < s.tos.toNat) :
    ∃ h : i.toNat < maxExprStackSize, ∃ val, s.stack ⟨i.toNat, h⟩ = some val := by
  obtain ⟨xs, hxs⟩ := h
  rw [hxs.depth] at hi
  have hlt : i.toNat < maxExprStackSize := Nat.lt_of_lt_of_le hi hxs.le
  have hmem : i.toNat < xs.reverse.length := by rwa [List.length_reverse]
  exact ⟨hlt, xs.reverse[i.toNat], by rw [hxs.entries _ hi, List.getElem?_eq_getElem hmem]⟩

/-- **Every command is safe** on a stack that holds a list. -/
theorem stackSafe_of_held {β : Type} (cmd : ExprCmd β) (h : Held s)
    (hpick : SmallPick cmd) : StackSafe v m c ⟨cmd, s⟩ := by
  have hle := h.tos_le
  have hone : (1 : BitVec 32).toNat = 1 := rfl
  cases cmd with
  | pop =>
    refine ⟨hle, fun i hi => ?_, nofun, fun hout => ?_⟩
    · -- the check has excluded `0 - 1`
      simp only [readIndex, Option.ite_none_right_eq_some, Option.some.injEq] at hi
      obtain ⟨hlt, rfl⟩ := hi
      have hbelow : (s.tos - 1).toNat < s.tos.toNat := by
        unfold maxExprStackSize at hlt hle
        rw [BitVec.toNat_sub, hone] at hlt ⊢
        omega
      exact ⟨hbelow, h.pushed hbelow⟩
    · obtain ⟨xs, hxs⟩ := h
      have hnil : xs = [] := List.length_eq_zero_iff.1 (hxs.depth.symm.trans hout)
      subst hnil
      show (pop s).1 = _
      rw [pop_empty hxs]
  | push val =>
    refine ⟨hle, nofun, fun i hi => ?_, fun hout => ?_⟩
    · simp only [writeIndex, Option.ite_none_right_eq_some, Option.some.injEq] at hi
      obtain ⟨hlt, rfl⟩ := hi
      exact ⟨rfl, hlt⟩
    · obtain ⟨xs, hxs⟩ := h
      show (push val s).1 = _
      rw [push_full hxs (hxs.depth.symm.trans hout)]
  | pick n =>
    have hn : n.toNat < 256 := hpick
    obtain ⟨xs, hxs⟩ := h
    refine ⟨hle, fun i hi => ?_, nofun, fun hout => ?_⟩
    · simp only [readIndex, Option.ite_none_right_eq_some, Option.some.injEq] at hi
      obtain ⟨hlt, rfl⟩ := hi
      -- a number past the bottom would have wrapped to an index that is refused
      have hbelow : n.toNat < xs.length := by
        by_contra hge
        exact (toNat_pick_index hxs (by omega)).2 (by omega) hlt
      have hindex := (toNat_pick_index hxs (by omega)).1 hbelow
      have htos : (s.tos - 1 - n.setWidth 32).toNat < s.tos.toNat := by
        rw [hindex, hxs.depth]
        omega
      exact ⟨htos, Held.pushed ⟨xs, hxs⟩ htos⟩
    · show (Eval.pick n s).1 = _
      rw [pick_refused hxs (by omega) (by rw [← hxs.depth]; exact hout)]
  | room =>
    refine ⟨hle, nofun, nofun, fun hout => ?_⟩
    have hfull : s.tos.toNat = maxExprStackSize := hout
    show ((if s.tos.toNat < maxExprStackSize then pure () else Act.fail .einval : Eval Unit) s).1 = _
    rw [if_neg (by omega)]
    rfl
  | _ => exact ⟨hle, nofun, nofun, nofun⟩

/-- The only number that is not a constant is the operand of `DW_OP_pick`. -/
theorem smallPick_of_has {β : Type} {cmd : ExprCmd β} {op : DwOp} {operand1 : Word}
    (h : op = .pick → operand1.toNat < 256) (hhas : Has op operand1 cmd) : SmallPick cmd := by
  cases cmd with
  | pick n =>
    obtain ⟨-, rfl⟩ | ⟨-, rfl⟩ | ⟨rfl, rfl⟩ := hhas
    · show (0 : Word).toNat < 256
      decide
    · show (1 : Word).toNat < 256
      decide
    · exact h rfl
  | _ => trivial

theorem operand1_of_pick {t : ExprState} (h : readOperands m .pick s = (.ok (), t)) :
    t.operand1.toNat < 256 := by
  have hread : readOperands m .pick s =
      (.ok (), { s with addr := s.addr + 1, operand1 := (m s.addr).setWidth 64 }) := rfl
  rw [hread] at h
  cases h
  have hbyte := (m s.addr).isLt
  show ((m s.addr).setWidth 64).toNat < 256
  rw [BitVec.toNat_setWidth]
  omega

/-- The commands of a turn are safe. -/
theorem stackSafe_turn {e : Word} (h : Held s) :
    ∀ x ∈ turnCalls v m c e s, StackSafe v m c x := by
  refine all_turnCalls.2 ⟨fun _ op t _ hread => ?_, fun _ => stackSafe_of_held .pop h trivial⟩
  have hheld : Held t := by
    have hkeep := held_of_keeps (readOperands_keeps_array (m := m) op) s.pastOpcode
      (h.of_same rfl rfl)
    rwa [hread] at hkeep
  have hsmall : op = .pick → t.operand1.toNat < 256 := by
    rintro rfl
    exact operand1_of_pick hread
  refine (opProgram_has m op t.operand1 t.operand2).all_of_inv Held (fun cmd u hhas hu => ?_)
    (fun cmd _ => held_execCmd cmd) hheld
  exact stackSafe_of_held cmd hu (smallPick_of_has hsmall hhas)

/-- A turn returns the error of the command that fails. -/
theorem evalTurn_eq_err {e : Word} {x : Call ExprCmd ExprState} {err : UnwError}
    (hx : x ∈ turnCalls v m c e s) (herr : (execCmd v m c x.cmd x.state).1 = .err err) :
    (evalTurn v m c e () s).1 = .err err := by
  unfold turnCalls at hx
  by_cases hlt : s.addr < e
  · rw [if_pos hlt] at hx
    rw [evalTurn_of_lt hlt]
    cases hop : DwOp.ofByte (m s.addr) with
    | none =>
      rw [hop] at hx
      cases hx
    | some op =>
      rw [hop] at hx
      rcases hread : readOperands m op s.pastOpcode with ⟨r, t⟩
      simp only [hread] at hx
      cases r with
      | ok a =>
        simp only [Act.bind_of_ok hread]
        have hexec : (execOp v m c op t).1 = .err err := by
          rw [← opProgram_run]
          exact Prog.run_eq_err_of_mem hx herr
        rw [Act.bind_of_err (Act.run_of_outcome hexec)]
      | _ => cases hx
  · rw [if_neg hlt] at hx
    rw [evalTurn_of_not_lt hlt]
    obtain rfl := List.mem_singleton.1 hx
    have hpop : (pop s).1 = .err err := herr
    rw [Act.bind_of_err (Act.run_of_outcome hpop)]

end StackSafe

/-- **Stack safety.** In every evaluation, whatever the bytes and the branches: each turn starts
with at most 64 entries, every access to the array is below `tos`, or at `tos` for a push, and what
is read has been pushed. A command that leaves the stack makes the evaluation return
`-UNW_EINVAL`. -/
theorem expr_stack_safe (v : Validator) (m : Mem) (c : Cursor) (fuel : ℕ) (addr len : Word)
    (lga : Lga) :
    (∀ s ∈ exprTurns v m c fuel addr len lga, s.tos.toNat ≤ maxExprStackSize) ∧
    (∀ x ∈ exprCalls v m c fuel addr len lga, StackSafe v m c x) ∧
    ∀ x ∈ exprCalls v m c fuel addr len lga, OutOfStack x →
      (dwarfEvalExpr v m c fuel addr len lga).1 = .err .einval := by
  have hsafe : ∀ x ∈ exprCalls v m c fuel addr len lga, StackSafe v m c x :=
    all_exprCalls.2 ⟨stackSafe_of_held (.push c.cfa) (held_init addr lga) trivial,
      fun s hs => stackSafe_turn (held_exprTurns s hs)⟩
  refine ⟨fun s hs => (held_exprTurns s hs).tos_le, hsafe, fun x hx hout => ?_⟩
  have herr := (hsafe x hx).refused hout
  rcases List.mem_cons.1 hx with rfl | hx
  · -- the CFA is pushed onto an empty stack
    have hfull : (0 : BitVec 32).toNat = maxExprStackSize := hout
    exact absurd hfull (by decide)
  · obtain ⟨s, hs, hx⟩ := List.mem_flatMap.1 hx
    rw [dwarfEvalExpr_eq_start]
    exact Act.iter_eq_err_of_mem hs fun _ => evalTurn_eq_err hx herr

/-! ### Arithmetic -/

/-- The arithmetic of the command is defined: the divisor is not zero, the quotient fits a word,
and the shift is by less than the word size. -/
def Defined : Call ExprCmd ExprState → Prop
  | ⟨.div x y, _⟩ => y ≠ 0 ∧ ¬(x = BitVec.intMin 64 ∧ y = BitVec.allOnes 64)
  | ⟨.mod _ y, _⟩ => y ≠ 0
  | ⟨.shl _ n, _⟩ => n.toNat < 64
  | ⟨.shr _ n, _⟩ => n.toNat < 64
  | ⟨.shra _ n, _⟩ => n.toNat < 64
  | _ => True

/-- With this stack the operation leaves the arithmetic that is defined: it is `DW_OP_div` with
`-1` on top of the least word, or a shift with 64 or more on top. -/
def Overflows (op : DwOp) (xs : List Word) : Prop :=
  match op, xs with
  | .div, top :: second :: _ => top = BitVec.allOnes 64 ∧ second = BitVec.intMin 64
  | .shl, top :: _ :: _ => 64 ≤ top.toNat
  | .shr, top :: _ :: _ => 64 ≤ top.toNat
  | .shra, top :: _ :: _ => 64 ≤ top.toNat
  | _, _ => False

section Arith

variable {v : Validator} {m : Mem} {c : Cursor} {s : ExprState} {xs : List Word}

/-- Popping is defined, so what comes after it decides. -/
theorem all_pop {α : Type} {f : Word → ExprProg α} (h : StackIs s xs) :
    (Prog.cmd .pop >>= f).All (execCmd v m c) Defined s ↔
      ∀ x ys, xs = x :: ys → ∀ t, StackIs t ys → pop s = (.ok x, t) →
        (f x).All (execCmd v m c) Defined t := by
  rw [Prog.all_call]
  constructor
  · rintro ⟨-, hrest⟩ x ys rfl t _ hpop
    exact hrest x t hpop
  · refine fun hrest => ⟨trivial, fun x t hpop => ?_⟩
    have hrun : pop s = (.ok x, t) := hpop
    cases xs with
    | nil =>
      rw [pop_empty h] at hrun
      cases hrun
    | cons y ys =>
      obtain ⟨u, hu, hstack, -⟩ := pop_spec h
      obtain ⟨hxy, rfl⟩ := Prod.mk.inj (hu.symm.trans hrun)
      cases hxy
      exact hrest x ys rfl u hstack hu

/-- An operation on two entries is defined if what it computes from them is. -/
theorem all_binaryProgram {f : Word → Word → ExprProg Word} {Q : Word → Word → Prop}
    (hf : ∀ x y t, (f x y).All (execCmd v m c) Defined t ↔ Q x y) (h : StackIs s xs) :
    (binaryProgram f).All (execCmd v m c) Defined s ↔
      ∀ x y ys, xs = x :: y :: ys → Q x y := by
  unfold binaryProgram
  rw [all_pop h]
  constructor
  · rintro hall x y ys rfl
    obtain ⟨t, hpop, ht, -⟩ := pop_spec h
    obtain ⟨u, hpop', hu, -⟩ := pop_spec ht
    have hval := (all_pop ht).1 (hall x (y :: ys) rfl t ht hpop) y ys rfl u hu hpop'
    exact (hf x y u).1 (Prog.all_bind.1 hval).1
  · rintro hQ x ys rfl t ht -
    refine (all_pop ht).2 fun y zs hys u _ _ => ?_
    refine Prog.all_bind.2 ⟨(hf x y u).2 (hQ x y zs (by rw [hys])), fun _ _ _ => ?_⟩
    exact Prog.all_cmd.2 trivial

/-- A command of an operation that does no arithmetic is defined. -/
theorem defined_of_has {β : Type} {cmd : ExprCmd β} {op : DwOp} {operand1 : Word}
    (hop : op ≠ .div ∧ op ≠ .mod ∧ op ≠ .shl ∧ op ≠ .shr ∧ op ≠ .shra)
    (hhas : Has op operand1 cmd) : Defined ⟨cmd, s⟩ := by
  obtain ⟨hdiv, hmod, hshl, hshr, hshra⟩ := hop
  cases cmd with
  | div x y => exact absurd hhas.1 hdiv
  | mod x y => exact absurd hhas.1 hmod
  | shl x n => exact absurd hhas hshl
  | shr x n => exact absurd hhas hshr
  | shra x n => exact absurd hhas hshra
  | _ => trivial

/-- The shifts are not guarded. -/
theorem all_shift {f : Word → Word → ExprCmd Word} (h : StackIs s xs)
    (hf : ∀ x n t, Defined ⟨f x n, t⟩ ↔ n.toNat < 64) :
    (binaryProgram fun tmp1 tmp2 => Prog.cmd (f tmp2 tmp1)).All (execCmd v m c) Defined s ↔
      ∀ n x ys, xs = n :: x :: ys → n.toNat < 64 :=
  all_binaryProgram (fun n x t => Prog.all_cmd.trans (hf x n t)) h

theorem not_overflows_shift {op : DwOp} (hop : op = .shl ∨ op = .shr ∨ op = .shra) :
    (∀ n x ys, xs = n :: x :: ys → n.toNat < 64) ↔ ¬Overflows op xs := by
  have hover : ∀ n x ys, Overflows op (n :: x :: ys) ↔ 64 ≤ n.toNat := by
    intro n x ys
    obtain rfl | rfl | rfl := hop <;> exact Iff.rfl
  constructor
  · intro hall h
    rcases xs with _ | ⟨n, _ | ⟨x, ys⟩⟩
    · obtain rfl | rfl | rfl := hop <;> exact h
    · obtain rfl | rfl | rfl := hop <;> exact h
    · exact Nat.not_lt.2 ((hover n x ys).1 h) (hall n x ys rfl)
  · rintro hno n x ys rfl
    exact Nat.lt_of_not_le fun hle => hno ((hover n x ys).2 hle)

/-- **One operation.** Its arithmetic is defined unless the two top entries make it overflow. -/
theorem all_opProgram_iff (op : DwOp) (operand1 operand2 : Word) (h : StackIs s xs) :
    (opProgram m op operand1 operand2).All (execCmd v m c) Defined s ↔ ¬Overflows op xs := by
  -- returning `none` behind the operation adds nothing
  have hstack : ∀ {p : ExprProg Unit}, (p >>= fun _ => (pure none : ExprProg (Option ℕ))).All
      (execCmd v m c) Defined s ↔ p.All (execCmd v m c) Defined s := by
    intro p
    rw [Prog.all_bind]
    exact ⟨fun hall => hall.1, fun hall => ⟨hall, fun _ _ _ => Prog.all_pure _⟩⟩
  by_cases harith : op ≠ .div ∧ op ≠ .mod ∧ op ≠ .shl ∧ op ≠ .shr ∧ op ≠ .shra
  · have hno : ¬Overflows op xs := by
      obtain ⟨hdiv, hmod, hshl, hshr, hshra⟩ := harith
      unfold Overflows
      split <;> simp_all
    refine iff_of_true ?_ hno
    exact (opProgram_has m op operand1 operand2).all fun cmd t => defined_of_has harith
  · have hcase : op = .div ∨ op = .mod ∨ op = .shl ∨ op = .shr ∨ op = .shra := by tauto
    obtain rfl | rfl | rfl | rfl | rfl := hcase
    · -- a zero divisor does not come to the division
      have hdiv : ∀ x y t, ((if x = 0 then pure x else Prog.cmd (.div y x) : ExprProg Word)).All
          (execCmd v m c) Defined t ↔ ¬(x = BitVec.allOnes 64 ∧ y = BitVec.intMin 64) := by
        intro x y t
        split
        · next hx =>
          subst hx
          exact iff_of_true (Prog.all_pure _) fun hmin => absurd hmin.1 (by decide)
        · next hx =>
          rw [Prog.all_cmd]
          exact ⟨fun hdef hmin => hdef.2 hmin.symm, fun hmin => ⟨hx, fun hmin' => hmin hmin'.symm⟩⟩
      refine hstack.trans ((all_binaryProgram hdiv h).trans ?_)
      constructor
      · intro hall hover
        match xs, hover with
        | x :: y :: ys, hmin => exact hall x y ys rfl hmin
      · rintro hover x y ys rfl
        exact hover
    · have hmod : ∀ x y t, ((if x = 0 then pure x else Prog.cmd (.mod y x) : ExprProg Word)).All
          (execCmd v m c) Defined t ↔ True := by
        intro x y t
        split
        · exact iff_of_true (Prog.all_pure _) trivial
        · next hx => exact iff_of_true (Prog.all_cmd.2 hx) trivial
      refine hstack.trans ((all_binaryProgram hmod h).trans ?_)
      exact iff_of_true (fun _ _ _ _ => trivial) fun hover => hover
    · exact hstack.trans
        ((all_shift h fun _ _ _ => Iff.rfl).trans (not_overflows_shift (Or.inl rfl)))
    · exact hstack.trans
        ((all_shift h fun _ _ _ => Iff.rfl).trans (not_overflows_shift (Or.inr (Or.inl rfl))))
    · exact hstack.trans
        ((all_shift h fun _ _ _ => Iff.rfl).trans (not_overflows_shift (Or.inr (Or.inr rfl))))

/-- The operation of a turn overflows, with the stack the turn starts from. -/
def TurnOverflows (m : Mem) (s : ExprState) : Prop :=
  ∃ op xs, DwOp.ofByte (m s.addr) = some op ∧ StackIs s xs ∧ Overflows op xs

/-- The operations that can overflow have no operands. -/
theorem readOperands_of_overflows {op : DwOp} (h : Overflows op xs) :
    readOperands m op s = (.ok (), s) := by
  unfold Overflows at h
  split at h
  · rfl
  · rfl
  · rfl
  · rfl
  · exact h.elim

/-- **One turn.** -/
theorem defined_turn_iff {e : Word} (h : Held s) :
    (∀ x ∈ turnCalls v m c e s, Defined x) ↔ (s.addr < e → ¬TurnOverflows m s) := by
  rw [all_turnCalls]
  constructor
  · rintro ⟨hall, -⟩ hlt ⟨op, xs, hop, hxs, hover⟩
    have hstack : StackIs s.pastOpcode xs := hxs.of_same rfl rfl
    exact (all_opProgram_iff op _ _ hstack).1
      (hall hlt op s.pastOpcode hop (readOperands_of_overflows hover)) hover
  · refine fun hno => ⟨fun hlt op t hop hread => ?_, fun _ => trivial⟩
    obtain ⟨xs, hxs⟩ := h
    -- the operands are read without a look at the stack
    obtain ⟨hstack, htos⟩ := Prod.mk.inj
      ((readOperands_keeps_array (m := m) op).run hread)
    have ht : StackIs t xs := hxs.of_same hstack htos
    exact (all_opProgram_iff op _ _ ht).2 fun hover => hno hlt ⟨op, xs, hop, hxs, hover⟩

end Arith

/-- The arithmetic of an evaluation is defined: that of its operations, and the shifts by which the
LEB128 operands are read. -/
structure ArithDefined (v : Validator) (m : Mem) (c : Cursor) (fuel : ℕ) (addr len : Word)
    (lga : Lga) : Prop where
  calls : ∀ x ∈ exprCalls v m c fuel addr len lga, Defined x
  reads : ∀ s ∈ exprTurns v m c fuel addr len lga, s.addr < addr + len →
    ∀ a ∈ lebReads m s.addr, ∀ g ∈ lebShifts m (2 ^ 64) 0 a, g.1.toNat < 64

/-- **Defined arithmetic.** No step of an evaluation divides by zero. It divides the least word by
`-1`, or shifts by 64 or more, exactly in a turn whose operation finds such operands on the
stack, or has a LEB128 operand of more than ten bytes. -/
theorem expr_arith_defined_iff (v : Validator) (m : Mem) (c : Cursor) (fuel : ℕ) (addr len : Word)
    (lga : Lga) :
    ArithDefined v m c fuel addr len lga ↔
      ∀ s ∈ exprTurns v m c fuel addr len lga, s.addr < addr + len →
        ¬TurnOverflows m s ∧ ∀ a ∈ lebReads m s.addr, ¬LongLeb m a := by
  constructor
  · rintro ⟨hcalls, hreads⟩ s hs hlt
    refine ⟨?_, fun a ha => lebShifts_lt_iff.1 (hreads s hs hlt a ha)⟩
    exact (defined_turn_iff (held_exprTurns s hs)).1 ((all_exprCalls.1 hcalls).2 s hs) hlt
  · intro hno
    refine ⟨all_exprCalls.2 ⟨trivial, fun s hs => ?_⟩, fun s hs hlt a ha => ?_⟩
    · exact (defined_turn_iff (held_exprTurns s hs)).2 fun hlt => (hno s hs hlt).1
    · exact lebShifts_lt_iff.2 ((hno s hs hlt).2 a ha)

/-- `DW_OP_const8u` with the least word, `DW_OP_const1s -1`, `DW_OP_div`. -/
def divMinMem : Mem := fun a =>
  ([0x0e, 0x00, 0x00, 0x00, 0x00, 0x00, 0x00, 0x00, 0x80, 0x09, 0xff, 0x1b] :
    List Byte).getD (a - 0x9000).toNat 0

/-- The operands of a division. -/
def quotientOf : Call ExprCmd ExprState → Option (Word × Word)
  | ⟨.div x y, _⟩ => some (x, y)
  | _ => none

theorem not_defined_of_quotientOf {x : Call ExprCmd ExprState}
    (h : quotientOf x = some (BitVec.intMin 64, BitVec.allOnes 64)) : ¬Defined x := by
  obtain ⟨cmd, s⟩ := x
  cases cmd with
  | div a b =>
    obtain ⟨rfl, rfl⟩ := Prod.mk.inj (Option.some.inj h)
    exact fun hdef => hdef.2 ⟨rfl, rfl⟩
  | _ => cases h

/-- The quotient that does not fit a word is not tested for, and the processor traps. -/
theorem expr_divides_min_by_minus_one :
    ¬ArithDefined msyncValidate divMinMem zeroCursor 4 0x9000 12 Lga.empty ∧
      (dwarfEvalExpr msyncValidate divMinMem zeroCursor 4 0x9000 12 Lga.empty).1 = .undefined := by
  have hquot : (exprCalls msyncValidate divMinMem zeroCursor 4 0x9000 12 Lga.empty).filterMap
      quotientOf = [(BitVec.intMin 64, BitVec.allOnes 64)] := by decide +kernel
  obtain ⟨x, hx, hdiv⟩ := List.mem_filterMap.1 (hquot ▸ List.mem_singleton_self _)
  exact ⟨fun hdef => not_defined_of_quotientOf hdiv (hdef.calls x hx), by decide +kernel⟩

end LibunwindKern
