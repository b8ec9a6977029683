import LibunwindKern.Dwarf.Encoding
import LibunwindKern.Dwarf.ExprCommands

/-!
# The framing of location expressions

`dwarfOperands` lists the operands DWARF gives each operation. The evaluator has a table of
its own (`operands`) which is looked up before the operation is executed. The two agree on
every operation the evaluator accepts, but for `DW_OP_constu` and `DW_OP_consts`, which have
no entry in the table: their operand is not read, the value of an earlier operand is pushed
in its place, and the bytes of the operand are executed as operations.

* `readOperands_spec`: reading the operands of an operation the tables agree on.
* `opRight_iff`: the operations that are framed right and push the constant they encode.
* `evalTurn_fetches`, `iter_fetches`: where a turn, and then the loop, fetches opcodes.
* `evalExpr_fetches_boundaries`: an expression without branches and without the two
  operations is fetched at its instruction boundaries.
* `expr_framed_iff`: the result.
-/

namespace LibunwindKern

open CProg ByteMem Eval

/-! ### What DWARF says -/

/-- The forms of an operand. -/
inductive OperandForm where
  | fixed (n : ℕ)
  | uleb
  | sleb
  deriving DecidableEq, Repr

/-- The operands of an operation. An offset is that of the 32-bit format. -/
def dwarfOperands : DwOp → List OperandForm
  | .addr => [.fixed 8]
  | .const1u | .const1s => [.fixed 1]
  | .const2u | .const2s => [.fixed 2]
  | .const4u | .const4s => [.fixed 4]
  | .const8u | .const8s => [.fixed 8]
  | .constu => [.uleb]
  | .consts => [.sleb]
  | .pick => [.fixed 1]
  | .plusUconst => [.uleb]
  | .skip | .bra => [.fixed 2]
  | .breg _ => [.sleb]
  | .regx => [.uleb]
  | .fbreg => [.sleb]
  | .bregx => [.uleb, .sleb]
  | .piece => [.uleb]
  | .derefSize | .xderefSize => [.fixed 1]
  | .call2 => [.fixed 2]
  | .call4 | .callRef => [.fixed 4]
  | _ => []

/-- An operand in a number of bytes. -/
def OperandAt (m : Mem) (a : Word) : OperandForm → ℕ → Prop
  | .fixed n, width => width = n
  | .uleb, width => ∃ v, UlebAt m a v width
  | .sleb, width => ∃ v, SlebAt m a v width

/-- Operands one after the other. -/
def OperandsAt (m : Mem) : Word → List OperandForm → ℕ → Prop
  | _, [], width => width = 0
  | a, f :: fs, width =>
    ∃ w₁ w₂, OperandAt m a f w₁ ∧ OperandsAt m (past a w₁) fs w₂ ∧ width = w₁ + w₂

/-- A constant and its encoding: the operation that pushes the constant, with the operand in
a number of bytes. -/
inductive ConstAt (m : Mem) (a : Word) : DwOp → Word → ℕ → Prop
  | lit (n : Fin 32) : ConstAt m a (.lit n) (BitVec.ofNat 64 n) 0
  | addr : ConstAt m a .addr (load64 m a) 8
  | const1u : ConstAt m a .const1u ((m a).setWidth 64) 1
  | const1s : ConstAt m a .const1s ((m a).signExtend 64) 1
  | const2u : ConstAt m a .const2u ((load16 m a).setWidth 64) 2
  | const2s : ConstAt m a .const2s ((load16 m a).signExtend 64) 2
  | const4u : ConstAt m a .const4u ((load32 m a).setWidth 64) 4
  | const4s : ConstAt m a .const4s ((load32 m a).signExtend 64) 4
  | const8u : ConstAt m a .const8u (load64 m a) 8
  | const8s : ConstAt m a .const8s (load64 m a) 8
  | constu {v : Word} {width : ℕ} (h : UlebAt m a v width) : ConstAt m a .constu v width
  | consts {v : Word} {width : ℕ} (h : SlebAt m a v width) : ConstAt m a .consts v width

/-- The operations the evaluator does not refuse. -/
def accepted : DwOp → Bool
  | .call2 | .call4 | .callRef | .fbreg | .piece | .pushObjectAddress | .xderef
  | .xderefSize => false
  | _ => true

/-- The operations that are not in the table. -/
def missingOperand : DwOp → Bool
  | .constu | .consts => true
  | _ => false

/-! ### The table -/

/-- The form of an operand type. -/
def OperandType.form : OperandType → Option OperandForm
  | .val8 => some (.fixed 1)
  | .val16 => some (.fixed 2)
  | .val32 => some (.fixed 4)
  | .val64 => some (.fixed 8)
  | .uleb128 => some .uleb
  | .sleb128 => some .sleb
  | .offset => none
  | .addr => some (.fixed 8)

/-- The two tables agree on every accepted operation but two. -/
theorem operands_form {op : DwOp} (hacc : accepted op = true) (hmiss : missingOperand op = false) :
    (operands op).map OperandType.form = (dwarfOperands op).map some := by
  cases op <;> first | rfl | exact absurd hacc (by decide) | exact absurd hmiss (by decide)

section

variable {m : Mem} {a : Word} {s : ExprState}

theorem readOperand_spec {t : OperandType} {f : OperandForm} {width : ℕ}
    (ht : t.form = some f) (h : OperandAt m a f width) :
    ∃ v, readOperand m t a = (.ok v, past a width) := by
  cases t with
  | val8 => cases ht; cases h; exact ⟨_, rfl⟩
  | val16 => cases ht; cases h; exact ⟨_, rfl⟩
  | val32 => cases ht; cases h; exact ⟨_, rfl⟩
  | val64 => cases ht; cases h; exact ⟨_, rfl⟩
  | addr => cases ht; cases h; exact ⟨_, rfl⟩
  | uleb128 =>
    cases ht
    obtain ⟨v, hv⟩ := h
    exact ⟨v, dwarfReadUleb128_of_ulebAt hv⟩
  | sleb128 =>
    cases ht
    obtain ⟨v, hv⟩ := h
    exact ⟨v, dwarfReadSleb128_of_slebAt hv⟩
  | offset => cases ht

/-- A read at the address variable. -/
theorem onAddr_eq {α : Type} {x : Reader α} {r : Res UnwError α} {b : Word}
    (h : x s.addr = (r, b)) : Eval.onAddr x s = (r, { s with addr := b }) := by
  rw [Eval.onAddr, Act.zoom_apply, h]

/-- **Reading the operands** moves the address variable past them and changes nothing but
the operand variables. -/
theorem readOperands_spec {op : DwOp}
    (htable : (operands op).map OperandType.form = (dwarfOperands op).map some) {width : ℕ}
    (h : OperandsAt m s.addr (dwarfOperands op) width) :
    ∃ v₁ v₂, readOperands m op s =
      (.ok (), { s with addr := past s.addr width, operand1 := v₁, operand2 := v₂ }) := by
  unfold readOperands
  rcases hops : operands op with _ | ⟨t₁, _ | ⟨t₂, ts⟩⟩
  · rw [hops] at htable
    have hnil : dwarfOperands op = [] := List.map_eq_nil_iff.1 htable.symm
    rw [hnil] at h
    cases h
    exact ⟨s.operand1, s.operand2, by rw [past_zero]; rfl⟩
  · rw [hops] at htable
    obtain ⟨f, fs, hfs, hf, hnil⟩ := List.map_eq_cons_iff.1 htable.symm
    rw [List.map_eq_nil_iff.1 hnil] at hfs
    rw [hfs] at h
    obtain ⟨w₁, w₂, h₁, h₂, rfl⟩ := h
    cases h₂
    obtain ⟨v, hv⟩ := readOperand_spec hf.symm h₁
    refine ⟨v, s.operand2, ?_⟩
    dsimp only
    rw [Act.bind_of_ok (onAddr_eq hv)]
    rfl
  · rw [hops] at htable
    obtain ⟨f, fs, hfs, hf, hrest⟩ := List.map_eq_cons_iff.1 htable.symm
    obtain ⟨f', fs', rfl, hf', hrest'⟩ := List.map_eq_cons_iff.1 hrest
    -- no operation has more than two operands
    have hlen : (dwarfOperands op).length ≤ 2 := by
      cases op <;> exact Nat.le_of_ble_eq_true rfl
    have hnil : fs' = [] := by
      rw [hfs] at hlen
      exact List.length_eq_zero_iff.1 (by simpa using hlen)
    rw [hfs, hnil] at h
    obtain ⟨w₁, w₂, h₁, ⟨w₃, w₄, h₃, h₄, rfl⟩, rfl⟩ := h
    cases h₄
    obtain ⟨v, hv⟩ := readOperand_spec hf.symm h₁
    obtain ⟨v', hv'⟩ := readOperand_spec hf'.symm h₃
    refine ⟨v, v', ?_⟩
    dsimp only
    rw [Act.bind_of_ok (onAddr_eq hv), Act.modify_bind, Act.bind_of_ok (onAddr_eq hv'),
      Act.modify_apply, past_past]
    rfl

/-! ### Constants -/

/-- Setting the upper bits of a zero-extended value extends its sign. -/
theorem extendSign_eq {w : ℕ} (x : BitVec w) (hw : 0 < w) (hle : w ≤ 64) :
    (if (x.setWidth 64).getLsbD (w - 1) then x.setWidth 64 ||| (BitVec.allOnes 64 <<< w)
      else x.setWidth 64) = x.signExtend 64 := by
  have hmsb : (x.setWidth 64).getLsbD (w - 1) = x.msb := by
    rw [BitVec.getLsbD_setWidth, BitVec.msb_eq_getLsbD_last]
    have hlt : w - 1 < 64 := by omega
    simp [hlt]
  rw [hmsb]
  apply BitVec.eq_of_getLsbD_eq
  intro i hi
  rw [BitVec.getLsbD_signExtend]
  by_cases hneg : x.msb = true
  · rw [if_pos hneg, BitVec.getLsbD_or, BitVec.getLsbD_setWidth, BitVec.getLsbD_shiftLeft,
      BitVec.getLsbD_allOnes]
    by_cases hiw : i < w
    · simp [hi, hiw]
    · have hsub : i - w < 64 := by omega
      simp [hi, hiw, hsub, hneg]
  · rw [if_neg hneg, BitVec.getLsbD_setWidth]
    by_cases hiw : i < w
    · simp [hi, hiw]
    · have hout : x.getLsbD i = false := BitVec.getLsbD_of_ge x i (by omega)
      simp [hi, hiw, hout, hneg]

/-- In this state the operation pushes the constant that it encodes. -/
def PushesConstant (vd : Validator) (m : Mem) (c : Cursor) (op : DwOp) (s : ExprState) : Prop :=
  ∀ (xs : List Word) (val : Word) (width : ℕ), ConstAt m s.addr op val width → StackIs s xs →
    xs.length < maxExprStackSize →
    ∃ s', (readOperands m op >>= fun _ => execOp vd m c op) s = (.ok none, s') ∧
      StackIs s' (val :: xs) ∧ s'.addr = past s.addr width

/-- The evaluator consumes this many bytes of operands. -/
def Consumes (m : Mem) (op : DwOp) (s : ExprState) (width : ℕ) : Prop :=
  ∃ s', readOperands m op s = (.ok (), s') ∧ s'.addr = past s.addr width

/-- The stack does not depend on the other variables. -/
theorem StackIs.of_same {s t : ExprState} {xs : List Word} (h : StackIs s xs)
    (hstack : t.stack = s.stack) (htos : t.tos = s.tos) : StackIs t xs :=
  ⟨by rw [htos]; exact h.depth, h.le, by rw [hstack]; exact h.entries⟩

/-- A constant that is pushed as it was read. -/
private theorem pushesConstant_plain {op : DwOp} {s : ExprState} {xs : List Word} {val : Word}
    {width : ℕ} {vd : Validator} {c : Cursor} (h : StackIs s xs)
    (hroom : xs.length < maxExprStackSize)
    (hread : readOperands m op s =
      (.ok (), { s with addr := past s.addr width, operand1 := val }))
    (hexec : ∀ t, execOp vd m c op t = (push t.operand1 >>= fun _ => pure none) t) :
    ∃ s', (readOperands m op >>= fun _ => execOp vd m c op) s = (.ok none, s') ∧
      StackIs s' (val :: xs) ∧ s'.addr = past s.addr width := by
  obtain ⟨s', hpush, hstack, hsame⟩ :=
    push_spec (h.of_same (t := { s with addr := past s.addr width, operand1 := val }) rfl rfl)
      hroom val
  refine ⟨s', ?_, hstack, hsame.addr⟩
  rw [Act.bind_of_ok hread, hexec, Act.bind_of_ok hpush, Act.pure_apply]

/-- A constant whose sign is extended after it was read. -/
private theorem pushesConstant_signed {op : DwOp} {w : ℕ} {x : BitVec w} {s : ExprState}
    {xs : List Word} {width : ℕ} {vd : Validator} {c : Cursor} (hw : 0 < w) (hle : w ≤ 64)
    (h : StackIs s xs) (hroom : xs.length < maxExprStackSize)
    (hread : readOperands m op s =
      (.ok (), { s with addr := past s.addr width, operand1 := x.setWidth 64 }))
    (hexec : ∀ t, execOp vd m c op t = (signedConst w >>= fun _ => pure none) t) :
    ∃ s', (readOperands m op >>= fun _ => execOp vd m c op) s = (.ok none, s') ∧
      StackIs s' (x.signExtend 64 :: xs) ∧ s'.addr = past s.addr width := by
  obtain ⟨s', hpush, hstack, hsame⟩ := push_spec
    (h.of_same (t := { s with addr := past s.addr width, operand1 := x.signExtend 64 }) rfl rfl)
    hroom (x.signExtend 64)
  have hsigned : signedConst w { s with addr := past s.addr width, operand1 := x.setWidth 64 } =
      (.ok (), s') := by
    unfold signedConst
    rw [Act.modify_bind, Act.get_bind]
    dsimp only
    rw [extendSign_eq x hw hle]
    exact hpush
  refine ⟨s', ?_, hstack, hsame.addr⟩
  rw [Act.bind_of_ok hread, hexec, Act.bind_of_ok hsigned, Act.pure_apply]

/-- **The constants that are in the table.** -/
theorem pushesConstant_of_not_missing {op : DwOp} (hmiss : missingOperand op = false)
    (vd : Validator) (m : Mem) (c : Cursor) (s : ExprState) : PushesConstant vd m c op s := by
  intro xs val width hconst h hroom
  cases hconst with
  | lit n =>
    obtain ⟨s', hpush, hstack, hsame⟩ := push_spec h hroom (BitVec.ofNat 64 n)
    refine ⟨s', ?_, hstack, by rw [past_zero]; exact hsame.addr⟩
    change (push (BitVec.ofNat 64 n) >>= fun _ => pure none) s = _
    rw [Act.bind_of_ok hpush, Act.pure_apply]
  | addr => exact pushesConstant_plain h hroom rfl fun _ => rfl
  | const1u => exact pushesConstant_plain h hroom rfl fun _ => rfl
  | const2u => exact pushesConstant_plain h hroom rfl fun _ => rfl
  | const4u => exact pushesConstant_plain h hroom rfl fun _ => rfl
  | const8u => exact pushesConstant_plain h hroom rfl fun _ => rfl
  | const8s => exact pushesConstant_plain h hroom rfl fun _ => rfl
  | const1s => exact pushesConstant_signed (by omega) (by omega) h hroom rfl fun _ => rfl
  | const2s => exact pushesConstant_signed (by omega) (by omega) h hroom rfl fun _ => rfl
  | const4s => exact pushesConstant_signed (by omega) (by omega) h hroom rfl fun _ => rfl
  | constu => exact absurd hmiss (by decide)
  | consts => exact absurd hmiss (by decide)

theorem UlebAt.width_bounds {v : Word} {width : ℕ} (h : UlebAt m a v width) :
    0 < width ∧ width ≤ 10 := by
  obtain ⟨bs, ⟨b, hgroups⟩, rfl, hle, -⟩ := h
  exact ⟨hgroups.length_pos, hle⟩

theorem SlebAt.width_bounds {v : Word} {width : ℕ} (h : SlebAt m a v width) :
    0 < width ∧ width ≤ 10 := by
  obtain ⟨bs, ⟨n, b, hgroups, -⟩, rfl, hle, -⟩ := h
  exact ⟨hgroups.length_pos, hle⟩

/-- The operand of an operation without an entry has at least one byte, none of which is
read. -/
theorem not_consumes_of_missing {op : DwOp} (hmiss : missingOperand op = true) {width : ℕ}
    (h : OperandsAt m s.addr (dwarfOperands op) width) : ¬ Consumes m op s width := by
  have hread : readOperands m op s = (.ok (), s) ∧ 0 < width ∧ width ≤ 10 := by
    cases op
    case constu =>
      obtain ⟨w₁, w₂, ⟨v, hv⟩, h₂, rfl⟩ := h
      cases h₂
      exact ⟨rfl, hv.width_bounds⟩
    case consts =>
      obtain ⟨w₁, w₂, ⟨v, hv⟩, h₂, rfl⟩ := h
      cases h₂
      exact ⟨rfl, hv.width_bounds⟩
    all_goals simp [missingOperand] at hmiss
  rintro ⟨s', hrun, haddr⟩
  rw [hread.1] at hrun
  cases hrun
  have hto := congrArg BitVec.toNat haddr
  rw [past, BitVec.toNat_add, BitVec.toNat_ofNat] at hto
  omega

/-- **The operations that are framed right and push the constant they encode.** -/
theorem opRight_iff {op : DwOp} (hacc : accepted op = true) (vd : Validator) (c : Cursor)
    {width : ℕ} (h : OperandsAt m s.addr (dwarfOperands op) width) :
    Consumes m op s width ∧ PushesConstant vd m c op s ↔ missingOperand op = false := by
  constructor
  · rintro ⟨hconsumes, -⟩
    by_contra hmiss
    exact not_consumes_of_missing (Bool.eq_true_of_not_eq_false hmiss) h hconsumes
  · intro hmiss
    obtain ⟨v₁, v₂, hrun⟩ := readOperands_spec (operands_form hacc hmiss) h
    exact ⟨⟨_, hrun, rfl⟩, pushesConstant_of_not_missing hmiss vd m c s⟩

/-! ### What an operation does to the address variable -/

/-- Where the evaluator is and where it has been. -/
def ExprState.place (s : ExprState) : Word × List Word := (s.addr, s.fetched)

/-- The call ends, and leaves the address variable where it is. -/
structure Stays {α : Type} (x : Eval α) : Prop where
  keeps : Act.Keeps ExprState.place x
  ends : Act.Ends x

theorem Stays.pure {α : Type} (a : α) : Stays (Pure.pure a : Eval α) :=
  ⟨Act.Keeps.pure a, Act.Ends.pure a⟩

theorem Stays.get : Stays (Act.get : Eval ExprState) := ⟨Act.Keeps.get, Act.Ends.get⟩

theorem Stays.fail {α : Type} (e : UnwError) : Stays (Act.fail e : Eval α) :=
  ⟨Act.Keeps.fail e, Act.Ends.fail e⟩

theorem Stays.lift {α : Type} {r : Res UnwError α} (h : r ≠ .diverge) :
    Stays (Act.lift r : Eval α) := ⟨Act.Keeps.lift r, Act.Ends.lift h⟩

theorem Stays.modify {f : ExprState → ExprState} (h : ∀ s, (f s).place = s.place) :
    Stays (Act.modify f : Eval Unit) := ⟨Act.Keeps.modify h, Act.Ends.modify f⟩

theorem Stays.onLga {α : Type} {x : Act UnwError Lga α} (h : Act.Ends x) :
    Stays (Eval.onLga x) := ⟨fun _ => rfl, h.zoom⟩

theorem Stays.bind {α β : Type} {x : Eval α} {f : α → Eval β} (hx : Stays x)
    (hf : ∀ a, Stays (f a)) : Stays (x >>= f) :=
  ⟨hx.keeps.bind fun a => (hf a).keeps, hx.ends.bind fun a => (hf a).ends⟩

theorem entry_stays (index : BitVec 32) : Stays (entry index) := by
  refine Stays.get.bind fun s => ?_
  split
  · split
    · exact Stays.pure _
    · exact Stays.lift nofun
  · exact Stays.fail _

theorem pop_stays : Stays pop :=
  Stays.get.bind fun _ => (entry_stays _).bind fun _ =>
    Stays.bind (Stays.modify fun _ => rfl) fun _ => Stays.pure _

theorem push_stays (val : Word) : Stays (push val) := by
  refine Stays.get.bind fun s => ?_
  split
  · exact Stays.modify fun _ => rfl
  · exact Stays.fail _

theorem pick_stays (n : Word) : Stays (Eval.pick n) := Stays.get.bind fun _ => entry_stays _

theorem dwarfGet_ends (vd : Validator) (m : Mem) (c : Cursor) (loc : Word) :
    Act.Ends (dwarfGet vd m c loc) := by
  unfold dwarfGet
  split
  · exact Act.Ends.fail _
  · intro g
    unfold accessMem
    split_ifs <;> exact nofun

theorem unwGetReg_ends (vd : Validator) (m : Mem) (c : Cursor) (regnum : ℕ) :
    Act.Ends (unwGetReg vd m c regnum) := by
  unfold unwGetReg tdepAccessReg
  split_ifs
  · exact Act.Ends.pure _
  · exact Act.Ends.pure _
  · exact Act.Ends.pure _
  · exact dwarfGet_ends vd m c _
  · exact dwarfGet_ends vd m c _
  · exact Act.Ends.fail _

theorem dwarfToUnwRegnum_ends (reg : Word) : dwarfToUnwRegnum reg ≠ .diverge := by
  unfold dwarfToUnwRegnum
  split_ifs <;> exact nofun

/-- The operations that move the address variable. -/
def isBranch : DwOp → Bool
  | .skip | .bra => true
  | _ => false

/-- A command of an operation that is no branch. -/
theorem execCmd_stays {op : DwOp} {operand1 : Word} (hbranch : isBranch op = false)
    (vd : Validator) (m : Mem) (c : Cursor) {β : Type} (cmd : ExprCmd β)
    (h : Has op operand1 cmd) : Stays (execCmd vd m c cmd) := by
  have hite : ∀ {p : Prop} [Decidable p] {x y : Res UnwError Word}, x ≠ .diverge → y ≠ .diverge →
      Stays (Act.lift (if p then x else y)) := by
    intro p _ x y hx hy
    apply Stays.lift
    split
    · exact hx
    · exact hy
  cases cmd with
  | pop => exact pop_stays
  | push val => exact push_stays val
  | pick n => exact pick_stays n
  | room =>
    refine Stays.get.bind fun s => ?_
    split
    · exact Stays.pure _
    · exact Stays.fail _
  | regnum reg => exact Stays.lift (dwarfToUnwRegnum_ends reg)
  | getReg n => exact Stays.onLga (unwGetReg_ends vd m c n)
  | setOperand1 val => exact Stays.modify fun _ => rfl
  | branch => obtain rfl | rfl := h <;> cases hbranch
  | einval => exact Stays.fail _
  -- the division and the shifts, which can be undefined
  | _ => exact hite nofun nofun

/-- **An operation that is no branch** stays where it is. -/
theorem execOp_stays {op : DwOp} (hbranch : isBranch op = false) (vd : Validator)
    (m : Mem) (c : Cursor) : Stays (execOp vd m c op) := by
  have hprogram : ∀ operand1 operand2,
      Stays ((opProgram m op operand1 operand2).run (execCmd vd m c)) := fun operand1 operand2 =>
    (opProgram_has m op operand1 operand2).run_of Stays Stays.pure Stays.bind
      (execCmd_stays hbranch vd m c)
  constructor
  · intro s
    rw [← opProgram_run]
    exact (hprogram _ _).keeps s
  · intro s
    rw [← opProgram_run]
    exact (hprogram _ _).ends s

/-- The operations that are refused. -/
theorem execOp_of_not_accepted {op : DwOp} (hacc : accepted op = false) (vd : Validator)
    (m : Mem) (c : Cursor) (s : ExprState) : execOp vd m c op s = (.err .einval, s) := by
  cases op <;> first | rfl | simp [accepted] at hacc

/-- The operands of an operation that is refused are read too, or are refused themselves. -/
theorem readOperands_of_not_accepted {op : DwOp} (hacc : accepted op = false) {width : ℕ}
    (h : OperandsAt m s.addr (dwarfOperands op) width) :
    readOperands m op s = (.err .einval, s) ∨
      ∃ v₁ v₂, readOperands m op s =
        (.ok (), { s with addr := past s.addr width, operand1 := v₁, operand2 := v₂ }) := by
  by_cases href : op = .callRef
  · subst href
    exact Or.inl rfl
  · refine Or.inr (readOperands_spec ?_ h)
    cases op <;> first | rfl | exact absurd rfl href | simp [accepted] at hacc

/-! ### Expressions -/

/-- An expression in memory: the addresses of its instructions, and their operations. -/
inductive ExprAt (m : Mem) : Word → Word → List (Word × DwOp) → Prop
  | nil (e : Word) : ExprAt m e e []
  | cons {a e : Word} {op : DwOp} {width : ℕ} {rest : List (Word × DwOp)}
      (hop : DwOp.ofByte (m a) = some op)
      (hoperands : OperandsAt m (a + 1) (dwarfOperands op) width)
      (hfit : a.toNat + 1 + width < 2 ^ 64)
      (hrest : ExprAt m (past (a + 1) width) e rest) : ExprAt m a e ((a, op) :: rest)

theorem ExprAt.start_le {e : Word} {prog : List (Word × DwOp)} (h : ExprAt m a e prog) :
    a.toNat ≤ e.toNat := by
  induction h with
  | nil e => exact Nat.le_refl _
  | cons hop hoperands hfit hrest ih =>
    rw [past_succ, toNat_past (by omega)] at ih
    omega

/-- The start of an instruction is before the end of the expression. -/
theorem ExprAt.start_lt {e : Word} {op : DwOp} {rest : List (Word × DwOp)}
    (h : ExprAt m a e ((a, op) :: rest)) : a < e := by
  cases h with
  | cons hop hoperands hfit hrest =>
    have hle := hrest.start_le
    rw [past_succ, toNat_past (by omega)] at hle
    exact BitVec.lt_def.2 (by omega)

/-- What the loop does after an operation: it ends with a register, or goes on. -/
def afterOp : Option ℕ → Eval (Unit ⊕ (Word × Bool))
  | some regnum => pure (.inr (BitVec.ofNat 64 regnum, true))
  | none => pure (.inl ())

/-- A turn, once it has its opcode. -/
theorem evalTurn_of_lt {v : Validator} {c : Cursor} {e : Word} (h : s.addr < e) :
    evalTurn v m c e () s =
      match DwOp.ofByte (m s.addr) with
      | none => (.err .einval, s.pastOpcode)
      | some op => (readOperands m op >>= fun _ => execOp v m c op >>= afterOp) s.pastOpcode := by
  have hfetch : Eval.onAddr (dwarfReadu8 m) { s with fetched := s.fetched ++ [s.addr] } =
      (.ok (m s.addr), s.pastOpcode) := rfl
  unfold evalTurn
  rw [Act.get_bind, if_pos h, Act.modify_bind, Act.bind_of_ok hfetch]
  cases DwOp.ofByte (m s.addr) with
  | none => rfl
  | some op => rfl

theorem evalTurn_of_not_lt {v : Validator} {c : Cursor} {e : Word} (h : ¬s.addr < e) :
    evalTurn v m c e () s =
      (pop >>= fun val => (pure (.inr (val, false)) : Eval (Unit ⊕ (Word × Bool)))) s := by
  unfold evalTurn
  rw [Act.get_bind, if_neg h]

/-- The loop starts from that state. -/
theorem dwarfEvalExpr_eq_start (v : Validator) (m : Mem) (c : Cursor) (fuel : ℕ) (addr len : Word)
    (g : Lga) :
    dwarfEvalExpr v m c fuel addr len g =
      ((Act.iter (evalTurn v m c (addr + len)) fuel () (evalStart c addr g)).1,
        (Act.iter (evalTurn v m c (addr + len)) fuel () (evalStart c addr g)).2.lga) := rfl

/-- **One turn.** An instruction is fetched where it starts. If the loop goes on it does so
behind the instruction's operands, and if it is left, then with a register. -/
theorem evalTurn_fetches {e : Word} {op : DwOp} {width : ℕ} (vd : Validator) (c : Cursor)
    (hlt : s.addr < e) (hop : DwOp.ofByte (m s.addr) = some op)
    (hoperands : OperandsAt m (s.addr + 1) (dwarfOperands op) width)
    (hbranch : isBranch op = false) (hmiss : missingOperand op = false) :
    ∃ r t, evalTurn vd m c e () s = (r, t) ∧ t.fetched = s.fetched ++ [s.addr] ∧
      r ≠ .diverge ∧ (r = .ok (.inl ()) → t.addr = past (s.addr + 1) width) ∧
      (∀ val b, r = .ok (.inr (val, b)) → b = true) := by
  have hturn : evalTurn vd m c e () s =
      (readOperands m op >>= fun _ => execOp vd m c op >>= afterOp) s.pastOpcode := by
    rw [evalTurn_of_lt hlt, hop]
  rw [hturn]
  cases hacc : accepted op with
  | false =>
    rcases readOperands_of_not_accepted (s := s.pastOpcode) hacc hoperands with hread | ⟨v₁, v₂, hread⟩
    · exact ⟨_, _, Act.bind_of_err hread, rfl, nofun, nofun, nofun⟩
    · rw [Act.bind_of_ok hread, Act.bind_of_err (execOp_of_not_accepted hacc vd m c _)]
      exact ⟨_, _, rfl, rfl, nofun, nofun, nofun⟩
  | true =>
    obtain ⟨v₁, v₂, hread⟩ := readOperands_spec (s := s.pastOpcode) (operands_form hacc hmiss) hoperands
    rw [Act.bind_of_ok hread]
    set s₂ : ExprState :=
      { s.pastOpcode with addr := past s.pastOpcode.addr width, operand1 := v₁, operand2 := v₂ }
    have hstays := execOp_stays hbranch vd m c
    have hplace := hstays.keeps s₂
    have hends := hstays.ends s₂
    rcases hrun : execOp vd m c op s₂ with ⟨r, t⟩
    rw [hrun] at hplace hends
    obtain ⟨haddr, hfetched⟩ := Prod.mk.inj hplace
    obtain ⟨o, rfl⟩ | hr := r.ok_or_ne
    · rw [Act.bind_of_ok hrun]
      cases o with
      | none => exact ⟨_, _, rfl, hfetched, nofun, fun _ => haddr, nofun⟩
      | some regnum =>
        -- the result is a register, and the loop is left
        refine ⟨_, _, rfl, hfetched, nofun, nofun, fun val b hb => ?_⟩
        cases hb
        rfl
    · have hno := Res.bind_ne_ok hr fun _ => (.diverge : Res UnwError (Unit ⊕ Word × Bool))
      exact ⟨_, _, Act.bind_of_not_ok hrun hr _, hfetched, Res.bind_ne_diverge hr hends _,
        fun hnext => absurd hnext (hno _), fun _ _ hval => absurd hval (hno _)⟩

/-- The expression has neither a branch nor an operation whose operand is not read. -/
def Plain (prog : List (Word × DwOp)) : Prop :=
  ∀ i ∈ prog, isBranch i.2 = false ∧ missingOperand i.2 = false

/-- What a run has fetched: a part of the boundaries from the first one on, and all of them
if the run ends with a value. -/
structure Fetches (before boundaries : List Word) (run : Res UnwError (Word × Bool) × ExprState) :
    Prop where
  ends : run.1 ≠ .diverge
  part : ∃ n, run.2.fetched = before ++ boundaries.take n
  all : ∀ val, run.1 = .ok (val, false) → run.2.fetched = before ++ boundaries

/-- A run that stops at the first boundary. -/
private theorem Fetches.stop {before rest : List Word} {b : Word} {r : Res UnwError (Word × Bool)}
    {t : ExprState} (hends : r ≠ .diverge) (hno : ∀ val, r ≠ .ok (val, false))
    (hfetched : t.fetched = before ++ [b]) : Fetches before (b :: rest) (r, t) where
  ends := hends
  part := ⟨1, by simpa using hfetched⟩
  all := fun val hval => absurd hval (hno val)

/-- **The loop fetches at the boundaries**, by induction on the instructions. -/
theorem iter_fetches {e : Word} {prog : List (Word × DwOp)} (vd : Validator) (c : Cursor)
    (h : ExprAt m a e prog) (hplain : Plain prog) : ∀ (fuel : ℕ) (s : ExprState), s.addr = a →
      prog.length < fuel →
      Fetches s.fetched (prog.map Prod.fst) (Act.iter (evalTurn vd m c e) fuel () s) := by
  induction h with
  | nil e =>
    intro fuel s haddr hfuel
    obtain ⟨fuel, rfl⟩ := Nat.exists_eq_add_of_lt hfuel
    rw [List.length_nil, Nat.zero_add]
    -- the end of the expression: the value is popped
    have hturn : evalTurn vd m c e () s = (pop >>= fun val => pure (.inr (val, false))) s := by
      unfold evalTurn
      rw [Act.get_bind, if_neg (by rw [haddr]; exact BitVec.lt_irrefl _)]
    have hplace := pop_stays.keeps s
    have hends := pop_stays.ends s
    rcases hrun : pop s with ⟨r, t⟩
    rw [hrun] at hplace hends
    have hfetched : t.fetched = s.fetched := congrArg Prod.snd hplace
    have hall : t.fetched = s.fetched ++ List.map Prod.fst ([] : List (Word × DwOp)) := by
      rw [hfetched, List.map_nil, List.append_nil]
    obtain ⟨val, rfl⟩ | hr := r.ok_or_ne
    · rw [Act.iter_of_inr fuel (by rw [hturn, Act.bind_of_ok hrun, Act.pure_apply])]
      exact ⟨by simp, ⟨0, hall⟩, fun _ _ => hall⟩
    · obtain ⟨q, hq, hends', hno⟩ := Act.iter_of_stop fuel
        (hturn.trans (Act.bind_of_not_ok hrun hr _)) (Res.bind_ne_ok hr _)
        (Res.bind_ne_diverge hr hends _)
      rw [hq]
      exact ⟨hends', ⟨0, hall⟩, fun val hval => absurd hval (hno _)⟩
  | @cons a e op width rest hop hoperands hfit hrest ih =>
    intro fuel s haddr hfuel
    obtain ⟨fuel, rfl⟩ : ∃ k, fuel = k + 1 := ⟨fuel - 1, by omega⟩
    have hlt := (ExprAt.cons hop hoperands hfit hrest).start_lt
    subst haddr
    obtain ⟨hbranch, hmiss⟩ := hplain (s.addr, op) List.mem_cons_self
    obtain ⟨r, t, hturn, hfetched, hends, hnext, hreg⟩ :=
      evalTurn_fetches vd c hlt hop hoperands hbranch hmiss
    have hplain' : Plain rest := fun i hi => hplain i (List.mem_cons_of_mem _ hi)
    rw [List.map_cons]
    by_cases hstop : ∀ o, r ≠ .ok o
    · obtain ⟨q, hq, hends', hno⟩ := Act.iter_of_stop fuel hturn hstop hends
      rw [hq]
      exact .stop hends' (fun val => hno _) hfetched
    · push Not at hstop
      obtain ⟨o, rfl⟩ := hstop
      rcases o with ⟨⟩ | ⟨val, b⟩
      · rw [Act.iter_of_inl fuel hturn]
        rw [List.length_cons] at hfuel
        obtain ⟨hends', ⟨n, hpart⟩, hall⟩ := ih hplain' fuel t (hnext rfl) (by omega)
        refine ⟨hends', ⟨n + 1, ?_⟩, fun val hval => ?_⟩
        · rw [hpart, hfetched, List.append_assoc]
          rfl
        · rw [hall val hval, hfetched, List.append_assoc]
          rfl
      · -- a register ends the loop, and the result says so
        rw [Act.iter_of_inr fuel hturn]
        obtain rfl := hreg val b rfl
        exact .stop (by simp) (by simp) hfetched

/-- **An expression is fetched at its boundaries**, from the start of the evaluator. -/
theorem evalExpr_fetches_boundaries {e : Word} {prog : List (Word × DwOp)} (vd : Validator)
    (c : Cursor) (lga : Lga) (h : ExprAt m a e prog) (hplain : Plain prog) {fuel : ℕ}
    (hfuel : prog.length < fuel) :
    Fetches [] (prog.map Prod.fst) (evalExpr vd m c fuel e (ExprState.init a lga)) := by
  have hempty : StackIs (ExprState.init a lga) [] :=
    ⟨rfl, by decide, fun i hi => absurd hi (by simp)⟩
  obtain ⟨s, hpush, -, hsame⟩ := push_spec hempty (by decide) c.cfa
  have hfetched : s.fetched = [] := hsame.fetched
  unfold evalExpr
  rw [Act.bind_of_ok hpush, ← hfetched]
  exact iter_fetches vd c h hplain fuel s hsame.addr hfuel

/-- **Framing.** An operation that is accepted is framed as DWARF defines it, and pushes the
constant that it encodes, except `DW_OP_constu` and `DW_OP_consts`. An expression without
branches and without these two is fetched at its instruction boundaries. -/
theorem expr_framed_iff (vd : Validator) (m : Mem) (c : Cursor) :
    (∀ (op : DwOp) (s : ExprState) (width : ℕ), accepted op = true →
      OperandsAt m s.addr (dwarfOperands op) width →
      (Consumes m op s width ∧ PushesConstant vd m c op s ↔ missingOperand op = false)) ∧
    (∀ (a e : Word) (prog : List (Word × DwOp)) (lga : Lga) (fuel : ℕ), ExprAt m a e prog →
      Plain prog → prog.length < fuel →
      Fetches [] (prog.map Prod.fst) (evalExpr vd m c fuel e (ExprState.init a lga))) :=
  ⟨fun _ _ _ hacc h => opRight_iff hacc vd c h,
    fun _ _ _ lga _ h hplain hfuel => evalExpr_fetches_boundaries vd c lga h hplain hfuel⟩

end

/-- An opcode at `0x1000`, and the byte `5` behind it. -/
def opcodeThenFive (opcode : Byte) : Mem := fun a => if a = 0x1000 then opcode else 5

/-- `DW_OP_const1u 5` is one instruction, and pushes 5. -/
theorem expr_const1u_five :
    ExprAt (opcodeThenFive 0x08) 0x1000 0x1002 [(0x1000, .const1u)] ∧
      Fetches [] [0x1000] (evalExpr msyncValidate (opcodeThenFive 0x08) zeroCursor 2 0x1002
        (ExprState.init 0x1000 Lga.empty)) ∧
      Consumes (opcodeThenFive 0x08) .const1u { ExprState.ofStack [] with addr := 0x1001 } 1 := by
  have hexpr : ExprAt (opcodeThenFive 0x08) 0x1000 0x1002 [(0x1000, .const1u)] :=
    .cons (by decide) ⟨1, 0, rfl, rfl, rfl⟩ (by decide) (.nil _)
  have hplain : Plain [(0x1000, .const1u)] := by
    intro i hi
    cases List.mem_singleton.1 hi
    exact ⟨rfl, rfl⟩
  obtain ⟨hop, hrun⟩ := expr_framed_iff msyncValidate (opcodeThenFive 0x08) zeroCursor
  exact ⟨hexpr, hrun _ _ _ Lga.empty 2 hexpr hplain (by decide),
    ((hop .const1u _ 1 rfl ⟨1, 0, rfl, rfl, rfl⟩).2 rfl).1⟩

/-- `DW_OP_constu 5` pushes the operand variable, which is 0 at the start, and the byte of
its operand is fetched as an opcode. -/
theorem expr_constu_five :
    accepted .constu = true ∧ ConstAt (opcodeThenFive 0x10) 0x1001 .constu 5 1 ∧
      ExprAt (opcodeThenFive 0x10) 0x1000 0x1002 [(0x1000, .constu)] ∧
      (∃ s', (readOperands (opcodeThenFive 0x10) .constu >>= fun _ =>
          execOp msyncValidate (opcodeThenFive 0x10) zeroCursor .constu)
            { ExprState.ofStack [] with addr := 0x1001 } = (.ok none, s') ∧
          StackIs s' [0] ∧ s'.addr = 0x1001) ∧
      (evalExpr msyncValidate (opcodeThenFive 0x10) zeroCursor 3 0x1002
        (ExprState.init 0x1000 Lga.empty)).2.fetched = [0x1000, 0x1001] := by
  have huleb : UlebAt (opcodeThenFive 0x10) 0x1001 5 1 :=
    ⟨[5], ⟨5, Leb128.Groups.last 5 (by decide)⟩, rfl, by decide, by decide, trivial⟩
  refine ⟨rfl, .constu huleb, ?_, ?_, by decide⟩
  · exact .cons (by decide) ⟨1, 0, ⟨5, huleb⟩, rfl, rfl⟩ (by decide) (.nil _)
  · have hempty : StackIs { ExprState.ofStack [] with addr := 0x1001 } [] :=
      (stackIs_ofStack (by decide)).of_same rfl rfl
    obtain ⟨s', hpush, hstack, hsame⟩ := push_spec hempty (by decide) 0
    refine ⟨s', ?_, hstack, hsame.addr⟩
    have hread : readOperands (opcodeThenFive 0x10) .constu
        { ExprState.ofStack [] with addr := 0x1001 } =
          (.ok (), { ExprState.ofStack [] with addr := 0x1001 }) := rfl
    have hexec : execOp msyncValidate (opcodeThenFive 0x10) zeroCursor .constu
        { ExprState.ofStack [] with addr := 0x1001 } =
          (push 0 >>= fun _ => pure none) { ExprState.ofStack [] with addr := 0x1001 } := rfl
    rw [Act.bind_of_ok hread, hexec, Act.bind_of_ok hpush, Act.pure_apply]

end LibunwindKern
