import LibunwindKern.Dwarf.ExprFraming
import LibunwindKern.Dwarf.RegLoc
import LibunwindKern.X86.Resume

/-!
# The registers an expression reads

The loop of `apply_reg_state` overwrites the locations of the registers in the order of the
columns, and an expression reads registers through these locations. So the expression of a column
may see a register as a column before it has left it.

* `regsRead` are the registers that the evaluation of an expression asks for, in order.
* `evalTurn_alike` and `iter_alike`: an evaluation depends on the cursor only through the values
  of these registers. In two frames in which they have the same values it runs in lockstep.
* `rules_at_once_iff`: the rules of a row are applied as if at once, if and only if no expression
  reads a register of an earlier column whose new location holds another value.
-/

namespace LibunwindKern

open CProg ByteMem Unw Eval

/-! ### The value of a register -/

section Value

variable (m : Mem)

/-- What `unw_get_reg` returns for a register. The page cache does not matter with the validator
that is installed. -/
def regValue (c : Cursor) (n : ℕ) : Res UnwError Word := (unwGetReg msyncValidate m c n Lga.empty).1

theorem unwGetReg_msync (c : Cursor) (n : ℕ) (g : Lga) :
    (unwGetReg msyncValidate m c n g).1 = regValue m c n := by
  unfold regValue unwGetReg
  split_ifs
  · rfl
  · -- an access with that validator is a value or an error, whatever the cache holds
    obtain ⟨value, hvalue⟩ | ⟨e, he⟩ := tdepAccessReg_msync c n
    · rw [hvalue, hvalue]
    · rw [he, he]

/-- The value of a register depends on no location but its own. -/
theorem regValue_loc (c : Cursor) {loc loc' : Fin dwarfNumPreservedRegs → Word} {n : ℕ}
    (h : ∀ hn : n < dwarfNumPreservedRegs, loc ⟨n, hn⟩ = loc' ⟨n, hn⟩) :
    regValue m { c with loc := loc } n = regValue m { c with loc := loc' } n := by
  unfold regValue unwGetReg tdepAccessReg dwarfGet
  by_cases hn : n < dwarfNumPreservedRegs
  · simp only [h hn]
  · -- a number that is no register is read at no location
    have hn' : ¬n < 2 := fun hlt => hn (Nat.lt_trans hlt (by decide))
    simp only [dif_neg hn, dif_neg hn']

end Value

/-! ### Operations and the page cache -/

/-- The state of the evaluator with another page cache. -/
def ExprState.withLga (g : Lga) (s : ExprState) : ExprState := { s with lga := g }

section Ignores

/-- The operation does not look at the page cache. -/
abbrev IgnoresLga {α : Type} (x : Eval α) : Prop := Act.Ignores ExprState.withLga x

theorem onAddr_ignores {α : Type} (x : Reader α) : IgnoresLga (Eval.onAddr x) :=
  fun _ g => ⟨rfl, g, rfl⟩

theorem entry_ignores (index : BitVec 32) : IgnoresLga (entry index) := by
  refine Act.Ignores.get_bind (fun _ _ => rfl) fun s => ?_
  split
  · split
    · exact Act.Ignores.pure _
    · exact Act.Ignores.lift _
  · exact Act.Ignores.fail _

theorem pop_ignores : IgnoresLga pop :=
  Act.Ignores.get_bind (fun _ _ => rfl) fun _ => (entry_ignores _).bind fun _ =>
    Act.Ignores.bind (Act.Ignores.modify fun _ g => ⟨g, rfl⟩) fun _ => Act.Ignores.pure _

theorem push_ignores (val : Word) : IgnoresLga (push val) := by
  refine Act.Ignores.get_bind (fun _ _ => rfl) fun s => ?_
  split
  · exact Act.Ignores.modify fun _ g => ⟨g, rfl⟩
  · exact Act.Ignores.fail _

theorem pick_ignores (n : Word) : IgnoresLga (Eval.pick n) :=
  Act.Ignores.get_bind (fun _ _ => rfl) fun _ => entry_ignores _

theorem unary_ignores (f : Word → Word) : IgnoresLga (unary f) :=
  pop_ignores.bind fun _ => push_ignores _

theorem pushOfPop_ignores (f : Word → Word) : IgnoresLga (pushOfPop f) := by
  refine Act.Ignores.get_bind (fun _ _ => rfl) fun s => ?_
  split
  · exact unary_ignores f
  · exact Act.Ignores.fail _

theorem binary_ignores (f : Word → Word → Res UnwError Word) : IgnoresLga (binary f) :=
  pop_ignores.bind fun _ => pop_ignores.bind fun _ => (Act.Ignores.lift _).bind fun _ =>
    push_ignores _

theorem signedConst_ignores (bits : ℕ) : IgnoresLga (signedConst bits) :=
  Act.Ignores.bind (Act.Ignores.modify fun _ g => ⟨g, rfl⟩) fun _ =>
    Act.Ignores.get_bind (fun _ _ => rfl) fun _ => push_ignores _

theorem branch_ignores : IgnoresLga branch := Act.Ignores.modify fun _ g => ⟨g, rfl⟩

theorem derefSize_ignores (m : Mem) : IgnoresLga (Eval.derefSize m) := by
  refine pop_ignores.bind fun tmp1 => Act.Ignores.get_bind (fun _ _ => rfl) fun s => ?_
  split <;> first | exact push_ignores _ | exact Act.Ignores.fail _

theorem readOperands_ignores (m : Mem) (op : DwOp) : IgnoresLga (readOperands m op) := by
  unfold readOperands
  split
  · exact Act.Ignores.pure _
  · exact (onAddr_ignores _).bind fun _ => Act.Ignores.modify fun _ g => ⟨g, rfl⟩
  · exact (onAddr_ignores _).bind fun _ =>
      Act.Ignores.bind (Act.Ignores.modify fun _ g => ⟨g, rfl⟩) fun _ =>
        (onAddr_ignores _).bind fun _ => Act.Ignores.modify fun _ g => ⟨g, rfl⟩

end Ignores

/-! ### The register an operation reads -/

/-- The number of the register an operation reads, if it reads one. -/
def regOf (op : DwOp) (operand1 : Word) : Option Word :=
  match op with
  | .breg n => some (BitVec.ofNat 64 n)
  | .bregx => some operand1
  | _ => none

/-- The register that `unw_get_reg` is called for, if it is called. -/
def regRead (op : DwOp) (operand1 : Word) : Option ℕ :=
  match regOf op operand1 with
  | some reg =>
    match dwarfToUnwRegnum reg with
    | .ok n => some n
    | _ => none
  | none => none

section Operation

variable (v : Validator) (m : Mem)

/-- An operation that reads no register looks neither at the cursor nor at the page cache. -/
theorem execStackOp_ignores {op : DwOp} {operand1 : Word} (h : regOf op operand1 = none)
    (c : Cursor) (operand2 : Word) : IgnoresLga (execStackOp v m c op operand1 operand2) := by
  cases op
  case breg => cases h
  case bregx => cases h
  case const1s => exact signedConst_ignores _
  case const2s => exact signedConst_ignores _
  case const4s => exact signedConst_ignores _
  case deref => exact pop_ignores.bind fun _ => push_ignores _
  case derefSize => exact derefSize_ignores _
  case dup => exact (pick_ignores _).bind fun _ => push_ignores _
  case pick => exact (pick_ignores _).bind fun _ => push_ignores _
  case «over» => exact (pick_ignores _).bind fun _ => push_ignores _
  case drop => exact pop_ignores.bind fun _ => Act.Ignores.pure _
  case swap =>
    exact pop_ignores.bind fun _ => pop_ignores.bind fun _ => (push_ignores _).bind fun _ =>
      push_ignores _
  case rot =>
    exact pop_ignores.bind fun _ => pop_ignores.bind fun _ => pop_ignores.bind fun _ =>
      (push_ignores _).bind fun _ => (push_ignores _).bind fun _ => push_ignores _
  case skip => exact branch_ignores
  case bra =>
    refine pop_ignores.bind fun tmp1 => ?_
    split
    · exact branch_ignores
    · exact Act.Ignores.pure _
  case nop => exact Act.Ignores.pure _
  case abs => exact unary_ignores _
  case plusUconst => exact unary_ignores _
  case neg => exact pushOfPop_ignores _
  case not => exact pushOfPop_ignores _
  -- the constants, the operators on two entries, and what is not implemented
  all_goals first
    | exact push_ignores _
    | exact binary_ignores _
    | exact Act.Ignores.fail _

theorem execStackOp_cursor {op : DwOp} {operand1 : Word} (h : regOf op operand1 = none)
    (c c' : Cursor) (operand2 : Word) :
    execStackOp v m c' op operand1 operand2 = execStackOp v m c op operand1 operand2 := by
  cases op
  case breg => cases h
  case bregx => cases h
  all_goals rfl

/-- An operation that reads a register pushes it, with an offset. -/
theorem execStackOp_reg {op : DwOp} {operand1 reg : Word} (h : regOf op operand1 = some reg)
    (operand2 : Word) :
    ∃ offset, ∀ c, execStackOp v m c op operand1 operand2 = pushReg v m c reg offset := by
  cases op
  case breg n =>
    cases h
    exact ⟨operand1, fun _ => rfl⟩
  case bregx =>
    cases h
    exact ⟨operand2, fun _ => rfl⟩
  all_goals cases h

end Operation

/-! ### One turn of the evaluator -/

section Turn

variable {m : Mem} {c c' : Cursor}

/-- The two frames agree on the register that an operation reads. -/
abbrev AgreeOn (m : Mem) (c c' : Cursor) (n : ℕ) : Prop := regValue m c' n = regValue m c n

theorem pushReg_alike {reg : Word} (offset : Word) (s : ExprState) (g : Lga)
    (h : ∀ n, dwarfToUnwRegnum reg = .ok n → AgreeOn m c c' n) :
    Act.Alike ExprState.withLga (pushReg msyncValidate m c reg offset s)
      (pushReg msyncValidate m c' reg offset (s.withLga g)) := by
  refine Act.Alike.bind (Act.Ignores.lift _ s g) fun n t g₁ hn => ?_
  -- the read goes through the page cache, which the two runs need not share
  refine Act.Alike.bind ⟨?_, _, rfl⟩ fun tmp1 t₁ g₂ _ => push_ignores _ t₁ g₂
  change (unwGetReg msyncValidate m c' n g₁).1 = (unwGetReg msyncValidate m c n t.lga).1
  rw [unwGetReg_msync, unwGetReg_msync]
  exact h n (congrArg Prod.fst hn)

/-- **One operation.** If it reads a register, the two frames must agree on it. -/
theorem execOp_alike {op : DwOp} (s : ExprState) (g : Lga)
    (h : ∀ n ∈ regRead op s.operand1, AgreeOn m c c' n) :
    Act.Alike ExprState.withLga (execOp msyncValidate m c op s)
      (execOp msyncValidate m c' op (s.withLga g)) := by
  -- the operation works on the stack, with or without a register
  have hstack : Act.Alike ExprState.withLga
      (execStackOp msyncValidate m c op s.operand1 s.operand2 s)
      (execStackOp msyncValidate m c' op s.operand1 s.operand2 (s.withLga g)) := by
    cases hreg : regOf op s.operand1 with
    | none =>
      rw [execStackOp_cursor msyncValidate m hreg c c']
      exact execStackOp_ignores msyncValidate m hreg c _ s g
    | some reg =>
      obtain ⟨offset, hoffset⟩ := execStackOp_reg msyncValidate m hreg s.operand2
      rw [hoffset c, hoffset c']
      refine pushReg_alike offset s g fun n hn => h n ?_
      simp only [regRead, hreg, hn]
      rfl
  have hnone : Act.Alike ExprState.withLga
      ((execStackOp msyncValidate m c op s.operand1 s.operand2 >>= fun _ =>
        (pure none : Eval (Option ℕ))) s)
      ((execStackOp msyncValidate m c' op s.operand1 s.operand2 >>= fun _ =>
        (pure none : Eval (Option ℕ))) (s.withLga g)) :=
    hstack.bind fun _ t g' _ => Act.Ignores.pure none t g'
  -- or it is the last one, which denotes a register and reads none
  have hsome : ∀ reg : Word, IgnoresLga (do
      let regnum ← Act.lift (dwarfToUnwRegnum reg)
      pure (some regnum) : Eval (Option ℕ)) := fun reg =>
    (Act.Ignores.lift _).bind fun _ => Act.Ignores.pure _
  cases op with
  | reg n => exact hsome _ s g
  | regx => exact hsome _ s g
  | _ => exact hnone

/-- The register that an operation reads, from the state behind its opcode. -/
def opRead (m : Mem) (op : DwOp) (s : ExprState) : Option ℕ :=
  match readOperands m op s with
  | (.ok (), t) => regRead op t.operand1
  | _ => none

/-- The register that a turn reads. -/
def turnRead (m : Mem) (endAddr : Word) (s : ExprState) : Option ℕ :=
  if s.addr < endAddr then
    match DwOp.ofByte (m s.addr) with
    | some op => opRead m op s.pastOpcode
    | none => none
  else none

theorem opRead_withLga (op : DwOp) (s : ExprState) (g : Lga) :
    opRead m op (s.withLga g) = opRead m op s := by
  unfold opRead
  obtain ⟨hout, g', hstate⟩ := readOperands_ignores m op s g
  rw [Act.run_of_outcome hout, hstate]
  rcases readOperands m op s with ⟨r, t⟩
  cases r with
  | ok a =>
    cases a
    rfl
  | _ => rfl

theorem turnRead_withLga (e : Word) (s : ExprState) (g : Lga) :
    turnRead m e (s.withLga g) = turnRead m e s := by
  have hop : ∀ op, opRead m op (s.withLga g).pastOpcode = opRead m op s.pastOpcode := fun op =>
    opRead_withLga op s.pastOpcode g
  unfold turnRead
  simp only [hop]
  rfl

/-- **One turn.** If it reads a register, the two frames must agree on it. -/
theorem evalTurn_alike (e : Word) (s : ExprState) (g : Lga)
    (h : ∀ n ∈ turnRead m e s, AgreeOn m c c' n) :
    Act.Alike ExprState.withLga (evalTurn msyncValidate m c e () s)
      (evalTurn msyncValidate m c' e () (s.withLga g)) := by
  by_cases hlt : s.addr < e
  · have hlt' : (s.withLga g).addr < e := hlt
    have haddr : (s.withLga g).addr = s.addr := rfl
    rw [evalTurn_of_lt hlt, evalTurn_of_lt hlt', haddr]
    unfold turnRead at h
    rw [if_pos hlt] at h
    cases hop : DwOp.ofByte (m s.addr) with
    | none => exact ⟨rfl, g, rfl⟩
    | some op =>
      rw [hop] at h
      -- the operands come from the block, so both runs have the same
      refine Act.Alike.bind (readOperands_ignores m op s.pastOpcode g)
        fun _ t g₁ hread => ?_
      refine Act.Alike.bind (execOp_alike t g₁ fun n hn => h n ?_) fun r t₁ g₂ _ => ?_
      · change n ∈ opRead m op s.pastOpcode
        unfold opRead
        rw [hread]
        exact hn
      · cases r with
        | none => exact Act.Ignores.pure _ t₁ g₂
        | some regnum => exact Act.Ignores.pure _ t₁ g₂
  · -- the block is at its end
    have hlt' : ¬(s.withLga g).addr < e := hlt
    rw [evalTurn_of_not_lt hlt, evalTurn_of_not_lt hlt']
    exact Act.Alike.bind (pop_ignores s g) fun val t g' _ =>
      Act.Ignores.pure _ t g'

end Turn

/-! ### The whole evaluation -/

section Run

variable (m : Mem) {c c' : Cursor}

/-- The registers that the loop of the evaluator reads, in order. The last one may be a register
that cannot be read. -/
def regsRead (endAddr : Word) (c : Cursor) : ℕ → ExprState → List ℕ
  | 0, _ => []
  | fuel + 1, s =>
    (turnRead m endAddr s).toList ++
      match evalTurn msyncValidate m c endAddr () s with
      | (.ok (.inl ()), t) => regsRead endAddr c fuel t
      | _ => []

variable {m}

/-- **The loop.** In two frames that agree on the registers it reads in one of them, it runs in
lockstep. The induction is over the turns. -/
theorem iter_alike {e : Word} {fuel : ℕ} {s : ExprState} (g : Lga)
    (h : ∀ n ∈ regsRead m e c fuel s, AgreeOn m c c' n) :
    Act.Alike ExprState.withLga (Act.iter (evalTurn msyncValidate m c e) fuel () s)
      (Act.iter (evalTurn msyncValidate m c' e) fuel () (s.withLga g)) ∧
    regsRead m e c' fuel (s.withLga g) = regsRead m e c fuel s := by
  induction fuel generalizing s g with
  | zero => exact ⟨Act.Ignores.lift .diverge s g, rfl⟩
  | succ fuel ih =>
    rw [regsRead] at h
    have hturn : Act.Alike ExprState.withLga (evalTurn msyncValidate m c e () s)
        (evalTurn msyncValidate m c' e () (s.withLga g)) :=
      evalTurn_alike e s g fun n hn => h n (List.mem_append_left _ (Option.mem_toList.2 hn))
    -- a turn that goes round again leaves the registers of the other turns
    have hrest : ∀ t, evalTurn msyncValidate m c e () s = (.ok (.inl ()), t) →
        ∀ n ∈ regsRead m e c fuel t, AgreeOn m c c' n := by
      intro t ht n hn
      refine h n (List.mem_append_right _ ?_)
      rw [ht]
      exact hn
    constructor
    · refine Act.Alike.bind hturn fun o t g' ht => ?_
      cases o with
      | inl _ => exact (ih g' (hrest t ht)).1
      | inr a => exact Act.Ignores.pure a t g'
    · -- and the second run reads the same registers, turn by turn
      obtain ⟨hout, g', hstate⟩ := hturn
      rw [regsRead, regsRead, turnRead_withLga, Act.run_of_outcome hout, hstate]
      rcases hrun : evalTurn msyncValidate m c e () s with ⟨r, t⟩
      cases r with
      | ok o =>
        cases o with
        | inl _ => exact congrArg _ (ih g' (hrest t hrun)).2
        | inr a => rfl
      | _ => rfl

theorem evalStart_eq (hcfa : c'.cfa = c.cfa) (addr : Word) (g : Lga) :
    evalStart c' addr g = (evalStart c addr Lga.empty).withLga g := by
  unfold evalStart
  rw [hcfa]
  rfl

/-- **An expression** has the same value in two frames that agree on the registers it reads. -/
theorem dwarfEvalExpr_agree {fuel : ℕ} {addr len : Word} (hcfa : c'.cfa = c.cfa)
    (h : ∀ n ∈ regsRead m (addr + len) c fuel (evalStart c addr Lga.empty), AgreeOn m c c' n)
    (g g' : Lga) :
    (dwarfEvalExpr msyncValidate m c' fuel addr len g').1 =
        (dwarfEvalExpr msyncValidate m c fuel addr len g).1 ∧
      regsRead m (addr + len) c' fuel (evalStart c' addr Lga.empty) =
        regsRead m (addr + len) c fuel (evalStart c addr Lga.empty) := by
  rw [dwarfEvalExpr_eq_start, dwarfEvalExpr_eq_start, evalStart_eq hcfa addr g',
    evalStart_eq rfl addr g, evalStart_eq hcfa addr Lga.empty]
  -- the cache does not matter to one frame alone either
  have hself : ∀ n ∈ regsRead m (addr + len) c fuel (evalStart c addr Lga.empty),
      AgreeOn m c c n := fun _ _ => rfl
  have hnew := (iter_alike g' h).1.1
  have hold := (iter_alike g hself).1.1
  exact ⟨hnew.trans hold.symm, (iter_alike Lga.empty h).2⟩

variable (m)

/-- The registers that an expression reads in a frame. -/
def exprReads (fuel : ℕ) (addr : Word) (c : Cursor) : List ℕ :=
  match dwarfReadUleb128 m addr with
  | (.ok len, addr) => regsRead m (addr + len) c fuel (evalStart c addr Lga.empty)
  | _ => []

/-- The location that the value of an expression stands for. -/
def valueLoc (c : Cursor) (r : Word × Bool) : Res UnwError Word :=
  if r.2 then dwarfToUnwRegnum r.1 >>= fun regnum => .ok (regLoc c regnum) else .ok r.1

/-- What `eval_location_expr` returns. -/
theorem evalLocationExpr_fst (v : Validator) (fuel : ℕ) (addr : Word) (s : St) :
    (evalLocationExpr v m fuel addr s).1 =
      match dwarfReadUleb128 m addr with
      | (.ok len, addr') => (dwarfEvalExpr v m s.c fuel addr' len s.lga).1 >>= valueLoc s.c
      | _ => .diverge := by
  unfold evalLocationExpr
  rw [Act.get_bind]
  rcases dwarfReadUleb128 m addr with ⟨q, addr'⟩
  cases q with
  | ok len =>
    refine Act.bind_fst (fun r t => ?_) s
    unfold valueLoc
    split_ifs
    · cases dwarfToUnwRegnum r.1 <;> rfl
    · rfl
  | _ => rfl

variable {m}

/-- The location of an expression in two frames that agree on the registers it reads. -/
theorem evalLocationExpr_agree {fuel : ℕ} {addr : Word} {s u : St}
    (hc : u.c = { s.c with loc := u.c.loc })
    (h : ∀ n ∈ exprReads m fuel addr s.c, AgreeOn m s.c u.c n) :
    (evalLocationExpr msyncValidate m fuel addr u).1 =
        (evalLocationExpr msyncValidate m fuel addr s).1 ∧
      exprReads m fuel addr u.c = exprReads m fuel addr s.c := by
  have hcfa : u.c.cfa = s.c.cfa := by rw [hc]
  -- a register that is denoted is a slot of the context, in both frames
  have hvalue : valueLoc u.c = valueLoc s.c := by
    rw [hc]
    rfl
  rw [evalLocationExpr_fst, evalLocationExpr_fst, hvalue]
  unfold exprReads at h ⊢
  rcases hlen : dwarfReadUleb128 m addr with ⟨q, addr'⟩
  rw [hlen] at h
  cases q with
  | ok len =>
    obtain ⟨hval, hreads⟩ := dwarfEvalExpr_agree hcfa h s.lga u.lga
    exact ⟨congrArg (· >>= valueLoc s.c) hval, hreads⟩
  | _ => exact ⟨rfl, rfl⟩

end Run

/-! ### Rules that are applied at once -/

section AtOnce

variable (m : Mem) (fuel : ℕ) (rs : RegState)

/-- The registers that a rule reads in a frame. -/
def ruleReads (rule : SaveLoc) (c : Cursor) : List ℕ :=
  if rule.whereSaved = .expr then exprReads m fuel rule.val c else []

variable {m fuel rs}

theorem ruleReads_of_ne {rule : SaveLoc} (hw : rule.whereSaved ≠ .expr) (c : Cursor) :
    ruleReads m fuel rule c = [] := if_neg hw

theorem ruleReads_of_expr {rule : SaveLoc} (hw : rule.whereSaved = .expr) (c : Cursor) :
    ruleReads m fuel rule c = exprReads m fuel rule.val c := if_pos hw

theorem ruleLoc_of_expr {v : Validator} {cfa : Word} {rule : SaveLoc}
    (hw : rule.whereSaved = .expr) (i : Fin dwarfNumPreservedRegs) (s : St) :
    ruleLoc v m fuel cfa rule i s = evalLocationExpr v m fuel rule.val s := by
  unfold ruleLoc
  rw [Act.get_bind, hw]

/-- A rule that is no expression looks at the location of its register and at the context. -/
theorem ruleLoc_of_ne {v : Validator} {cfa : Word} {rule : SaveLoc}
    {i : Fin dwarfNumPreservedRegs} {s u : St} (hw : rule.whereSaved ≠ .expr)
    (hc : u.c = { s.c with loc := u.c.loc }) (hi : u.c.loc i = s.c.loc i) :
    (ruleLoc v m fuel cfa rule i u).1 = (ruleLoc v m fuel cfa rule i s).1 := by
  -- the context is the same
  have huc : ∀ n, regLoc u.c n = regLoc s.c n := by
    intro n
    rw [hc]
    rfl
  unfold ruleLoc
  rw [Act.get_bind, Act.get_bind]
  cases hrule : rule.whereSaved with
  | undefined => rfl
  | same => exact congrArg Res.ok hi
  | cfarel => rfl
  | reg =>
    simp only [huc]
    cases dwarfToUnwRegnum rule.val <;> rfl
  | expr => exact absurd hrule hw

/-- **A rule** denotes the same location in two frames that agree on the registers it reads. -/
theorem ruleLoc_agree (cfa : Word) {rule : SaveLoc} {i : Fin dwarfNumPreservedRegs} {s u : St}
    (hc : u.c = { s.c with loc := u.c.loc }) (hi : u.c.loc i = s.c.loc i)
    (h : ∀ n ∈ ruleReads m fuel rule s.c, AgreeOn m s.c u.c n) :
    (ruleLoc msyncValidate m fuel cfa rule i u).1 = (ruleLoc msyncValidate m fuel cfa rule i s).1 ∧
      ruleReads m fuel rule u.c = ruleReads m fuel rule s.c := by
  by_cases hw : rule.whereSaved = .expr
  · rw [ruleReads_of_expr hw] at h
    rw [ruleLoc_of_expr hw, ruleLoc_of_expr hw, ruleReads_of_expr hw, ruleReads_of_expr hw]
    exact evalLocationExpr_agree hc h
  · rw [ruleReads_of_ne hw, ruleReads_of_ne hw]
    exact ⟨ruleLoc_of_ne hw hc hi, rfl⟩

variable (m fuel rs)

/-- The rules of a row are applied at once: each column gets the location that its rule denotes in
the old frame, and each register that its expression reads has the value of the old frame. -/
structure AtOnce (s t : St) : Prop where
  loc : ∀ cfa u i, evalCfa msyncValidate m fuel rs s = (.ok cfa, u) →
    (ruleLoc msyncValidate m fuel cfa (rs (column i)) i u).1 = .ok (t.c.loc i)
  regs : ∀ cfa u w i, evalCfa msyncValidate m fuel rs s = (.ok cfa, u) →
    applyRules msyncValidate m fuel rs cfa (columnsBefore i) u = (.ok (), w) →
    ∀ n ∈ ruleReads m fuel (rs (column i)) w.c, AgreeOn m s.c w.c n

/-- No expression reads, in the old frame, a register of an earlier column whose rule denotes a
location with another value. -/
def ReadsUnmoved (s : St) : Prop :=
  ∀ cfa u, evalCfa msyncValidate m fuel rs s = (.ok cfa, u) →
    ∀ i j : Fin dwarfNumPreservedRegs, j < i → j.val ∈ ruleReads m fuel (rs (column i)) s.c →
      ∀ loc, (ruleLoc msyncValidate m fuel cfa (rs (column j)) j u).1 = .ok loc →
        AgreeOn m s.c { s.c with loc := Function.update s.c.loc j loc } j

variable {m fuel rs}

/-- The value of a register in a frame of which the location of that register is known. -/
theorem regValue_frame {c c' : Cursor} {loc : Fin dwarfNumPreservedRegs → Word} {n : ℕ}
    (hc : c' = { c with loc := c'.loc })
    (h : ∀ hn : n < dwarfNumPreservedRegs, c'.loc ⟨n, hn⟩ = loc ⟨n, hn⟩) :
    regValue m c' n = regValue m { c with loc := loc } n := by
  rw [hc]
  exact regValue_loc m c h

/-- The frame that the rule of a column sees: the columns before it have their new locations, and
the others those of the frame with the cursor `c`. -/
structure SeenBy (i : Fin dwarfNumPreservedRegs) (c : Cursor) (t w : St) : Prop where
  rest : w.c = { c with loc := w.c.loc }
  earlier : ∀ j < i, w.c.loc j = t.c.loc j
  later : ∀ j, ¬j < i → w.c.loc j = c.loc j

section Seen

variable {i : Fin dwarfNumPreservedRegs} {c : Cursor} {t w : St}

/-- That frame agrees with the old one on a register of an earlier column if and only if the new
location of the register holds its value. -/
theorem SeenBy.agreeOn_iff (h : SeenBy i c t w) {j : Fin dwarfNumPreservedRegs} (hj : j < i) :
    AgreeOn m c w.c j ↔ AgreeOn m c { c with loc := Function.update c.loc j (t.c.loc j) } j := by
  have hmoved : regValue m w.c j =
      regValue m { c with loc := Function.update c.loc j (t.c.loc j) } j := by
    refine regValue_frame h.rest fun _ => ?_
    change w.c.loc j = Function.update c.loc j (t.c.loc j) j
    rw [Function.update_self, h.earlier j hj]
  unfold AgreeOn
  rw [hmoved]

/-- The other registers have not been moved, so only those of earlier columns are in question. -/
theorem SeenBy.agreeOn_reads (h : SeenBy i c t w) {reads : List ℕ}
    (hreads : ∀ j < i, j.val ∈ reads →
      AgreeOn m c { c with loc := Function.update c.loc j (t.c.loc j) } j) :
    ∀ n ∈ reads, AgreeOn m c w.c n := by
  intro n hn
  by_cases hearlier : ∃ hlt : n < dwarfNumPreservedRegs, (⟨n, hlt⟩ : Fin _) < i
  · obtain ⟨hlt, hj⟩ := hearlier
    exact (h.agreeOn_iff hj).2 (hreads ⟨n, hlt⟩ hj hn)
  · exact regValue_frame h.rest fun hlt => h.later _ fun hj => hearlier ⟨hlt, hj⟩

/-- The frame that a column sees, in the run of a row that is applied. -/
theorem applyRegState_seen {v : Validator} {s : St}
    (h : applyRegState v m fuel rs s = (.ok (), t)) :
    ∃ cfa u, evalCfa v m fuel rs s = (.ok cfa, u) ∧ u.c = s.c ∧
      ∀ i, ∃ w, applyRules v m fuel rs cfa (columnsBefore i) u = (.ok (), w) ∧ SeenBy i s.c t w ∧
        (ruleLoc v m fuel cfa (rs (column i)) i w).1 = .ok (t.c.loc i) := by
  obtain ⟨cfa, u, t', hcfa, hrules, -, hloc⟩ := applyRegState_eq_ok h
  have hu : u.c = s.c := by rw [evalCfa_state v m fuel rs hcfa]
  refine ⟨cfa, u, hcfa, hu, fun i => ?_⟩
  obtain ⟨w, hbefore, hrule⟩ := applyRules_column v m fuel rs cfa hrules i
  obtain ⟨hrest, hlater⟩ := applyRules_before v m fuel rs cfa hbefore
  rw [hu] at hrest hlater
  refine ⟨w, hbefore, ⟨hrest, fun j hj => ?_, hlater⟩, ?_⟩
  · -- an earlier column is not written again
    rw [finRange_eq i, applyRules_append, Act.bind_of_ok hbefore] at hrules
    rw [hloc]
    exact ((applyRules_loc v m fuel rs cfa (notMem_columnsFrom hj)).run hrules).symm
  · rw [hrule, hloc]

end Seen

/-- **The rules of a row are applied at once** if and only if no expression reads a register of an
earlier column whose new location holds another value. -/
theorem rules_at_once_iff (m : Mem) (fuel : ℕ) (rs : RegState) (s t : St)
    (h : applyRegState msyncValidate m fuel rs s = (.ok (), t)) :
    AtOnce m fuel rs s t ↔ ReadsUnmoved m fuel rs s := by
  obtain ⟨cfa, u, hcfa, hu, hcolumns⟩ := applyRegState_seen h
  constructor
  · intro honce cfa' u' hcfa' i j hj hmem loc hruleLoc
    cases hcfa.symm.trans hcfa'
    obtain ⟨w, hbefore, hseen, -⟩ := hcolumns i
    have hregs := honce.regs cfa u w i hcfa hbefore
    -- the evaluation in the frame that the column sees reads what it reads in the old frame
    have hback : s.c = { w.c with loc := s.c.loc } := by rw [hseen.rest]
    have hreads : ruleReads m fuel (rs (column i)) s.c = ruleReads m fuel (rs (column i)) w.c :=
      (ruleLoc_agree cfa hback (hseen.later i (lt_irrefl i)).symm
        fun n hn => (hregs n hn).symm).2
    have hnew : loc = t.c.loc j := Res.ok.inj (hruleLoc.symm.trans (honce.loc cfa u j hcfa))
    rw [hnew]
    exact (hseen.agreeOn_iff hj).1 (hregs j (hreads ▸ hmem))
  · intro hunmoved
    -- by induction over the columns, each has the location of the old frame
    have hloc : ∀ i, (ruleLoc msyncValidate m fuel cfa (rs (column i)) i u).1 = .ok (t.c.loc i) ∧
        ∀ w, SeenBy i s.c t w → ∀ n ∈ ruleReads m fuel (rs (column i)) s.c, AgreeOn m s.c w.c n := by
      intro i
      induction i using WellFoundedLT.induction with
      | ind i ih =>
        have hagree : ∀ w, SeenBy i s.c t w →
            ∀ n ∈ ruleReads m fuel (rs (column i)) s.c, AgreeOn m s.c w.c n := fun w hseen =>
          hseen.agreeOn_reads fun j hj hmem => hunmoved cfa u hcfa i j hj hmem _ (ih j hj).1
        obtain ⟨w, -, hseen, hrule⟩ := hcolumns i
        rw [← hu] at hseen hagree
        have hsame := ruleLoc_agree cfa hseen.rest (hseen.later i (lt_irrefl i))
          (hagree w hseen)
        rw [← hu]
        exact ⟨hsame.1.symm.trans hrule, hagree⟩
    refine ⟨fun cfa' u' i hcfa' => ?_, fun cfa' u' w i hcfa' hw => ?_⟩
    · cases hcfa.symm.trans hcfa'
      exact (hloc i).1
    · cases hcfa.symm.trans hcfa'
      obtain ⟨w', hbefore, hseen, -⟩ := hcolumns i
      cases hbefore.symm.trans hw
      have hagree := (hloc i).2 w hseen
      rw [(ruleLoc_agree cfa hseen.rest (hseen.later i (lt_irrefl i)) hagree).2]
      exact hagree

end AtOnce

/-- The block `DW_OP_breg3 0` at `0x9000`, 5 at `0x7000`, and `0x6000` in the slot of `RBX`. -/
def breg3Mem : Mem := fun a =>
  if a = 0x7000 then 5 else if a = 0x40051 then 0x60
  else ([0x02, 0x73, 0x00] : List Byte).getD (a - 0x9000).toNat 0

/-- The CFA is `RSP` + 16, `RBX` has a rule, and the rule of `R12` is the block. -/
def breg3Row (rbx : SaveLoc) : RegState :=
  rowOf [(cfaRegColumn, ⟨.reg, 7⟩), (cfaOffColumn, ⟨.undefined, 16⟩), (column RBX, rbx),
    (column R12, ⟨.expr, 0x9000⟩)]

/-- `RBX` is where it was, and the expression of `R12` reads it. -/
theorem rules_at_once_same :
    3 ∈ ruleReads breg3Mem 9 (breg3Row ⟨.same, 0⟩ (column R12)) innerFrame.c ∧
      AtOnce breg3Mem 9 (breg3Row ⟨.same, 0⟩) innerFrame
        (applyRegState msyncValidate breg3Mem 9 (breg3Row ⟨.same, 0⟩) innerFrame).2 := by
  have hrun : (applyRegState msyncValidate breg3Mem 9 (breg3Row ⟨.same, 0⟩) innerFrame).1 = .ok () := by
    decide +kernel
  refine ⟨by decide +kernel, (rules_at_once_iff breg3Mem 9 (breg3Row ⟨.same, 0⟩) innerFrame _
    (Act.run_of_outcome hrun)).2 fun cfa u hcfa i j hj hmem loc hloc => ?_⟩
  -- every register that is read by a later column has the rule "same value"
  have hsame : ∀ i j : Fin dwarfNumPreservedRegs, j < i →
      j.val ∈ ruleReads breg3Mem 9 (breg3Row ⟨.same, 0⟩ (column i)) innerFrame.c →
      (breg3Row ⟨.same, 0⟩ (column j)).whereSaved = .same := by decide +kernel
  have hu : u.c = innerFrame.c := by rw [evalCfa_state _ _ _ _ hcfa]
  unfold ruleLoc at hloc
  rw [Act.get_bind, hsame i j hj hmem, hu] at hloc
  cases hloc
  rw [Function.update_eq_self]

/-- `RBX` gets a location that holds 5, and the expression of `R12` gives 5 and not `0x6000`. -/
theorem rules_not_at_once :
    (applyRegState msyncValidate breg3Mem 9 (breg3Row ⟨.cfarel, -16⟩) innerFrame).1 = .ok () ∧
      (applyRegState msyncValidate breg3Mem 9 (breg3Row ⟨.cfarel, -16⟩) innerFrame).2.c.loc R12 = 5 ∧
      (ruleLoc msyncValidate breg3Mem 9 0x7010 (breg3Row ⟨.cfarel, -16⟩ (column R12)) R12
        innerFrame).1 = .ok 0x6000 ∧
      ¬AtOnce breg3Mem 9 (breg3Row ⟨.cfarel, -16⟩) innerFrame
        (applyRegState msyncValidate breg3Mem 9 (breg3Row ⟨.cfarel, -16⟩) innerFrame).2 := by
  have hnew : (applyRegState msyncValidate breg3Mem 9 (breg3Row ⟨.cfarel, -16⟩)
      innerFrame).2.c.loc R12 = 5 := by decide +kernel
  have hold : (ruleLoc msyncValidate breg3Mem 9 0x7010 (breg3Row ⟨.cfarel, -16⟩ (column R12)) R12
      innerFrame).1 = .ok 0x6000 := by decide +kernel
  refine ⟨by decide +kernel, hnew, hold, fun honce => ?_⟩
  have hloc := honce.loc 0x7010 innerFrame R12 rfl
  rw [hold, hnew] at hloc
  exact absurd (Res.ok.inj hloc) (by decide)

end LibunwindKern
