import LibunwindKern.Dwarf.CfiCommands
import LibunwindKern.Dwarf.ReadProgress

/-!
# When a CFI program ends

The loop of `run_cfi_program` ends when the address variable has reached the end of the program. Every
instruction moves it behind its opcode and its operands. `DW_CFA_def_cfa_expression` and
`DW_CFA_expression` also move it over a block, by a length that is read from the program and added
modulo `2 ^ 64`. A length close to `2 ^ 64` moves it back, and an instruction that moves it back to
itself is executed for ever.

`BlockGoesBack` is that case, read off the bytes of the instruction. `cfiTurn_progress` is the step
lemma, and `cfi_terminates_iff` says that nothing else keeps a program from ending.
-/

namespace LibunwindKern

open CProg ByteMem

/-! ### Operands -/

/-- The command reads a LEB128 operand. -/
def ReadsLeb (dci : CieInfo) : {β : Type} → CfiCmd β → Prop
  | _, .uleb => True
  | _, .sleb => True
  | _, .pointer => LebFormat dci.fdeEncoding
  | _, _ => False

/-- A LEB128 operand that is read is terminated. -/
def Terminated (m : Mem) (dci : CieInfo) (x : Call CfiCmd CfiState) : Prop :=
  ReadsLeb dci x.cmd → LebEnds m x.state.addr

/-- The length of the block that an instruction skips, read from behind the opcode. -/
def blockLength (m : Mem) : DwCfa → Reader Word
  | .defCfaExpression => dwarfReadUleb128 m
  | .expression => do
    let _ ← readRegnum m
    dwarfReadUleb128 m
  | _ => Act.fail .einval

/-- The block of the instruction at `a` reaches past the end of the address space, and ends at `a`
or before. -/
def BlockGoesBack (m : Mem) (a : Word) : Prop :=
  ∃ op len b, DwCfa.ofByte (m a) = some op ∧ blockLength m op (a + 1) = (.ok len, b) ∧
    2 ^ 64 ≤ b.toNat + len.toNat ∧ b.toNat + len.toNat ≤ 2 ^ 64 + a.toNat

/-- The address variable does not go back. -/
def CfiNotBack (s t : CfiState) : Prop := NotBefore s.addr t.addr

instance : IsPreorder CfiState CfiNotBack where
  refl _ := refl_of NotBefore _
  trans _ _ _ h h' := trans_of NotBefore h h'

section

variable {m : Mem} {pi : ProcInfo} {dci : CieInfo} {s : CfiState}

/-! ### Commands -/

/-- The commands that need no room behind them: neither a read of fixed width, nor a skip. -/
def Unbounded : {β : Type} → CfiCmd β → Prop
  | _, .u8 => False
  | _, .u16 => False
  | _, .u32 => False
  | _, .pointer => False
  | _, .skip _ => False
  | _, _ => True

theorem onAddr_notBack {α : Type} {x : Reader α} (hx : Onward x s.addr) :
    (Cfi.onAddr x).EndsIn CfiNotBack s := ⟨hx.ends, hx.rel⟩

theorem execCfiCmd_notBack {β : Type} {cmd : CfiCmd β} (hcmd : Unbounded cmd)
    (hleb : Terminated m dci ⟨cmd, s⟩) : (execCfiCmd m pi dci cmd).EndsIn CfiNotBack s := by
  have hstay : ∀ {f : CfiState → CfiState}, (f s).addr = s.addr →
      (Act.modify f : Cfi Unit).EndsIn CfiNotBack s := by
    intro f h
    refine Act.EndsIn.modify ?_
    show s.addr.toNat ≤ (f s).addr.toNat
    rw [h]
  cases cmd with
  | uleb => exact onAddr_notBack (dwarfReadUleb128_onward (hleb trivial))
  | sleb => exact onAddr_notBack (dwarfReadSleb128_onward (hleb trivial))
  | getAddr => exact ⟨nofun, Nat.le_refl _⟩
  | setReg regnum w val =>
    simp only [execCfiCmd]
    split
    · exact hstay rfl
    · exact Act.EndsIn.lift nofun
  | initialReg regnum =>
    show Act.EndsIn CfiNotBack (fun s : CfiState => if h : regnum.toNat < dwarfNumPreservedRegs + 2
      then (.ok (s.sr.rsInitial ⟨_, h⟩), s) else (.undefined, s)) s
    by_cases h : regnum.toNat < dwarfNumPreservedRegs + 2
    · simp only [dif_pos h]
      exact ⟨nofun, Nat.le_refl _⟩
    · simp only [dif_neg h]
      exact ⟨nofun, Nat.le_refl _⟩
  | advance delta => exact hstay rfl
  | setLoc ip => exact hstay rfl
  | argsSize val => exact hstay rfl
  | remember => exact hstay rfl
  | popRow =>
    refine Act.EndsIn.bind ⟨nofun, refl_of CfiNotBack s⟩ fun t u hget => ?_
    cases hget
    cases s.rsStack with
    | nil => exact Act.EndsIn.fail _
    | cons rs rsStack =>
      exact Act.EndsIn.bind (hstay rfl) fun _ t hrow => Act.EndsIn.modify (Nat.le_refl _)
  | fail e => exact Act.EndsIn.fail e
  | _ => exact hcmd.elim

/-- The instructions that have an operand of fixed width. -/
def DwCfa.readsFixed : DwCfa → Bool
  | .advanceLoc1 | .advanceLoc2 | .advanceLoc4 | .setLoc => true
  | _ => false

/-- The instructions that skip a block. -/
def DwCfa.skipsBlock : DwCfa → Bool
  | .defCfaExpression | .expression => true
  | _ => false

/-- All other instructions only read LEB128 operands. -/
theorem cfaProgram_unbounded {op : DwCfa} (hfixed : op.readsFixed = false)
    (hblock : op.skipsBlock = false) : (cfaProgram dci op).Every Unbounded := by
  have hon : ∀ {next : Word → CfiProg Unit}, (∀ regnum, (next regnum).Every Unbounded) →
      (onRegnum next).Every Unbounded :=
    fun hnext => every_onRegnum trivial (fun _ => trivial) fun regnum _ => hnext regnum
  have hrestore : ∀ regnum, (restoreProgram regnum).Every Unbounded :=
    fun _ => every_checkRegnum trivial fun _ => by simp [Unbounded]
  cases op
  case restore reg => exact hrestore _
  case restoreExtended => exact ⟨trivial, hrestore⟩
  case offset reg => exact every_checkRegnum trivial fun _ => by simp [Unbounded]
  all_goals first
    | exact absurd hfixed (by decide)
    | exact absurd hblock (by decide)
    | exact hon fun _ => by simp [Unbounded]
    | simp [cfaProgram, Unbounded]

/-- The others have one operand, right behind the opcode. -/
theorem cfaProgram_fixed_notBack {op : DwCfa} (hop : op.readsFixed = true)
    (hroom : s.addr.toNat + 15 < 2 ^ 64)
    (hleb : (cfaProgram dci op).All (execCfiCmd m pi dci) (Terminated m dci) s) :
    ((cfaProgram dci op).run (execCfiCmd m pi dci)).EndsIn CfiNotBack s := by
  -- what follows the operand leaves the address variable alone
  have hrest : ∀ {cmd : CfiCmd Unit} {t : CfiState}, Unbounded cmd → ¬ReadsLeb dci cmd →
      ((Prog.cmd cmd).run (execCfiCmd m pi dci)).EndsIn CfiNotBack t := by
    intro cmd t hcmd hno
    rw [Prog.run_single]
    exact execCfiCmd_notBack hcmd fun hread => absurd hread hno
  cases op
  case advanceLoc1 =>
    exact (onAddr_notBack (onward_of_load (n := 1) rfl (by omega))).bind fun _ _ _ =>
      hrest trivial nofun
  case advanceLoc2 =>
    exact (onAddr_notBack (onward_of_load (n := 2) rfl (by omega))).bind fun _ _ _ =>
      hrest trivial nofun
  case advanceLoc4 =>
    exact (onAddr_notBack (onward_of_load (n := 4) rfl (by omega))).bind fun _ _ _ =>
      hrest trivial nofun
  case setLoc =>
    have hpointer : Terminated m dci ⟨.pointer, s⟩ := (Prog.all_call.1 hleb).1
    exact (onAddr_notBack (dwarfReadEncodedPointer_onward hroom hpointer)).bind fun _ _ _ =>
      hrest trivial nofun
  all_goals cases hop

/-! ### Blocks -/

/-- A read through the address variable. -/
theorem onAddr_of_read {α : Type} {x : Reader α} {r : Res UnwError α} {b : Word}
    (h : x s.addr = (r, b)) : Cfi.onAddr x s = (r, { s with addr := b }) := by
  show ((x s.addr).1, { s with addr := (x s.addr).2 }) = _
  rw [h]

/-- The address of a block is saved, and its length is read there and added behind it. -/
theorem blockProgram_of_read (regnum : Word) {len b : Word}
    (h : regnum.toNat < dwarfNumPreservedRegs + 2)
    (hread : dwarfReadUleb128 m s.addr = (.ok len, b)) :
    ∃ t, (blockProgram regnum).run (execCfiCmd m pi dci) s = (.ok (), t) ∧ t.addr = b + len ∧
      t.currIp = s.currIp := by
  have hset : execCfiCmd m pi dci (.setReg regnum .expr s.addr) s =
      (.ok (), (Cfi.setReg ⟨_, h⟩ .expr s.addr s).2) := by
    simp only [execCfiCmd, dif_pos h]
    rfl
  have huleb : execCfiCmd m pi dci .uleb (Cfi.setReg ⟨_, h⟩ .expr s.addr s).2 =
      (.ok len, { (Cfi.setReg ⟨_, h⟩ .expr s.addr s).2 with addr := b }) := onAddr_of_read hread
  have haddr : execCfiCmd m pi dci .getAddr s = (.ok s.addr, s) := rfl
  refine ⟨{ (Cfi.setReg ⟨_, h⟩ .expr s.addr s).2 with addr := b + len }, ?_, rfl, rfl⟩
  unfold blockProgram
  simp only [Prog.run_call, Prog.run_single]
  rw [Act.bind_of_ok haddr, Act.bind_of_ok hset, Act.bind_of_ok huleb]
  rfl

/-- The length is the only operand of a block. -/
theorem all_terminated_block {regnum : Word} (h : regnum.toNat < dwarfNumPreservedRegs + 2) :
    (blockProgram regnum).All (execCfiCmd m pi dci) (Terminated m dci) s ↔ LebEnds m s.addr := by
  have hset : execCfiCmd m pi dci (.setReg regnum .expr s.addr) s =
      (.ok (), (Cfi.setReg ⟨_, h⟩ .expr s.addr s).2) := by
    simp only [execCfiCmd, dif_pos h]
    rfl
  have haddr : execCfiCmd m pi dci .getAddr s = (.ok s.addr, s) := rfl
  constructor
  · intro hall
    have hblock := (Prog.all_call.1 ((Prog.all_call.1 hall).2 _ _ haddr)).2 _ _ hset
    exact (Prog.all_call.1 hblock).1 trivial
  · intro hends
    refine Prog.all_call.2 ⟨nofun, fun _ t ht => ?_⟩
    cases haddr.symm.trans ht
    refine Prog.all_call.2 ⟨nofun, fun _ t ht => ?_⟩
    cases hset.symm.trans ht
    exact Prog.all_call.2 ⟨fun _ => hends, fun _ t _ => Prog.all_cmd.2 nofun⟩

/-- Only two instructions have a block. -/
theorem skipsBlock_of_blockLength {op : DwCfa} {a len b : Word}
    (h : blockLength m op a = (.ok len, b)) : op.skipsBlock = true := by
  cases op <;> first | rfl | cases h

/-- **An instruction with a block.** The length stands behind the opcode, and is added there. -/
theorem cfaProgram_block {op : DwCfa} (hop : op.skipsBlock = true)
    (hleb : (cfaProgram dci op).All (execCfiCmd m pi dci) (Terminated m dci) s) :
    ∃ r b t, blockLength m op s.addr = (r, b) ∧ s.addr.toNat < b.toNat ∧
      (cfaProgram dci op).run (execCfiCmd m pi dci) s = (r >>= fun _ => .ok (), t) ∧
      ((∃ len, r = .ok len ∧ t.addr = b + len) ∨ (∃ e, r = .err e ∧ t.addr = b)) := by
  cases op
  case defCfaExpression =>
    obtain ⟨len, b, hread, hlt⟩ :=
      dwarfReadUleb128_of_lebEnds ((all_terminated_block (by decide)).1 hleb)
    obtain ⟨t, hrun, ht, -⟩ := blockProgram_of_read cfaRegIndex (by decide) hread
    exact ⟨.ok len, b, t, hread, hlt, hrun, Or.inl ⟨len, rfl, ht⟩⟩
  case expression =>
    obtain ⟨hfirst, hrest⟩ := Prog.all_call.1 hleb
    obtain ⟨regnum, b, hread, hlt⟩ := dwarfReadUleb128_of_lebEnds (hfirst trivial)
    have huleb : execCfiCmd m pi dci .uleb s = (.ok regnum, { s with addr := b }) :=
      onAddr_of_read hread
    have hnext := hrest _ _ huleb
    have hrun : (cfaProgram dci .expression).run (execCfiCmd m pi dci) s =
        (checkRegnum regnum .ebadreg (blockProgram regnum)).run (execCfiCmd m pi dci)
          { s with addr := b } := by
      show (execCfiCmd m pi dci .uleb >>= fun regnum =>
        (checkRegnum regnum .ebadreg (blockProgram regnum)).run (execCfiCmd m pi dci)) s = _
      rw [Act.bind_of_ok huleb]
    rw [hrun]
    unfold checkRegnum at hnext ⊢
    by_cases hreg : regnum.toNat < dwarfNumPreservedRegs
    · rw [if_pos hreg] at hnext ⊢
      have hcolumn : regnum.toNat < dwarfNumPreservedRegs + 2 := Nat.lt_of_lt_of_le hreg (by decide)
      obtain ⟨len, b', hread', hlt'⟩ :=
        dwarfReadUleb128_of_lebEnds ((all_terminated_block hcolumn).1 hnext)
      obtain ⟨t, hrun', ht, -⟩ := blockProgram_of_read _ (s := { s with addr := b }) hcolumn hread'
      have hok : readRegnum m s.addr = (.ok ⟨_, hreg⟩, b) := by
        unfold readRegnum
        rw [Act.bind_of_ok hread, dif_pos hreg, Act.pure_apply]
      refine ⟨.ok len, b', t, ?_, Nat.lt_trans hlt hlt', hrun', Or.inl ⟨len, rfl, ht⟩⟩
      show (readRegnum m >>= fun _ => dwarfReadUleb128 m) s.addr = _
      rw [Act.bind_of_ok hok]
      exact hread'
    · -- a register number that is refused ends the instruction before the block
      rw [if_neg hreg, Prog.run_single]
      have herr : readRegnum m s.addr = (.err .ebadreg, b) := by
        unfold readRegnum
        rw [Act.bind_of_ok hread, dif_neg hreg, Act.fail_apply]
      refine ⟨.err .ebadreg, b, { s with addr := b }, ?_, hlt, rfl, Or.inr ⟨_, rfl, rfl⟩⟩
      show (readRegnum m >>= fun _ => dwarfReadUleb128 m) s.addr = _
      rw [Act.bind_of_err herr]
  all_goals cases hop

/-! ### Turns -/

/-- **One turn.** Where the operands are terminated, a turn goes on unless a block goes back. -/
theorem cfiTurn_progress {e : Word} (hroom : e.toNat + 16 ≤ 2 ^ 64) (hlt : s.addr.toNat < e.toNat)
    (hleb : ∀ x ∈ cfiCalls m pi dci s, Terminated m dci x) :
    (cfiTurn m pi dci s).1 ≠ .diverge ∧
      (s.addr.toNat < (cfiTurn m pi dci s).2.addr.toNat ↔ ¬BlockGoesBack m s.addr) := by
  have hnext : s.pastOpcode.addr.toNat = s.addr.toNat + 1 := toNat_past (n := 1) (by omega)
  rw [cfiTurn_eq]
  unfold cfiCalls at hleb
  cases hop : DwCfa.ofByte (m s.addr) with
  | none =>
    -- not an instruction, and the turn ends with an error behind the opcode
    refine ⟨nofun, iff_of_true (by rw [hnext]; exact Nat.lt_succ_self _) ?_⟩
    rintro ⟨op, len, b, hop', -⟩
    rw [hop] at hop'
    cases hop'
  | some op =>
    rw [hop] at hleb
    have hall : (cfaProgram dci op).All (execCfiCmd m pi dci) (Terminated m dci) s.pastOpcode := hleb
    cases hblock : op.skipsBlock with
    | false =>
      -- every command of the instruction goes on or stays
      have hends : ((cfaProgram dci op).run (execCfiCmd m pi dci)).EndsIn CfiNotBack
          s.pastOpcode := by
        cases hfixed : op.readsFixed with
        | true => exact cfaProgram_fixed_notBack hfixed (by omega) hall
        | false =>
          refine Prog.run_endsIn fun x hx => execCfiCmd_notBack ?_ (hall x hx)
          have hall : (cfaProgram dci op).All (execCfiCmd m pi dci) (fun x => Unbounded x.cmd)
              s.pastOpcode := (cfaProgram_unbounded hfixed hblock).all fun _ _ h => h
          exact hall x hx
      have hle : s.pastOpcode.addr.toNat ≤ _ := hends.rel
      refine ⟨hends.ends, iff_of_true (Nat.lt_of_lt_of_le (by omega) hle) ?_⟩
      rintro ⟨op', len, b, hop', hlen, -⟩
      cases hop.symm.trans hop'
      rw [skipsBlock_of_blockLength hlen] at hblock
      cases hblock
    | true =>
      -- the length of the block is added to the address in 64 bits
      obtain ⟨r, b, t, hlen, hb, hrun, hcase⟩ := cfaProgram_block hblock hall
      simp only [hrun]
      obtain ⟨len, rfl, ht⟩ | ⟨err, rfl, ht⟩ := hcase
      · refine ⟨nofun, ?_⟩
        have hsum : (b + len).toNat = (b.toNat + len.toNat) % 2 ^ 64 := BitVec.toNat_add _ _
        have hb64 := b.isLt
        have hlen64 := len.isLt
        rw [ht, hsum]
        constructor
        · rintro hgo ⟨op', len', b', hop', hlen', hover, hback⟩
          cases hop.symm.trans hop'
          obtain ⟨hl, rfl⟩ := Prod.mk.inj (hlen.symm.trans hlen')
          cases hl
          omega
        · intro hback
          by_contra hgo
          exact hback ⟨op, len, b, hop, hlen, by omega, by omega⟩
      · refine ⟨nofun, iff_of_true (by rw [ht]; omega) ?_⟩
        rintro ⟨op', len', b', hop', hlen', -⟩
        cases hop.symm.trans hop'
        have hno := (Prod.mk.inj (hlen.symm.trans hlen')).1
        cases hno

end

/-! ### Runs -/

section Run

variable (m : Mem) (pi : ProcInfo) (dci : CieInfo) (ip addr e : Word) (r : RowState)

/-- A state in which a run is about to execute an instruction. -/
def Reaches (l : List CfiState) (t : CfiState) : Prop :=
  Act.Turns (cfiGoesOn ip e) (cfiTurn m pi dci) (CfiState.init pi addr r) l t ∧
    cfiGoesOn ip e t = true

/-- Every turn increases the address variable, so there are no more turns than bytes, and the run
ends. -/
structure Advances : Prop where
  increases : ∀ l t, Reaches m pi dci ip addr e r l t →
    t.addr.toNat < (cfiTurn m pi dci t).2.addr.toNat
  count : ∀ l t, Act.Turns (cfiGoesOn ip e) (cfiTurn m pi dci) (CfiState.init pi addr r) l t →
    l.length ≤ e.toNat - addr.toNat
  ends : ∀ fuel, e.toNat - addr.toNat < fuel →
    (runCfiProgram m pi dci fuel ip addr e r).1 ≠ .diverge

variable {m pi dci ip addr e r}

theorem addr_lt_of_goesOn {t : CfiState} (h : cfiGoesOn ip e t = true) :
    t.addr.toNat < e.toNat := by
  unfold cfiGoesOn at h
  rw [Bool.and_eq_true, decide_eq_true_eq, decide_eq_true_eq] at h
  exact h.2

/-- **The run**, from what each turn of it does. The measure is the number of bytes that are left. -/
theorem advances_of_turns
    (hends : ∀ l t, Reaches m pi dci ip addr e r l t → (cfiTurn m pi dci t).1 ≠ .diverge)
    (hinc : ∀ l t, Reaches m pi dci ip addr e r l t →
      t.addr.toNat < (cfiTurn m pi dci t).2.addr.toNat) : Advances m pi dci ip addr e r := by
  have hdec : ∀ l t v, Act.Turns (cfiGoesOn ip e) (cfiTurn m pi dci) (CfiState.init pi addr r) l t →
      cfiGoesOn ip e t = true → cfiTurn m pi dci t = (.ok (), v) →
      e.toNat - v.addr.toNat < e.toNat - t.addr.toNat := by
    intro l t v hturns hgo hrun
    have hnext := hinc l t ⟨hturns, hgo⟩
    rw [hrun] at hnext
    have hbelow := addr_lt_of_goesOn hgo
    have hlarger : t.addr.toNat < v.addr.toNat := hnext
    omega
  refine ⟨hinc, fun l t hturns => ?_, fun fuel hfuel => ?_⟩
  · exact hturns.length_le (fun s => e.toNat - s.addr.toNat) hdec
  · unfold runCfiProgram
    rw [Act.zoom_apply]
    exact Act.loop_ends_of_measure (fun s => e.toNat - s.addr.toNat)
      (fun l t hturns hgo => hends l t ⟨hturns, hgo⟩) hdec hfuel

end Run

/-- **Termination.** With room behind the program, and every LEB128 operand terminated that is read:
each turn increases the address variable, and the run ends after at most as many turns as there are
bytes, if and only if no instruction that is reached has a block that goes back. -/
theorem cfi_terminates_iff (m : Mem) (pi : ProcInfo) (dci : CieInfo) (ip addr e : Word)
    (r : RowState) (hroom : e.toNat + 16 ≤ 2 ^ 64)
    (hleb : ∀ l t, Reaches m pi dci ip addr e r l t →
      ∀ x ∈ cfiCalls m pi dci t, Terminated m dci x) :
    Advances m pi dci ip addr e r ↔
      ∀ l t, Reaches m pi dci ip addr e r l t → ¬BlockGoesBack m t.addr := by
  have hturn : ∀ l t, Reaches m pi dci ip addr e r l t →
      (cfiTurn m pi dci t).1 ≠ .diverge ∧
        (t.addr.toNat < (cfiTurn m pi dci t).2.addr.toNat ↔ ¬BlockGoesBack m t.addr) :=
    fun l t h => cfiTurn_progress hroom (addr_lt_of_goesOn h.2) (hleb l t h)
  constructor
  · intro hadv l t h
    exact (hturn l t h).2.1 (hadv.increases l t h)
  · intro hno
    exact advances_of_turns (fun l t h => (hturn l t h).1) fun l t h => (hturn l t h).2.2 (hno l t h)

/-- An empty row. -/
def emptyRows : RowState := ⟨⟨0, fun _ => ⟨.undefined, 0⟩, fun _ => ⟨.undefined, 0⟩⟩, ⟨0, 0⟩, []⟩

/-- `DW_CFA_def_cfa_expression` with a block of one byte. -/
def blockMem : Mem := fun a => ([0x0f, 0x01, 0x30] : List Byte).getD (a - 0x9000).toNat 0

theorem blockMem_read : dwarfReadUleb128 blockMem 0x9001 = (.ok 1, 0x9002) := by decide +kernel

/-- The block ends at the end of the program, so there is one turn. -/
theorem reaches_blockMem {l : List CfiState} {t : CfiState}
    (h : Reaches blockMem ProcInfo.zero CieInfo.zero 0 0x9000 0x9003 emptyRows l t) :
    t.addr = 0x9000 := by
  obtain ⟨hturns, hgo⟩ := h
  cases hturns with
  | nil => rfl
  | @cons _ v _ _ _ hbody hrest =>
    obtain ⟨u, hturn, hu⟩ : ∃ u, cfiTurn blockMem ProcInfo.zero CieInfo.zero
        (CfiState.init ProcInfo.zero 0x9000 emptyRows) = (.ok (), u) ∧ u.addr = 0x9002 + 1 := by
      obtain ⟨u, hrun, hu, -⟩ := blockProgram_of_read
        (s := (CfiState.init ProcInfo.zero 0x9000 emptyRows).pastOpcode)
        cfaRegIndex (by decide) blockMem_read
      refine ⟨u, ?_, hu⟩
      rw [cfiTurn_eq]
      exact hrun
    obtain ⟨-, hvu⟩ := Prod.mk.inj (hbody.symm.trans hturn)
    have hstop : cfiGoesOn 0 0x9003 v ≠ true := by
      unfold cfiGoesOn
      rw [hvu, hu]
      simp
    cases hrest with
    | nil => exact absurd hgo hstop
    | cons hcond _ _ => exact absurd hcond hstop

/-- A program with a block, which ends. -/
theorem cfi_terminates_behind_block :
    Advances blockMem ProcInfo.zero CieInfo.zero 0 0x9000 0x9003 emptyRows := by
  have hop : DwCfa.ofByte (blockMem 0x9000) = some .defCfaExpression := by decide
  refine (cfi_terminates_iff _ _ _ _ _ _ _ (by decide) fun l t h => ?_).2 fun l t h => ?_
  · unfold cfiCalls
    rw [reaches_blockMem h, hop]
    refine (all_terminated_block (by decide)).2 ⟨0, ?_, ?_⟩
    · show (t.addr + 1).toNat + 0 + 1 < 2 ^ 64
      rw [reaches_blockMem h]
      decide
    · show (blockMem (past (t.addr + 1) 0)).toNat < 128
      rw [reaches_blockMem h]
      decide
  · rw [reaches_blockMem h]
    rintro ⟨op, len, b, hop', hlen, hover, -⟩
    cases hop.symm.trans hop'
    obtain ⟨hl, rfl⟩ := Prod.mk.inj (blockMem_read.symm.trans hlen)
    cases hl
    exact absurd hover (by decide)

/-! ### A block that goes back to its instruction -/

/-- `DW_CFA_def_cfa_expression` with a length of `2 ^ 64 - 11`, which is 11 bytes back from behind the
length. -/
def loopMem : Mem := fun a =>
  ([0x0f, 0xf5, 0xff, 0xff, 0xff, 0xff, 0xff, 0xff, 0xff, 0xff, 0x01] : List Byte).getD
    (a - 0x9000).toNat 0

theorem loopMem_read : dwarfReadUleb128 loopMem 0x9001 = (.ok (-11), 0x900b) := by decide +kernel

/-- The instruction comes back to where it stands. -/
theorem cfiTurn_loopMem {s : CfiState} (h : s.addr = 0x9000) :
    ∃ t, cfiTurn loopMem ProcInfo.zero CieInfo.zero s = (.ok (), t) ∧ t.addr = 0x9000 ∧
      t.currIp = s.currIp := by
  have hop : DwCfa.ofByte (loopMem s.addr) = some .defCfaExpression := by
    rw [h]
    decide
  have hread : dwarfReadUleb128 loopMem s.pastOpcode.addr = (.ok (-11), 0x900b) := by
    show dwarfReadUleb128 loopMem (s.addr + 1) = _
    rw [h]
    exact loopMem_read
  obtain ⟨t, hrun, ht, hip⟩ := blockProgram_of_read cfaRegIndex (by decide) hread
  refine ⟨t, ?_, ?_, hip⟩
  · rw [cfiTurn_eq, hop]
    exact hrun
  · rw [ht]
    decide

/-- All turns start at the same instruction. -/
theorem turns_loopMem {s t : CfiState} {l : List CfiState}
    (h : Act.Turns (cfiGoesOn 0 0x900b) (cfiTurn loopMem ProcInfo.zero CieInfo.zero) s l t)
    (hs : s.addr = 0x9000) : t.addr = 0x9000 := by
  induction h with
  | nil => exact hs
  | cons _ hbody _ ih =>
    obtain ⟨u, hu, haddr, -⟩ := cfiTurn_loopMem hs
    cases hu.symm.trans hbody
    exact ih haddr

theorem loop_loopMem (fuel : ℕ) {s : CfiState} (hs : s.addr = 0x9000) (hip : s.currIp = 0) :
    (cfiLoop loopMem ProcInfo.zero CieInfo.zero fuel 0 0x900b s).1 = .diverge := by
  induction fuel generalizing s with
  | zero => rfl
  | succ fuel ih =>
    have hgo : cfiGoesOn 0 0x900b s = true := by
      unfold cfiGoesOn
      rw [hs, hip]
      decide
    obtain ⟨t, hrun, ht, htip⟩ := cfiTurn_loopMem hs
    unfold cfiLoop at ih ⊢
    rw [Act.loop_succ_of fuel hgo, Act.bind_of_ok hrun]
    exact ih ht (htip.trans hip)

/-- The run is inside of its bytes and every operand is terminated, but the run does not end. -/
theorem cfi_block_loops :
    (0x900b : Word).toNat + 16 ≤ 2 ^ 64 ∧
      (∀ l t, Reaches loopMem ProcInfo.zero CieInfo.zero 0 0x9000 0x900b emptyRows l t →
        ∀ x ∈ cfiCalls loopMem ProcInfo.zero CieInfo.zero t, Terminated loopMem CieInfo.zero x) ∧
      (∀ fuel, (runCfiProgram loopMem ProcInfo.zero CieInfo.zero fuel 0 0x9000 0x900b emptyRows).1 =
        .diverge) ∧
      ¬Advances loopMem ProcInfo.zero CieInfo.zero 0 0x9000 0x900b emptyRows := by
  have hloops : ∀ fuel, (runCfiProgram loopMem ProcInfo.zero CieInfo.zero fuel 0 0x9000 0x900b
      emptyRows).1 = .diverge := fun fuel => loop_loopMem fuel rfl rfl
  refine ⟨by decide, fun l t ⟨hturns, _⟩ => ?_, hloops, fun hadv => ?_⟩
  · have haddr : t.addr = 0x9000 := turns_loopMem hturns rfl
    have hop : DwCfa.ofByte (loopMem t.addr) = some .defCfaExpression := by
      rw [haddr]
      decide
    unfold cfiCalls
    rw [hop]
    refine (all_terminated_block (by decide)).2 ⟨9, ?_, ?_⟩
    · show (t.addr + 1).toNat + 9 + 1 < 2 ^ 64
      rw [haddr]
      decide
    · show (loopMem (past (t.addr + 1) 9)).toNat < 128
      rw [haddr]
      decide
  · exact hadv.ends 12 (by decide) (hloops 12)

end LibunwindKern
