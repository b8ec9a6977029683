import LibunwindKern.Dwarf.CallSite
import LibunwindKern.Dwarf.RegRules
import LibunwindKern.Dwarf.RowLookup
import LibunwindKern.X86.Landing
import LibunwindKern.X86.StepRun

/-!
# Frames with unwind info

What unwinding is for, on register files. `Calls` says of a row that it describes the call between
two of them: the CFA is the stack pointer of the caller, every other register of the caller is in
the callee's register of the same name or at its offset from the CFA. `HasRow` says that the row is
the one that the unwind info has for the instruction pointer of a frame.

`CursorAt` ties a cursor to a register file. `unwStep_calls` is one step: from a cursor at the callee
to a cursor at the caller.
-/

namespace LibunwindKern

open CProg ByteMem StraightLine Unw

/-- The registers of a frame. -/
abbrev RegFile := Fin dwarfNumPreservedRegs → Word

/-- What a rule says of a register of the caller. A register that was stored is off the saved
context, and not in the first page. -/
def RuleHolds (m : Mem) (uc cfa : Word) (rule : SaveLoc) (i : Fin dwarfNumPreservedRegs)
    (callee caller : RegFile) : Prop :=
  match rule.whereSaved with
  | .same => Saved i → caller i = callee i
  | .cfarel =>
    OffContext uc (cfa + rule.val) ∧ pageStart (cfa + rule.val) ≠ 0 ∧
      (Saved i → load64 m (cfa + rule.val) = caller i)
  | _ => False

theorem ruleHolds_iff {m : Mem} {uc cfa : Word} {rule : SaveLoc} {i : Fin dwarfNumPreservedRegs}
    {callee caller : RegFile} :
    RuleHolds m uc cfa rule i callee caller ↔
      rule.whereSaved = .same ∧ (Saved i → caller i = callee i) ∨
        rule.whereSaved = .cfarel ∧ OffContext uc (cfa + rule.val) ∧
          pageStart (cfa + rule.val) ≠ 0 ∧ (Saved i → load64 m (cfa + rule.val) = caller i) := by
  unfold RuleHolds
  cases rule.whereSaved with
  | same => simp only [true_and, reduceCtorEq, false_and, or_false]
  | cfarel => simp only [true_and, reduceCtorEq, false_and, false_or]
  | _ => simp only [reduceCtorEq, false_and, or_false]

instance (m : Mem) (uc cfa : Word) (rule : SaveLoc) (i : Fin dwarfNumPreservedRegs)
    (callee caller : RegFile) : Decidable (RuleHolds m uc cfa rule i callee caller) :=
  decidable_of_iff' _ ruleHolds_iff

/-- The row describes a call: what the registers of the caller are, when the call is left from the
frame of the callee. -/
structure Calls (m : Mem) (uc : Word) (rs : RegState) (callee caller : RegFile) : Prop where
  base : ∃ base : Fin dwarfNumPreservedRegs, (rs cfaRegColumn).whereSaved = .reg ∧
    (rs cfaRegColumn).val = BitVec.ofNat 64 base ∧ Saved base ∧
    caller RSP = callee base + (rs cfaOffColumn).val
  stack : (rs (column RSP)).whereSaved = .same ∨ (rs (column RSP)).whereSaved = .cfarel
  rules : ∀ i, i ≠ RSP → RuleHolds m uc (caller RSP) (rs (column i)) i callee caller
  moves : ¬(caller RIP = callee RIP ∧ caller RSP = callee RSP)

/-- The row of the unwind info for a frame at `ip`, and whether it is the row of a signal frame. -/
def HasRow (k : Kernel) (m : Mem) (fuel : ℕ) (prev : Bool) (ip : Word) (rs : RegState)
    (signal : Bool) : Prop :=
  ∃ pi dci, unwindInfoAt k m (if prev then ip - 1 else ip) = .ok pi ∧
    rowOfInfo m fuel pi ip = .ok rs ∧ pi.unwindInfo = .cie dci ∧ dci.retAddrColumn = 16 ∧
    dci.signalFrame = signal

/-- The cursor is at the frame with these registers. -/
structure CursorAt (m : Mem) (uc : Word) (regs : RegFile) (c : Cursor) : Prop where
  context : c.uc = uc
  cfa : c.cfa = regs RSP
  ip : c.ip = regs RIP
  holds : ∀ i, i ≠ RSP → Saved i → load64 m (c.loc i) = regs i
  paged : ∀ i, i ≠ RSP → pageStart (c.loc i) ≠ 0
  place : ∀ i, i ≠ RSP → c.loc i = uc + ucOffset i ∨ OffContext uc (c.loc i)
  args : ∀ i : Fin 2, c.ehValidMask.getLsbD i = false
  stash : c.stashFrames = false

theorem ne_zero_of_paged {a : Word} (h : pageStart a ≠ 0) : a ≠ 0 := by
  rintro rfl
  exact h rfl

section Frame

variable {m : Mem} {uc : Word} {regs : RegFile} {c : Cursor}

theorem CursorAt.readable (h : CursorAt m uc regs c) : ∀ i, i ≠ RSP → CanGet c (c.loc i) :=
  fun i hi => ⟨ne_zero_of_paged (h.paged i hi), fun _ => h.paged i hi⟩

theorem CursorAt.anchored (h : CursorAt m uc regs c) : Anchored c := by
  refine ⟨h.readable, fun i hi => ?_⟩
  unfold slot
  rw [h.context]
  exact h.place i hi

/-- What the cursor reads for a register. -/
theorem CursorAt.frameReg_eq (h : CursorAt m uc regs c) {i : Fin dwarfNumPreservedRegs}
    (hsave : Saved i) : frameReg m c i = regs i := by
  have harg : ¬IsArg c i := fun ⟨hlow, hbit⟩ =>
    Bool.false_ne_true ((h.args ⟨i, hlow⟩).symm.trans hbit)
  unfold frameReg
  by_cases hsp : i = RSP
  · rw [if_pos hsp, hsp]
    exact h.cfa
  · rw [if_neg hsp, dif_neg harg]
    exact h.holds i hsp hsave

theorem CursorAt.unwGetReg_eq (h : CursorAt m uc regs c) {i : Fin dwarfNumPreservedRegs}
    (hsave : Saved i) (g : Lga) : (unwGetReg msyncValidate m c i g).1 = .ok (regs i) := by
  unfold unwGetReg
  by_cases hip : i = RIP
  · subst hip
    exact congrArg Res.ok h.ip
  · rw [if_neg (show ¬i.val = 16 from fun heq => hip (Fin.ext heq)),
      tdepAccessReg_frameReg h.readable, h.frameReg_eq hsave]

/-- **Resuming the frame.** The registers `ws` are set first, and `unw_resume` goes on with the rest
of the registers of the frame. -/
theorem CursorAt.resumes {s : St} (h : CursorAt m uc regs s.c)
    (ws : List (Fin dwarfNumPreservedRegs × Word)) (hws : ∀ x ∈ ws, x.1 ≠ RSP ∧ LocApart s.c x.1)
    (hclear : ∀ reg ∈ [RCX, RDI], Disjoint64 (regs RSP - 8) (uc + ucOffset reg)) :
    ∃ w, setRegs ws ⟨s, m⟩ = (.ok (), w) ∧
      ∀ k val junk u, resumeMachine k msyncValidate val junk w = .ok u →
        u.reg = fun reg => if Saved reg then overwrite ws regs reg else junk reg := by
  obtain ⟨w, hset, hsame, hregs⟩ := setRegs_frameReg ws ⟨s, m⟩ hws fun reg hsp =>
    ne_zero_of_paged (h.paged reg hsp)
  refine ⟨w, hset, fun k val junk u hrun => ?_⟩
  have hpush : StackClear w.st.c := by
    intro reg hreg
    unfold slot
    rw [hsame.cfa, hsame.uc, h.cfa, h.context]
    exact hclear reg hreg
  obtain ⟨hlands, -⟩ := resume_lands (hsame.anchored h.anchored) hpush hrun
  funext reg
  rw [hlands, hregs]
  by_cases hsave : Saved reg
  · rw [if_pos hsave, if_pos hsave]
    exact overwrite_congr (h.frameReg_eq hsave) _
  · rw [if_neg hsave, if_neg hsave]

end Frame

/-! ### One step -/

section Step

variable {k : Kernel} {m : Mem} {fuel : ℕ} {uc : Word} {prev signal : Bool} {rs : RegState}
  {callee caller : RegFile} {s t : St}

/-- The locations of the caller's registers. -/
def callerLoc (rs : RegState) (cfa : Word) (loc : Fin dwarfNumPreservedRegs → Word) :
    Fin dwarfNumPreservedRegs → Word :=
  fun i => if (rs (column i)).whereSaved = .cfarel then cfa + (rs (column i)).val else loc i

theorem callerLoc_congr {cfa : Word} {loc loc' : Fin dwarfNumPreservedRegs → Word}
    {i : Fin dwarfNumPreservedRegs} (h : loc i = loc' i) :
    callerLoc rs cfa loc i = callerLoc rs cfa loc' i := by
  unfold callerLoc
  rw [h]

theorem callerLoc_update (cfa : Word) (loc : Fin dwarfNumPreservedRegs → Word)
    (i : Fin dwarfNumPreservedRegs) :
    callerLoc rs cfa (Function.update loc i (callerLoc rs cfa loc i)) i =
      callerLoc rs cfa loc i := by
  unfold callerLoc
  split_ifs
  · rfl
  · exact Function.update_self _ _ _

/-- A row whose rules are all plain sets the locations it says. -/
theorem applyRules_callerLoc (v : Validator) (m : Mem) (fuel : ℕ) (cfa : Word)
    (hplain : ∀ i, (rs (column i)).whereSaved = .same ∨ (rs (column i)).whereSaved = .cfarel) :
    ∀ (is : List (Fin dwarfNumPreservedRegs)) (s : St),
      applyRules v m fuel rs cfa is s =
        (.ok (), { s with c := { s.c with
          loc := fun i => if i ∈ is then callerLoc rs cfa s.c.loc i else s.c.loc i } })
  | [], s => by
    simp only [List.not_mem_nil, if_false]
    rfl
  | j :: is, s => by
    have hone : applyRule v m fuel rs cfa j s =
        (.ok (), { s with c := { s.c with
          loc := Function.update s.c.loc j (callerLoc rs cfa s.c.loc j) } }) := by
      unfold applyRule callerLoc
      rw [Act.get_bind]
      obtain hsame | hrel := hplain j
      · rw [hsame, if_neg (by decide), Function.update_eq_self]
        rfl
      · rw [hrel, if_pos rfl]
        rfl
    unfold applyRules
    rw [Act.bind_of_ok hone, applyRules_callerLoc v m fuel cfa hplain is]
    refine congrArg (fun loc => ((Res.ok (), { s with c := { s.c with loc := loc } }) :
      Res UnwError Unit × St)) (funext fun i => ?_)
    by_cases heq : i = j
    · subst heq
      rw [if_pos List.mem_cons_self]
      by_cases hmem : i ∈ is
      · rw [if_pos hmem, callerLoc_update]
      · rw [if_neg hmem]
        exact Function.update_self _ _ _
    · have hkeep : Function.update s.c.loc j (callerLoc rs cfa s.c.loc j) i = s.c.loc i :=
        Function.update_of_ne heq _ _
      have hiff : i ∈ j :: is ↔ i ∈ is :=
        ⟨fun h => (List.mem_cons.mp h).resolve_left heq, List.mem_cons_of_mem _⟩
      by_cases hmem : i ∈ is
      · rw [if_pos hmem, if_pos (hiff.mpr hmem)]
        exact callerLoc_congr hkeep
      · rw [if_neg hmem, if_neg fun h => hmem (hiff.mp h)]
        exact hkeep

theorem Calls.plain (h : Calls m uc rs callee caller) (i : Fin dwarfNumPreservedRegs) :
    (rs (column i)).whereSaved = .same ∨ (rs (column i)).whereSaved = .cfarel := by
  by_cases hsp : i = RSP
  · subst hsp
    exact h.stack
  · exact (ruleHolds_iff.mp (h.rules i hsp)).imp And.left And.left

/-- The CFA is the stack pointer of the caller. -/
theorem evalCfa_calls (fuel : ℕ) (h : CursorAt m uc callee s.c) (hcalls : Calls m uc rs callee caller) :
    ∃ g, evalCfa msyncValidate m fuel rs s = (.ok (caller RSP), { s with lga := g }) := by
  obtain ⟨base, hw, hval, hsave, hcfa⟩ := hcalls.base
  unfold evalCfa
  rw [Act.get_bind, hw]
  by_cases hpop : (rs cfaRegColumn).val = 7 ∧ (rs (column RSP)).whereSaved = .same
  · -- the base register is the stack pointer, which is the CFA of the callee
    have hseven : ∀ base : Fin dwarfNumPreservedRegs, BitVec.ofNat 64 base = 7 → base = RSP := by
      decide
    have hsp := hseven base (hval.symm.trans hpop.1)
    refine ⟨s.lga, ?_⟩
    show (if _ then _ else _ : Unw Word) s = _
    rw [if_pos hpop, hcfa, hsp, h.cfa]
    rfl
  · have hnum : dwarfToUnwRegnum (rs cfaRegColumn).val = .ok base.val := by
      have hmap : ∀ base : Fin dwarfNumPreservedRegs,
          dwarfToUnwRegnum (BitVec.ofNat 64 base) = .ok base.val := by decide
      rw [hval, hmap]
    have hget : ((read fun c => unwGetReg msyncValidate m c base) : Unw Word) s =
        (.ok (callee base), { s with lga := (unwGetReg msyncValidate m s.c base s.lga).2 }) := by
      rw [read_eq, h.unwGetReg_eq hsave]
    refine ⟨(unwGetReg msyncValidate m s.c base s.lga).2, ?_⟩
    show (if _ then _ else _ : Unw Word) s = _
    rw [if_neg hpop, hnum]
    show (read (fun c => unwGetReg msyncValidate m c base) >>= _) s = _
    rw [Act.bind_of_ok hget, hcfa]
    rfl

/-- The cursor of the caller. -/
def callerCursor (rs : RegState) (caller : RegFile) (c : Cursor) : Cursor :=
  { c with cfa := caller RSP, ip := caller RIP, loc := callerLoc rs (caller RSP) c.loc }

/-- The frame of the caller, in the cursor. -/
theorem callerFrame (h : CursorAt m uc callee s.c) (hcalls : Calls m uc rs callee caller) :
    CursorAt m uc caller (callerCursor rs caller s.c) := by
  -- the location of a register, by its rule
  have hcase : ∀ i, i ≠ RSP →
      callerLoc rs (caller RSP) s.c.loc i = s.c.loc i ∧ (Saved i → caller i = callee i) ∨
        ∃ a, callerLoc rs (caller RSP) s.c.loc i = a ∧ OffContext uc a ∧ pageStart a ≠ 0 ∧
          (Saved i → load64 m a = caller i) := by
    intro i hi
    unfold callerLoc
    obtain ⟨hsame, hreg⟩ | ⟨hrel, hstored⟩ := ruleHolds_iff.mp (hcalls.rules i hi)
    · exact Or.inl ⟨if_neg (by rw [hsame]; decide), hreg⟩
    · exact Or.inr ⟨_, if_pos hrel, hstored⟩
  refine ⟨h.context, rfl, rfl, fun i hi hsave => ?_, fun i hi => ?_, fun i hi => ?_, h.args, h.stash⟩
  · show load64 m (callerLoc rs (caller RSP) s.c.loc i) = caller i
    obtain ⟨hloc, hreg⟩ | ⟨a, hloc, -, -, hreg⟩ := hcase i hi
    · rw [hloc, hreg hsave, h.holds i hi hsave]
    · rw [hloc, hreg hsave]
  · show pageStart (callerLoc rs (caller RSP) s.c.loc i) ≠ 0
    obtain ⟨hloc, -⟩ | ⟨a, hloc, -, hpage, -⟩ := hcase i hi
    · rw [hloc]
      exact h.paged i hi
    · rw [hloc]
      exact hpage
  · show callerLoc rs (caller RSP) s.c.loc i = _ ∨ OffContext uc (callerLoc rs (caller RSP) s.c.loc i)
    obtain ⟨hloc, -⟩ | ⟨a, hloc, hoff, -, -⟩ := hcase i hi
    · rw [hloc]
      exact h.place i hi
    · rw [hloc]
      exact Or.inr hoff

/-- The return address is read through the location of `RIP`. -/
theorem readReturnAddress_paged (ip : Word) (hcolumn : s.c.retAddrColumn = 16)
    (hpage : pageStart (s.c.loc RIP) ≠ 0) (hload : load64 m (s.c.loc RIP) = ip) :
    ∃ g, readReturnAddress msyncValidate m s = (.ok ip, { s with lga := g }) := by
  have hlt : s.c.retAddrColumn.toNat < dwarfNumPreservedRegs := by
    rw [hcolumn]
    decide
  have hrip : (⟨s.c.retAddrColumn.toNat, hlt⟩ : Fin dwarfNumPreservedRegs) = RIP := by
    apply Fin.ext
    show s.c.retAddrColumn.toNat = 16
    rw [hcolumn]
    rfl
  have hcan : CanGet s.c (s.c.loc RIP) := ⟨ne_zero_of_paged hpage, fun _ => hpage⟩
  have hget : ((read fun c => dwarfGet msyncValidate m c (s.c.loc RIP)) : Unw Word) s =
      (.ok ip, { s with lga := (dwarfGet msyncValidate m s.c (s.c.loc RIP) s.lga).2 }) := by
    rw [read_eq, (dwarfGet_msync _ _ _).mpr ⟨hcan, hload⟩]
  refine ⟨(dwarfGet msyncValidate m s.c (s.c.loc RIP) s.lga).2, ?_⟩
  unfold readReturnAddress
  rw [Act.get_bind, dif_pos hlt, hrip, if_neg hcan.1]
  exact hget

/-- **Applying the row of a call** takes the cursor to the caller. -/
theorem applyRegState_calls (fuel : ℕ) (h : CursorAt m uc callee s.c) (hcolumn : s.c.retAddrColumn = 16)
    (hcalls : Calls m uc rs callee caller) :
    ∃ g, applyRegState msyncValidate m fuel rs s =
      (.ok (), { s with c := callerCursor rs caller s.c, lga := g }) := by
  obtain ⟨g, hcfa⟩ := evalCfa_calls fuel h hcalls
  have hframe := callerFrame h hcalls
  have hrules := applyRules_callerLoc msyncValidate m fuel (caller RSP) hcalls.plain
    (List.finRange dwarfNumPreservedRegs) { s with lga := g }
  have hall : (fun i => if i ∈ List.finRange dwarfNumPreservedRegs
      then callerLoc rs (caller RSP) s.c.loc i else s.c.loc i) =
        callerLoc rs (caller RSP) s.c.loc :=
    funext fun i => if_pos (List.mem_finRange i)
  rw [show ({ s with lga := g } : St).c = s.c from rfl, hall] at hrules
  -- the state in which the return address is read
  obtain ⟨g', hret⟩ := readReturnAddress_paged (m := m) (caller RIP)
    (s := { s with
      c := { s.c with cfa := caller RSP, loc := callerLoc rs (caller RSP) s.c.loc }, lga := g })
    hcolumn (hframe.paged RIP (by decide)) (hframe.holds RIP (by decide) (by decide))
  refine ⟨g', ?_⟩
  unfold applyRegState
  rw [Act.get_bind, Act.bind_of_ok hcfa, Act.bind_of_ok hrules, setCursor_bind]
  refine (Act.bind_of_ok hret).trans ?_
  rw [setCursor_bind]
  unfold finishFrame
  rw [Act.get_bind]
  have hmoves : ¬(caller RIP = s.c.ip ∧ caller RSP = s.c.cfa) := by
    rw [h.ip, h.cfa]
    exact hcalls.moves
  refine (congrFun (if_neg hmoves) _).trans ?_
  refine (congrFun (if_neg ?_) _).trans rfl
  rw [h.stash]
  exact Bool.false_ne_true

/-- **`dwarf_step` on a call** takes the cursor from the callee to the caller. -/
theorem dwarfStep_calls (h : CursorAt m uc callee s.c)
    (hrow : HasRow k m fuel s.c.usePrevInstr (callee RIP) rs signal)
    (hcalls : Calls m uc rs callee caller) :
    ∃ t, dwarfStep k msyncValidate m fuel s = (.ok 1, t) ∧ CursorAt m uc caller t.c ∧
      t.c.usePrevInstr = (!signal) ∧ t.c.piValid = false := by
  obtain ⟨pi, dci, hinfo, hof, hcie, hcolumn, hsignal⟩ := hrow
  rw [← h.ip] at hinfo hof
  obtain ⟨sr, u, hfind, rfl⟩ := findRow_of_row (s := s) hinfo hof
  -- the row that was found is the one of this CIE
  obtain ⟨pi', dci', g, hinfo', -, hcie', hu⟩ := findRow_ok hfind
  obtain rfl : pi' = pi := Res.ok.inj (hinfo'.symm.trans hinfo)
  obtain rfl : dci' = dci := UnwindInfo.cie.inj (hcie'.symm.trans hcie)
  have hframe : CursorAt m uc callee u.c := by
    rw [hu]
    exact ⟨h.context, h.cfa, h.ip, h.holds, h.paged, h.place, h.args, h.stash⟩
  obtain ⟨lga, happly⟩ := applyRegState_calls fuel hframe (by rw [hu]; exact hcolumn)
    hcalls
  obtain ⟨w, hput⟩ := putUnwindInfo_ok { u with c := callerCursor sr.rsCurrent caller u.c, lga := lga }
  refine ⟨{ w with c := { w.c with piValid := false } }, ?_, ?_⟩
  · rw [dwarfStep_eq, Act.bind_of_ok hfind, Act.bind_of_ok happly, Act.bind_of_ok hput]
    rfl
  · -- giving the unwind info back leaves the frame alone
    have hkeep := (putUnwindInfo_keeps fun _ => rfl :
      Act.Keeps (fun s : St => { s.c with pi := ProcInfo.zero }) putUnwindInfo).run hput
    have hw : w.c = { callerCursor sr.rsCurrent caller u.c with pi := w.c.pi } :=
      congrArg (fun c : Cursor => { c with pi := w.c.pi }) hkeep
    have hcaller := callerFrame hframe hcalls
    rw [hw]
    refine ⟨⟨hcaller.context, hcaller.cfa, hcaller.ip, hcaller.holds, hcaller.paged, hcaller.place,
      hcaller.args, hcaller.stash⟩, ?_, rfl⟩
    show u.c.usePrevInstr = _
    rw [hu, ← hsignal]
    rfl

/-- **A step out of a call.** -/
theorem unwStep_calls (h : CursorAt m uc callee s.c)
    (hrow : HasRow k m fuel s.c.usePrevInstr (callee RIP) rs signal)
    (hcalls : Calls m uc rs callee caller) :
    ∃ t, unwStep k msyncValidate m fuel s = (.ok 1, t) ∧ CursorAt m uc caller t.c ∧
      t.c.usePrevInstr = (!signal) ∧ t.c.piValid = false := by
  have harm : CursorAt m uc callee (arm s).c :=
    ⟨h.context, h.cfa, h.ip, h.holds, h.paged, h.place, h.args, h.stash⟩
  obtain ⟨t, hstep, ht, hprev, hvalid⟩ := dwarfStep_calls (s := arm s) harm hrow hcalls
  refine ⟨{ t with c := { t.c with validate := s.c.validate } }, ?_, ?_, hprev, hvalid⟩
  · rw [unwStep_eq, Act.bind_of_ok (Act.attempt_of_ok hstep)]
    unfold afterDwarfStep
    rw [setCursor_bind]
    -- the location of `RBP` marks the end of the call chain when it is null
    exact (congrFun (if_neg (ne_zero_of_paged (ht.paged RBP (by decide)))) _).trans rfl
  · exact ⟨ht.context, ht.cfa, ht.ip, ht.holds, ht.paged, ht.place, ht.args, ht.stash⟩

end Step

end LibunwindKern
