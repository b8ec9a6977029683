import LibunwindKern.Dwarf.ExprFraming
import LibunwindKern.Dwarf.RowStack
import Mathlib.Data.List.FinRange

/-!
# Applying the rules of a row

`apply_reg_state` computes the CFA and then goes over the columns, in order, and overwrites the
locations in the cursor. `ruleLoc` is the location that a rule denotes in a frame, and
`applyRule_eq` says that a column gets the location its rule denotes in the frame as the columns
before it have left it. What follows from the order:

* A failure in the middle leaves the columns before it changed (`applyRegState_err_intact_iff`).
* The evaluator of expressions takes the CFA from the cursor, where it is still that of the old
  frame (`expr_sees_new_cfa_iff`).
-/

namespace LibunwindKern

open CProg ByteMem Unw

/-! ### The location a rule denotes -/

section Rule

variable (v : Validator) (m : Mem) (fuel : ℕ) (rs : RegState) (cfa : Word)

/-- The location that a rule for a register denotes in a frame. -/
def ruleLoc (rule : SaveLoc) (i : Fin dwarfNumPreservedRegs) : Unw Word := do
  let s ← Act.get
  match rule.whereSaved with
  | .undefined => pure 0
  | .same => pure (s.c.loc i)
  | .cfarel => pure (cfa + rule.val)
  | .reg => do
    let regnum ← Act.lift (dwarfToUnwRegnum rule.val)
    pure (regLoc s.c regnum)
  | .expr => evalLocationExpr v m fuel rule.val

/-- A column gets the location its rule denotes. -/
theorem applyRule_eq (i : Fin dwarfNumPreservedRegs) (s : St) :
    applyRule v m fuel rs cfa i s = (ruleLoc v m fuel cfa (rs (column i)) i >>= setLoc i) s := by
  unfold applyRule ruleLoc
  rw [Act.get_bind, Act.bind_assoc, Act.get_bind]
  cases (rs (column i)).whereSaved with
  | undefined => rfl
  | same =>
    -- the code writes nothing here, and what is written would be there already
    change _ = ((.ok (), { s with c := { s.c with
      loc := Function.update s.c.loc i (s.c.loc i) } }) : Res UnwError Unit × St)
    rw [Function.update_eq_self]
    rfl
  | cfarel => rfl
  | reg =>
    rw [Act.bind_assoc]
    rfl
  | expr => rfl

/-- The state without the page cache. -/
def St.sansLga (s : St) : St := { s with lga := Lga.empty }

theorem St.sansLga_eq_iff {s t : St} : t.sansLga = s.sansLga ↔ t = { s with lga := t.lga } := by
  constructor
  · intro h
    obtain ⟨hc, -, hcie, hpool, hfetched⟩ := St.mk.inj h
    rw [← hc, ← hcie, ← hpool, ← hfetched]
  · intro h
    rw [h]
    rfl

/-- Finding the location changes nothing but the page cache. -/
theorem ruleLoc_keeps (rule : SaveLoc) (i : Fin dwarfNumPreservedRegs) :
    Act.Keeps St.sansLga (ruleLoc v m fuel cfa rule i) := by
  refine Act.Keeps.bind Act.Keeps.get fun s => ?_
  split
  · exact Act.Keeps.pure _
  · exact Act.Keeps.pure _
  · exact Act.Keeps.pure _
  · exact Act.Keeps.bind (Act.Keeps.lift _) fun _ => Act.Keeps.pure _
  · -- only an expression reads memory
    exact evalLocationExpr_keeps v m fuel (fun _ _ => rfl) _

theorem ruleLoc_state {rule : SaveLoc} {i : Fin dwarfNumPreservedRegs} {s t : St}
    {r : Res UnwError Word} (h : ruleLoc v m fuel cfa rule i s = (r, t)) :
    t = { s with lga := t.lga } :=
  St.sansLga_eq_iff.1 ((ruleLoc_keeps v m fuel cfa rule i).run h)

theorem evalCfa_state {s t : St} {r : Res UnwError Word} (h : evalCfa v m fuel rs s = (r, t)) :
    t = { s with lga := t.lga } :=
  St.sansLga_eq_iff.1 ((evalCfa_keeps v m fuel rs (fun _ _ => rfl)).run h)

/-- The columns are done one after the other. -/
theorem applyRules_append (is js : List (Fin dwarfNumPreservedRegs)) :
    applyRules v m fuel rs cfa (is ++ js) =
      applyRules v m fuel rs cfa is >>= fun _ => applyRules v m fuel rs cfa js := by
  induction is with
  | nil => rfl
  | cons i is ih =>
    change (applyRule v m fuel rs cfa i >>= fun _ => applyRules v m fuel rs cfa (is ++ js)) =
      (applyRule v m fuel rs cfa i >>= fun _ => applyRules v m fuel rs cfa is) >>= fun _ =>
        applyRules v m fuel rs cfa js
    rw [ih, Act.bind_assoc]

/-- A column that is not done keeps its location. -/
theorem applyRules_loc {i : Fin dwarfNumPreservedRegs} :
    ∀ {is : List (Fin dwarfNumPreservedRegs)}, i ∉ is →
      Act.Keeps (fun s : St => s.c.loc i) (applyRules v m fuel rs cfa is)
  | [], _ => Act.Keeps.pure _
  | j :: is, hi => by
    have hne : i ≠ j := fun heq => hi (heq ▸ List.mem_cons_self)
    have hrest : i ∉ is := fun hmem => hi (List.mem_cons_of_mem _ hmem)
    -- another column is written
    have hrule : Act.Keeps (fun s : St => s.c.loc i) (applyRule v m fuel rs cfa j) := by
      intro s
      rw [applyRule_eq]
      have hloc : Act.Keeps (fun s : St => s.c.loc i) (ruleLoc v m fuel cfa (rs (column j)) j) :=
        (ruleLoc_keeps v m fuel cfa _ j).comp fun s => s.c.loc i
      refine Act.Keeps.bind hloc (fun loc t => ?_) s
      exact Function.update_of_ne hne _ _
    exact Act.Keeps.bind hrule fun _ => applyRules_loc hrest

/-- The columns that are done before another one. -/
def columnsBefore (i : Fin dwarfNumPreservedRegs) : List (Fin dwarfNumPreservedRegs) :=
  (List.finRange dwarfNumPreservedRegs).take i

/-- The columns that are done after another one. -/
def columnsAfter (i : Fin dwarfNumPreservedRegs) : List (Fin dwarfNumPreservedRegs) :=
  (List.finRange dwarfNumPreservedRegs).drop (i + 1)

theorem finRange_eq (i : Fin dwarfNumPreservedRegs) :
    List.finRange dwarfNumPreservedRegs = columnsBefore i ++ i :: columnsAfter i := by
  revert i
  decide

theorem mem_columnsBefore {i j : Fin dwarfNumPreservedRegs} : j ∈ columnsBefore i ↔ j < i := by
  revert i j
  decide

theorem notMem_columnsAfter (i : Fin dwarfNumPreservedRegs) : i ∉ columnsAfter i := by
  revert i
  decide

theorem notMem_columnsFrom {i j : Fin dwarfNumPreservedRegs} (hj : j < i) :
    j ∉ i :: columnsAfter i := by
  revert i j
  decide

/-- **One column of a row that is applied**: the location its rule denotes in the frame that the
columns before it have left. -/
theorem applyRules_column {s t : St}
    (h : applyRules v m fuel rs cfa (List.finRange dwarfNumPreservedRegs) s = (.ok (), t))
    (i : Fin dwarfNumPreservedRegs) :
    ∃ u, applyRules v m fuel rs cfa (columnsBefore i) s = (.ok (), u) ∧
      (ruleLoc v m fuel cfa (rs (column i)) i u).1 = .ok (t.c.loc i) := by
  rw [finRange_eq i, applyRules_append] at h
  obtain ⟨⟨⟩, u, hbefore, h⟩ := Act.bind_eq_ok h
  obtain ⟨⟨⟩, w, hrule, hafter⟩ := Act.bind_eq_ok h
  rw [applyRule_eq] at hrule
  obtain ⟨loc, u', hloc, hset⟩ := Act.bind_eq_ok hrule
  cases hset
  -- the columns after it leave it alone
  have hkept := (applyRules_loc v m fuel rs cfa (notMem_columnsAfter i)).run hafter
  refine ⟨u, hbefore, ?_⟩
  rw [hloc, hkept]
  change Res.ok loc = Res.ok (Function.update u'.c.loc i loc i)
  rw [Function.update_self]

/-- The columns before one leave the rest of the cursor, and the locations from it on. -/
theorem applyRules_before {s u : St} {i : Fin dwarfNumPreservedRegs}
    (h : applyRules v m fuel rs cfa (columnsBefore i) s = (.ok (), u)) :
    u.c = { s.c with loc := u.c.loc } ∧ ∀ j, ¬j < i → u.c.loc j = s.c.loc j := by
  -- all of the cursor but the locations
  have hview : Blind fun s : St => { s.c with loc := fun _ => 0 } := ⟨fun _ _ => rfl, fun _ _ => rfl⟩
  refine ⟨?_, fun j hj => ?_⟩
  · have hrest := (applyRules_keeps v m fuel rs hview cfa (columnsBefore i)).run h
    exact congrArg (fun c : Cursor => { c with loc := u.c.loc }) hrest
  · exact (applyRules_loc v m fuel rs cfa fun hmem => hj (mem_columnsBefore.1 hmem)).run h

end Rule

/-! ### A row that cannot be applied -/

section Fails

variable (v : Validator) (m : Mem) (fuel : ℕ) (rs : RegState) (cfa : Word)

/-- Each column, up to the first one whose location cannot be found, has a rule that denotes the
location the column has. -/
def Quiet : List (Fin dwarfNumPreservedRegs) → St → Prop
  | [], _ => True
  | i :: is, s =>
    match ruleLoc v m fuel cfa (rs (column i)) i s with
    | (.ok loc, t) => loc = s.c.loc i ∧ Quiet is t
    | _ => True

variable {v m fuel rs cfa}

theorem quiet_cons_of_ok {i : Fin dwarfNumPreservedRegs} {is : List (Fin dwarfNumPreservedRegs)}
    {s t : St} {loc : Word} (h : ruleLoc v m fuel cfa (rs (column i)) i s = (.ok loc, t)) :
    Quiet v m fuel rs cfa (i :: is) s ↔ loc = s.c.loc i ∧ Quiet v m fuel rs cfa is t := by
  rw [Quiet, h]

theorem quiet_cons_of_ne {i : Fin dwarfNumPreservedRegs} {is : List (Fin dwarfNumPreservedRegs)}
    {s t : St} {r : Res UnwError Word} (h : ruleLoc v m fuel cfa (rs (column i)) i s = (r, t))
    (hr : ∀ loc, r ≠ .ok loc) : Quiet v m fuel rs cfa (i :: is) s := by
  unfold Quiet
  rw [h]
  cases r with
  | ok loc => exact absurd rfl (hr loc)
  | _ => trivial

/-- **The loop over the columns** leaves the locations if and only if it is quiet. The induction
is over the columns that are left. -/
theorem applyRules_loc_iff {is : List (Fin dwarfNumPreservedRegs)} (hnodup : is.Nodup) {s t : St}
    {r : Res UnwError Unit} (h : applyRules v m fuel rs cfa is s = (r, t)) :
    t.c.loc = s.c.loc ↔ Quiet v m fuel rs cfa is s := by
  induction is generalizing s with
  | nil =>
    cases h
    exact iff_of_true rfl trivial
  | cons i is ih =>
    obtain ⟨hnot, hnodup'⟩ := List.nodup_cons.1 hnodup
    change (applyRule v m fuel rs cfa i >>= fun _ => applyRules v m fuel rs cfa is) s = _ at h
    rw [Act.bind_congr_left _ (applyRule_eq v m fuel rs cfa i s), Act.bind_assoc] at h
    rcases hrule : ruleLoc v m fuel cfa (rs (column i)) i s with ⟨q, u⟩
    have hu := ruleLoc_state v m fuel cfa hrule
    have huloc : u.c.loc = s.c.loc := by rw [hu]
    obtain ⟨loc, rfl⟩ | hq := q.ok_or_ne
    · rw [Act.bind_of_ok hrule, setLoc_bind] at h
      rw [quiet_cons_of_ok hrule]
      by_cases hsame : loc = s.c.loc i
      · -- the column is written with what it holds
        have hupdate : Function.update u.c.loc i loc = u.c.loc := by
          rw [hsame, ← huloc, Function.update_eq_self]
        rw [hupdate] at h
        rw [← huloc, ih hnodup' h]
        exact (and_iff_right (hsame.trans (congrFun huloc i).symm)).symm
      · -- no other column is written with the index of this one
        have hkept := (applyRules_loc v m fuel rs cfa hnot).run h
        refine iff_of_false (fun heq => hsame ?_) fun hquiet => hsame hquiet.1
        calc loc = Function.update u.c.loc i loc i := by rw [Function.update_self]
          _ = t.c.loc i := hkept.symm
          _ = s.c.loc i := congrFun heq i
    · -- the loop stops at this column, and writes nothing
      rw [Act.bind_of_not_ok hrule hq] at h
      cases h
      exact iff_of_true huloc (quiet_cons_of_ne hrule hq)

variable (v m fuel rs)

/-- A row that cannot be applied to a frame leaves the frame as it was: its CFA cannot be
computed, or the columns up to the one that fails denote the locations they have, and if none of
them fails, the CFA is the one of the frame. -/
def FailsIntact (s : St) : Prop :=
  (∃ e, (evalCfa v m fuel rs s).1 = .err e) ∨
    ∃ cfa u, evalCfa v m fuel rs s = (.ok cfa, u) ∧
      Quiet v m fuel rs cfa (List.finRange dwarfNumPreservedRegs) u ∧
      ((applyRules v m fuel rs cfa (List.finRange dwarfNumPreservedRegs) u).1 = .ok () →
        cfa = s.c.cfa)

variable {v m fuel rs}

/-- The end of `apply_reg_state`, after the loop over the columns. -/
theorem afterRules_keeps (prevIp prevCfa : Word) :
    Act.Keeps (fun s : St => (s.c.cfa, s.c.loc)) (readReturnAddress v m >>= fun ip =>
      setCursor (fun c => { c with ip := ip }) >>= fun _ => finishFrame rs prevIp prevCfa) := by
  refine Act.Keeps.bind (readReturnAddress_keeps (fun _ _ => rfl) v m) fun ip => ?_
  refine Act.Keeps.bind (fun _ => rfl) fun _ => ?_
  exact (finishFrame_keeps rs prevIp prevCfa).comp Prod.snd

/-- The condition, once the CFA is known. -/
theorem failsIntact_iff {s u : St} {cfa : Word} (h : evalCfa v m fuel rs s = (.ok cfa, u)) :
    FailsIntact v m fuel rs s ↔ Quiet v m fuel rs cfa (List.finRange dwarfNumPreservedRegs) u ∧
      ((applyRules v m fuel rs cfa (List.finRange dwarfNumPreservedRegs) u).1 = .ok () →
        cfa = s.c.cfa) := by
  unfold FailsIntact
  rw [h]
  constructor
  · rintro (⟨e, he⟩ | ⟨cfa', u', hrun, hquiet⟩)
    · cases he
    · cases hrun
      exact hquiet
  · exact fun hquiet => Or.inr ⟨cfa, u, rfl, hquiet⟩

/-- **A failed application** leaves the frame as it was if and only if nothing had been
written. -/
theorem applyRegState_err_intact_iff (v : Validator) (m : Mem) (fuel : ℕ) (rs : RegState) (s t : St)
    (e : UnwError) (h : applyRegState v m fuel rs s = (.err e, t)) :
    frameOf t = frameOf s ↔ FailsIntact v m fuel rs s := by
  have hip := applyRegState_err_ip h
  unfold applyRegState at h
  rw [Act.get_bind] at h
  obtain herr | ⟨cfa, u, hcfa, h⟩ := Act.bind_eq_err h
  · -- the CFA cannot be computed
    refine iff_of_true ?_ (Or.inl ⟨e, congrArg Prod.fst herr⟩)
    rw [evalCfa_state v m fuel rs herr]
    rfl
  · have hu := evalCfa_state v m fuel rs hcfa
    have hnodup := List.nodup_finRange dwarfNumPreservedRegs
    have hframe : ∀ w : St, w.c.ip = s.c.ip →
        (frameOf w = frameOf s ↔ w.c.cfa = s.c.cfa ∧ w.c.loc = u.c.loc) := by
      intro w hw
      unfold frameOf
      rw [Prod.mk.injEq, Prod.mk.injEq, hu]
      exact and_iff_right hw
    rw [failsIntact_iff hcfa, hframe t hip]
    obtain herr | ⟨⟨⟩, w, hok, h⟩ := Act.bind_eq_err h
    · -- a column fails, and the CFA in the cursor is still the old one
      have hcfaView : Blind fun s : St => s.c.cfa := ⟨fun _ _ => rfl, fun _ _ => rfl⟩
      have hold : t.c.cfa = s.c.cfa := by
        rw [(applyRules_keeps v m fuel rs hcfaView cfa _).run herr, hu]
      rw [applyRules_loc_iff hnodup herr, herr, and_iff_right hold]
      exact (and_iff_left fun hok => by cases hok).symm
    · -- all columns are done, and the CFA is written
      rw [setCursor_bind] at h
      obtain ⟨hnew, hloc⟩ := Prod.mk.inj ((afterRules_keeps s.c.ip s.c.cfa).run h)
      have hnew' : t.c.cfa = cfa := hnew
      have hloc' : t.c.loc = w.c.loc := hloc
      rw [hnew', hloc', applyRules_loc_iff hnodup hok, hok, and_comm]
      exact and_congr_right fun _ => ⟨fun heq _ => heq, fun heq => heq rfl⟩

end Fails

/-- A row with these rules, and `DWARF_WHERE_SAME` in the other columns. -/
def rowOf (rules : List (Fin (dwarfNumPreservedRegs + 2) × SaveLoc)) : RegState :=
  rules.foldr (fun p rs => Function.update rs p.1 p.2) fun _ => ⟨.same, 0⟩

/-- A CFA that is relative to a register without a location. -/
theorem applyRegState_fails_intact :
    ∃ t, applyRegState msyncValidate twoRowsMem 9 (rowOf [(cfaRegColumn, ⟨.reg, 0⟩)])
        (callFrame 0x5012) = (.err .ebadreg, t) ∧ frameOf t = frameOf (callFrame 0x5012) := by
  have hrun : applyRegState msyncValidate twoRowsMem 9 (rowOf [(cfaRegColumn, ⟨.reg, 0⟩)])
      (callFrame 0x5012) = (.err .ebadreg, _) := rfl
  exact ⟨_, hrun, (applyRegState_err_intact_iff msyncValidate twoRowsMem 9 _ _ _ _ hrun).2
    (Or.inl ⟨.ebadreg, rfl⟩)⟩

/-- A block at `0x9000` with one byte that is not an opcode. -/
def badBlockMem : Mem := fun a => if a = 0x9000 then 1 else 0xff

/-- The CFA is `RSP` + 16, `RBX` is at the CFA minus 16, and the rule of `R12` is the bad
block. -/
def badBlockRow : RegState :=
  rowOf [(cfaRegColumn, ⟨.reg, 7⟩), (cfaOffColumn, ⟨.undefined, 16⟩), (column RBX, ⟨.cfarel, -16⟩),
    (column R12, ⟨.expr, 0x9000⟩)]

/-- The expression of `R12` fails after the location of `RBX` has been overwritten. -/
theorem applyRegState_fails_torn :
    ∃ t, applyRegState msyncValidate badBlockMem 9 badBlockRow (callFrame 0x5012) =
        (.err .einval, t) ∧ t.c.loc RBX = 0x7000 ∧ frameOf t ≠ frameOf (callFrame 0x5012) := by
  have hrun : (applyRegState msyncValidate badBlockMem 9 badBlockRow (callFrame 0x5012)).1 =
      .err .einval := by decide +kernel
  have hloc : (applyRegState msyncValidate badBlockMem 9 badBlockRow (callFrame 0x5012)).2.c.loc RBX
      = 0x7000 := by decide +kernel
  refine ⟨_, Act.run_of_outcome hrun, hloc, fun heq => ?_⟩
  have hrbx := congrFun (congrArg (fun f => f.2.2) heq) RBX
  exact absurd (hloc.symm.trans hrbx) (by decide)

/-! ### The initial entry of an expression -/

section Entry

variable (v : Validator) (m : Mem) (fuel : ℕ) (rs : RegState) (cfa : Word)

/-- If the loop over the columns comes to this one, the evaluation of its expression starts with
this value on the stack. -/
def StartsWith (u : St) (i : Fin dwarfNumPreservedRegs) (entry : Word) : Prop :=
  ∀ t, applyRules v m fuel rs cfa (columnsBefore i) u = (.ok (), t) →
    ∀ addr g, (evalStart t.c addr g).stack 0 = some entry

/-- A register rule with the number that is past the end of the register map. -/
def PastMap (loc : SaveLoc) : Prop := loc.whereSaved = .reg ∧ loc.val.toNat = dwarfNumPreservedRegs

/-- The loop over the columns comes to an expression. -/
def ReachesExpr (rs : RegState) : Prop :=
  ∃ i, (rs (column i)).whereSaved = .expr ∧
    ∀ j < i, (rs (column j)).whereSaved ≠ .expr ∧ ¬PastMap (rs (column j))

variable {v m fuel rs cfa}

/-- The location of a rule that is not an expression can be found. -/
theorem ruleLoc_ok {i : Fin dwarfNumPreservedRegs} (hexpr : (rs (column i)).whereSaved ≠ .expr)
    (hmap : ¬PastMap (rs (column i))) (s : St) :
    ∃ loc, ruleLoc v m fuel cfa (rs (column i)) i s = (.ok loc, s) := by
  unfold ruleLoc
  rw [Act.get_bind]
  cases hw : (rs (column i)).whereSaved with
  | undefined => exact ⟨_, rfl⟩
  | same => exact ⟨_, rfl⟩
  | cfarel => exact ⟨_, rfl⟩
  | reg =>
    -- only the number past the end of the map is not looked up
    have hval : (rs (column i)).val.toNat ≠ dwarfNumPreservedRegs := fun hval => hmap ⟨hw, hval⟩
    have hregnum : ∃ n, dwarfToUnwRegnum (rs (column i)).val = .ok n := by
      unfold dwarfToUnwRegnum
      split_ifs
      · exact ⟨_, rfl⟩
      · exact ⟨_, rfl⟩
    obtain ⟨n, hn⟩ := hregnum
    rw [hn]
    exact ⟨_, rfl⟩
  | expr => exact absurd hw hexpr

theorem applyRules_ok {is : List (Fin dwarfNumPreservedRegs)}
    (h : ∀ j ∈ is, (rs (column j)).whereSaved ≠ .expr ∧ ¬PastMap (rs (column j))) (s : St) :
    ∃ t, applyRules v m fuel rs cfa is s = (.ok (), t) := by
  induction is generalizing s with
  | nil => exact ⟨s, rfl⟩
  | cons i is ih =>
    obtain ⟨hexpr, hmap⟩ := h i List.mem_cons_self
    obtain ⟨loc, hloc⟩ : ∃ loc, ruleLoc v m fuel cfa (rs (column i)) i s = (.ok loc, s) :=
      ruleLoc_ok hexpr hmap s
    have hrule : applyRule v m fuel rs cfa i s =
        (.ok (), { s with c := { s.c with loc := Function.update s.c.loc i loc } }) := by
      rw [applyRule_eq, Act.bind_of_ok hloc]
      rfl
    obtain ⟨t, ht⟩ := ih (fun j hj => h j (List.mem_cons_of_mem _ hj))
      { s with c := { s.c with loc := Function.update s.c.loc i loc } }
    exact ⟨t, (Act.bind_of_ok hrule).trans ht⟩

/-- A register that is past the end of the map is not looked up. -/
theorem applyRules_pastMap {is : List (Fin dwarfNumPreservedRegs)} {j : Fin dwarfNumPreservedRegs}
    (hj : j ∈ is) (hmap : PastMap (rs (column j))) (s t : St) :
    applyRules v m fuel rs cfa is s ≠ (.ok (), t) := by
  intro h
  obtain ⟨is₁, is₂, rfl⟩ := List.append_of_mem hj
  rw [applyRules_append] at h
  obtain ⟨⟨⟩, u, -, h⟩ := Act.bind_eq_ok h
  obtain ⟨⟨⟩, w, hrule, -⟩ := Act.bind_eq_ok h
  obtain ⟨hw, hval⟩ := hmap
  -- the entry would be past the end of the map
  have hregnum : dwarfToUnwRegnum (rs (column j)).val = .undefined := by
    unfold dwarfToUnwRegnum
    rw [hval, if_neg (Nat.lt_irrefl _), if_pos rfl]
  unfold applyRule at hrule
  rw [Act.get_bind, hw, hregnum] at hrule
  cases hrule

/-- The columns leave the CFA in the cursor, and so an expression starts with the old one. -/
theorem evalStart_entry {u t : St} {i : Fin dwarfNumPreservedRegs}
    (h : applyRules v m fuel rs cfa (columnsBefore i) u = (.ok (), t)) (addr : Word) (g : Lga) :
    (evalStart t.c addr g).stack 0 = some u.c.cfa := by
  have hcfa : t.c.cfa = u.c.cfa := by rw [(applyRules_before v m fuel rs cfa h).1]
  change Function.update (fun _ => none) (0 : Fin maxExprStackSize) (some t.c.cfa) 0 = _
  rw [hcfa, Function.update_self]

/-- **The CFA that expressions see** is the new one if and only if it is also the old one, or
no expression is evaluated. -/
theorem expr_sees_new_cfa_iff (v : Validator) (m : Mem) (fuel : ℕ) (rs : RegState) (s u : St)
    (cfa : Word) (hcfa : evalCfa v m fuel rs s = (.ok cfa, u)) :
    (∀ i, (rs (column i)).whereSaved = .expr → StartsWith v m fuel rs cfa u i cfa) ↔
      cfa = s.c.cfa ∨ ¬ReachesExpr rs := by
  -- computing the CFA does not store it
  have hold : u.c.cfa = s.c.cfa := by rw [evalCfa_state v m fuel rs hcfa]
  constructor
  · intro h
    rw [or_iff_not_imp_right, not_not]
    rintro ⟨i, hexpr, hstraight⟩
    -- the first expression is evaluated, with the CFA that is in the cursor
    obtain ⟨t, ht⟩ : ∃ t, applyRules v m fuel rs cfa (columnsBefore i) u = (.ok (), t) :=
      applyRules_ok (fun j hj => hstraight j (mem_columnsBefore.1 hj)) u
    have hentry := h i hexpr t ht 0 t.lga
    rw [evalStart_entry ht] at hentry
    exact (Option.some.inj hentry).symm.trans hold
  · rintro (hsame | hnone) i hexpr t ht addr g
    · rw [evalStart_entry ht, hold, hsame]
    · -- some column before the first expression stops the loop
      obtain ⟨k, hk, hmin⟩ := WellFounded.has_min (r := (· < ·)) wellFounded_lt
        {i : Fin dwarfNumPreservedRegs | (rs (column i)).whereSaved = .expr} ⟨i, hexpr⟩
      have hstop : ∃ j < k, PastMap (rs (column j)) := by
        by_contra hno
        exact hnone ⟨k, hk, fun j hj => ⟨fun hw => hmin j hw hj, fun hmap => hno ⟨j, hj, hmap⟩⟩⟩
      obtain ⟨j, hj, hmap⟩ := hstop
      have hji : j < i := lt_of_lt_of_le hj (not_lt.1 (hmin i hexpr))
      exact absurd ht (applyRules_pastMap (mem_columnsBefore.2 hji) hmap u t)

end Entry

/-- The block `DW_OP_plus_uconst 8` at `0x9000`. -/
def plusEightMem : Mem := fun a => ([0x02, 0x23, 0x08] : List Byte).getD (a - 0x9000).toNat 0

/-- The CFA is `RSP` plus an offset, and the rule of `RBX` is the block. -/
def plusEightRow (off : Word) : RegState :=
  rowOf [(cfaRegColumn, ⟨.reg, 7⟩), (cfaOffColumn, ⟨.undefined, off⟩), (column RBX, ⟨.expr, 0x9000⟩)]

/-- With the offset 0 the new CFA is the old one. -/
theorem expr_sees_same_cfa :
    StartsWith msyncValidate plusEightMem 9 (plusEightRow 0) 0x7000 (callFrame 0x5012) RBX
      0x7000 := by
  have hcfa : evalCfa msyncValidate plusEightMem 9 (plusEightRow 0) (callFrame 0x5012) =
      (.ok 0x7000, callFrame 0x5012) := rfl
  exact (expr_sees_new_cfa_iff msyncValidate plusEightMem 9 (plusEightRow 0) _ _ _ hcfa).2
    (Or.inl rfl) RBX rfl

/-- With the offset 16 the new CFA is `0x7010`, and the expression gives `0x7008`. -/
theorem expr_sees_old_cfa :
    evalCfa msyncValidate plusEightMem 9 (plusEightRow 16) (callFrame 0x5012) =
        (.ok 0x7010, callFrame 0x5012) ∧
      ¬StartsWith msyncValidate plusEightMem 9 (plusEightRow 16) 0x7010 (callFrame 0x5012) RBX
        0x7010 ∧
      (applyRegState msyncValidate plusEightMem 9 (plusEightRow 16) (callFrame 0x5012)).2.c.loc RBX =
        0x7008 := by
  refine ⟨rfl, fun h => ?_, by decide +kernel⟩
  have hentry := h _ rfl 0 Lga.empty
  exact absurd hentry (by decide +kernel)

end LibunwindKern
