import LibunwindKern.Trace.Replay
import LibunwindKern.X86.RegWrite

/-!
# Replaying a standard frame

`tdep_stash_frame` sums up the row of a frame in bit-fields, and `tdep_trace` uses the summary for
every later frame with the same address. So the summary has to be right for the row, and not only
for the frame it was made from.

The CFA, `RBP` and `RSP` are tested by their rules. There are two slips. `labs` leaves `LONG_MIN` as
it is, so that the test for a small offset lets it pass, and a bit-field makes 0 of it. And the
return address is not tested by its rule, but by its location in the frame at hand.

* `Stashed`: a row that has been summed up. `Unwound`: the caller that the row gives for a frame.
* `standard_replay_iff`: when the replay of the summary gives the same caller.
* `summaryFits_of_cfarel`: it always does if the return address has a CFA-relative rule and no
  offset is `LONG_MIN`.
-/

namespace LibunwindKern

open CProg ByteMem Unw Fast

/-! ### Offsets in bit-fields -/

/-- `LONG_MIN`. -/
def longMin : Word := BitVec.intMin 64

/-- What the test `labs (x) < bound` says of the numbers other than `LONG_MIN`. -/
theorem labs_slt {x bound : Word} (h : (labs x).slt bound = true) (hmin : x ≠ longMin) :
    -bound.toInt < x.toInt ∧ x.toInt < bound.toInt := by
  rw [BitVec.slt_iff_toInt_lt] at h
  unfold labs at h
  cases hsign : x.msb with
  | true =>
    have hneg := BitVec.toInt_neg_of_msb_true hsign
    rw [hsign, if_pos rfl, BitVec.toInt_neg_of_ne_intMin hmin] at h
    omega
  | false =>
    have hpos := BitVec.toInt_nonneg_of_msb_false hsign
    rw [hsign, if_neg Bool.false_ne_true] at h
    omega

/-- **An offset in a bit-field** is the offset, if it has passed the test and is not `LONG_MIN`. -/
theorem stored_offset {w : ℕ} (hw : w ≤ 64) {x bound : Word} (hbound : 2 * bound.toInt = 2 ^ w)
    (h : (labs x).slt bound = true) (hmin : x ≠ longMin) :
    (x.setWidth w).signExtend 64 = x := by
  obtain ⟨hlow, hhigh⟩ := labs_slt h hmin
  exact signExtend_setWidth_of_fits hw (by omega) (by omega)

/-! ### A row that is summed up -/

section Stash

variable {v : Validator} {m : Mem} {fuel : ℕ} {rs : RegState} {s t : St}

theorem tdepStashFrame_eq_ok (h : tdepStashFrame rs s = (.ok (), t)) :
    t = s ∨ ∃ hcol : s.c.retAddrColumn.toNat < dwarfNumPreservedRegs,
      isStandardFrame s.c rs (s.c.loc ⟨_, hcol⟩) = true ∧
        t = { s with c := { s.c with frameInfo := standardFrame s.c.frameInfo rs } } := by
  unfold tdepStashFrame at h
  rw [Act.get_bind] at h
  split_ifs at h with hcol hstd hsig
  · cases h
    exact Or.inr ⟨hcol, hstd, rfl⟩
  · cases h
  · cases h
    exact Or.inl rfl
  · cases h

/-- The part of the state that says how the end of a row is done. -/
def ending (s : St) : FrameInfo × Word × Bool :=
  (s.c.frameInfo, s.c.retAddrColumn, s.c.validate)

theorem ending_blind : Blind ending := ⟨fun _ _ => rfl, fun _ _ => rfl⟩

/-- The end of a row that is applied: the return address is read, and the frame is summed up. -/
theorem applyRegState_finish (h : applyRegState v m fuel rs s = (.ok (), t)) :
    ∃ w ip y, readReturnAddress v m w = (.ok ip, y) ∧ ending w = ending s ∧
      finishFrame rs s.c.ip s.c.cfa { y with c := { y.c with ip := ip } } = (.ok (), t) := by
  unfold applyRegState at h
  rw [Act.get_bind] at h
  obtain ⟨cfa, u, hcfa, hrest⟩ := Act.bind_eq_ok h
  obtain ⟨⟨⟩, w, hrules, hrest⟩ := Act.bind_eq_ok hrest
  rw [setCursor_bind] at hrest
  obtain ⟨ip, y, hip, hrest⟩ := Act.bind_eq_ok hrest
  rw [setCursor_bind] at hrest
  have hu := (evalCfa_keeps v m fuel rs ending_blind.lga).run hcfa
  have hw := (applyRules_keeps v m fuel rs ending_blind cfa _).run hrules
  exact ⟨_, ip, y, hip, hw.trans hu, hrest⟩

end Stash

/-- A row that is summed up as `f`, in some frame whose return address is in the column `col`, by a
step that does not end the chain. -/
def Stashed (rs : RegState) (col : Fin dwarfNumPreservedRegs) (f : FrameInfo) : Prop :=
  ∃ ip v m fuel s t, s.c.frameInfo = unknownFrame ip ∧ s.c.retAddrColumn.toNat = col.val ∧
    applyRegState v m fuel rs s = (.ok (), t) ∧ t.c.frameInfo = f ∧ f.frameType = .standard ∧
    t.c.loc RBP ≠ 0

/-- The location that the rule of a column denotes, when the row is applied to a frame. -/
def RowLocates (v : Validator) (m : Mem) (fuel : ℕ) (rs : RegState) (s : St)
    (i : Fin dwarfNumPreservedRegs) (loc : Word) : Prop :=
  ∃ cfa u w, evalCfa v m fuel rs s = (.ok cfa, u) ∧
    applyRules v m fuel rs cfa (columnsBefore i) u = (.ok (), w) ∧
    (ruleLoc v m fuel cfa (rs (column i)) i w).1 = .ok loc

/-- What is known of the row of a summary. -/
structure Summary (rs : RegState) (f : FrameInfo) : Prop where
  cfaReg : (rs cfaRegColumn).whereSaved = .reg
  base : (rs cfaRegColumn).val = 6 ∨ (rs cfaRegColumn).val = 7
  cfaOff : (labs (rs cfaOffColumn).val).slt (2 ^ 29) = true
  rbp : (rs (column RBP)).whereSaved = .same ∨ (rs (column RBP)).whereSaved = .cfarel ∧
    (labs (rs (column RBP)).val).slt (2 ^ 14) = true ∧ (rs (column RBP)).val + 1 ≠ 0
  frame : ∃ ip, f = standardFrame (unknownFrame ip) rs

section Located

variable {v : Validator} {m : Mem} {fuel : ℕ} {rs : RegState} {s t : St}
variable {i : Fin dwarfNumPreservedRegs} {loc : Word}

/-- A row that is applied puts every register where its rule says. -/
theorem applyRegState_locates (h : applyRegState v m fuel rs s = (.ok (), t))
    (i : Fin dwarfNumPreservedRegs) : RowLocates v m fuel rs s i (t.c.loc i) := by
  obtain ⟨cfa, u, w, hcfa, hrules, -, hloc⟩ := applyRegState_eq_ok h
  obtain ⟨u', hbefore, hrule⟩ := applyRules_column v m fuel rs cfa hrules i
  rw [hloc]
  exact ⟨cfa, u, u', hcfa, hbefore, hrule⟩

theorem RowLocates.unique {loc' : Word} (h : RowLocates v m fuel rs s i loc)
    (h' : RowLocates v m fuel rs s i loc') : loc = loc' := by
  obtain ⟨cfa, u, w, hcfa, hbefore, hrule⟩ := h
  obtain ⟨cfa', u', w', hcfa', hbefore', hrule'⟩ := h'
  cases hcfa.symm.trans hcfa'
  cases hbefore.symm.trans hbefore'
  exact Res.ok.inj (hrule.symm.trans hrule')

theorem RowLocates.of_undefined (h : RowLocates v m fuel rs s i loc)
    (hrule : (rs (column i)).whereSaved = .undefined) : loc = 0 := by
  obtain ⟨cfa, u, w, hcfa, hbefore, hloc⟩ := h
  unfold ruleLoc at hloc
  rw [Act.get_bind, hrule] at hloc
  exact (Res.ok.inj hloc).symm

theorem RowLocates.of_same (h : RowLocates v m fuel rs s i loc)
    (hrule : (rs (column i)).whereSaved = .same) : loc = s.c.loc i := by
  obtain ⟨cfa, u, w, hcfa, hbefore, hloc⟩ := h
  unfold ruleLoc at hloc
  rw [Act.get_bind, hrule] at hloc
  -- neither the CFA nor the columns before this one write its location
  have hkept := (applyRules_before v m fuel rs cfa hbefore).2 i (lt_irrefl i)
  rw [evalCfa_state v m fuel rs hcfa] at hkept
  exact (Res.ok.inj hloc).symm.trans hkept

theorem RowLocates.of_cfarel (h : RowLocates v m fuel rs s i loc)
    (hrule : (rs (column i)).whereSaved = .cfarel) {cfa : Word}
    (hcfa : (evalCfa v m fuel rs s).1 = .ok cfa) : loc = cfa + (rs (column i)).val := by
  obtain ⟨cfa', u, w, hcfa', hbefore, hloc⟩ := h
  unfold ruleLoc at hloc
  rw [Act.get_bind, hrule] at hloc
  rw [hcfa'] at hcfa
  rw [← Res.ok.inj hcfa]
  exact (Res.ok.inj hloc).symm

end Located

section Summary

variable {rs : RegState} {col : Fin dwarfNumPreservedRegs} {f : FrameInfo}

/-- The frame in which a row was summed up passes the test. -/
theorem Stashed.classified (h : Stashed rs col f) :
    ∃ v m fuel s t, applyRegState v m fuel rs s = (.ok (), t) ∧ t.c.loc RBP ≠ 0 ∧
      ∃ y : St, isStandardFrame y.c rs (y.c.loc col) = true ∧ t.c.cfa = y.c.cfa ∧
        t.c.loc = y.c.loc ∧ ∃ ip, f = standardFrame (unknownFrame ip) rs := by
  obtain ⟨ip, v, m, fuel, s, t, hnew, hcol, hrun, hinfo, hstd, hrbp⟩ := h
  refine ⟨v, m, fuel, s, t, hrun, hrbp, ?_⟩
  obtain ⟨w, addr, y, hread, hw, hfinish⟩ := applyRegState_finish hrun
  have hy := ((readReturnAddress_keeps ending_blind.lga v m).run hread).trans hw
  obtain ⟨hkept, hrest⟩ := Prod.mk.inj hy
  have hcolumn : y.c.retAddrColumn = s.c.retAddrColumn := (Prod.mk.inj hrest).1
  -- the frame had no type before
  have hother : t ≠ { y with c := { y.c with ip := addr } } := by
    rintro rfl
    rw [← hinfo] at hstd
    have htype : y.c.frameInfo.frameType = .standard := hstd
    rw [hkept, hnew] at htype
    cases htype
  unfold finishFrame at hfinish
  rw [Act.get_bind] at hfinish
  split_ifs at hfinish with hsame hstash
  · cases hfinish
  · obtain rfl | ⟨hlt, htest, rfl⟩ := tdepStashFrame_eq_ok hfinish
    · exact absurd rfl hother
    · have hfin : (⟨y.c.retAddrColumn.toNat, hlt⟩ : Fin dwarfNumPreservedRegs) = col := by
        apply Fin.ext
        rw [← hcol, ← hcolumn]
      rw [← hfin]
      refine ⟨_, htest, rfl, rfl, ip, ?_⟩
      rw [← hinfo, ← hnew, ← hkept]
  · cases hfinish
    exact absurd rfl hother

theorem Stashed.summary (h : Stashed rs col f) : Summary rs f := by
  obtain ⟨v, m, fuel, s, t, hrun, hrbp, y, htest, -, -, hframe⟩ := h.classified
  obtain ⟨-, hreg, hbase, hoff, -, hstash, -⟩ := of_decide_eq_true htest
  refine ⟨hreg, hbase, hoff, ?_, hframe⟩
  -- `RBP` has a location, so its rule is not `DWARF_WHERE_UNDEF`
  have hdefined : (rs (column RBP)).whereSaved ≠ .undefined := fun hrule =>
    hrbp ((applyRegState_locates hrun RBP).of_undefined hrule)
  unfold stashable at hstash
  cases hrule : (rs (column RBP)).whereSaved with
  | undefined => exact absurd hrule hdefined
  | same => exact Or.inl rfl
  | cfarel =>
    rw [hrule] at hstash
    exact Or.inr ⟨rfl, of_decide_eq_true hstash⟩
  | reg => rw [hrule] at hstash; cases hstash
  | expr => rw [hrule] at hstash; cases hstash

/-- A CFA-relative return address is 8 below the CFA. -/
theorem Stashed.ret_cfarel (h : Stashed rs col f) (hrule : (rs (column col)).whereSaved = .cfarel) :
    (rs (column col)).val = -8 := by
  obtain ⟨v, m, fuel, s, t, hrun, -, y, htest, hcfa, hloc, -⟩ := h.classified
  obtain ⟨-, -, -, -, hret, -, -⟩ := of_decide_eq_true htest
  obtain ⟨cfa, u, w, heval, -, hnew, -⟩ := applyRegState_eq_ok hrun
  have hlocated := (applyRegState_locates hrun col).of_cfarel hrule (congrArg Prod.fst heval)
  rw [hloc, hret, ← hcfa, hnew, sub_eq_add_neg] at hlocated
  exact (add_left_cancel hlocated).symm

end Summary

/-! ### The caller that the row gives -/

/-- The CFA of a row whose CFA is an offset from `RBP` or `RSP`. -/
def rowCfa (rs : RegState) (r : TraceRegs) : Word :=
  (if (rs cfaRegColumn).val = 7 then r.rsp else r.rbp) + (rs cfaOffColumn).val

/-- The registers of `tdep_trace` are those of the frame in `s`, whose return address is in the
column `col`. -/
structure AtFrame (m : Mem) (col : Fin dwarfNumPreservedRegs) (s : St) (r : TraceRegs)
    (x : Tracer) : Prop where
  column : s.c.retAddrColumn.toNat = col.val
  rsp : r.rsp = s.c.cfa
  rbp : (unwGetReg msyncValidate m s.c 6 s.lga).1 = .ok r.rbp
  mem : x.session.mem = m
  validate : x.session.st.c.validate = s.c.validate

/-- The return address, the CFA and `RBP` that the row gives for the frame in `s`. The stack pointer
of `tdep_trace` is the CFA. -/
def Unwound (m : Mem) (fuel : ℕ) (rs : RegState) (s : St) (r : TraceRegs) : Prop :=
  ∃ t, applyRegState msyncValidate m fuel rs s = (.ok (), t) ∧ r.rip = t.c.ip ∧ r.cfa = t.c.cfa ∧
    r.rsp = r.cfa ∧ (unwGetReg msyncValidate m t.c 6 t.lga).1 = .ok r.rbp

/-- The return address `ip` is the word at this location, and 0 if there is none. -/
def ReturnsAt (m : Mem) (validate : Bool) (loc ip : Word) : Prop :=
  loc = 0 ∧ ip = 0 ∨ loc ≠ 0 ∧ FastReads validate loc ∧ load64 m loc = ip

theorem ReturnsAt.eq {m : Mem} {validate : Bool} {loc ip : Word} (h : ReturnsAt m validate loc ip) :
    ip = if loc = 0 then 0 else load64 m loc := by
  obtain ⟨hnull, hip⟩ | ⟨hne, -, hword⟩ := h
  · rw [if_pos hnull, hip]
  · rw [if_neg hne, hword]

/-- **When a summary fits a frame** that it was not made from: the CFA offset is not `LONG_MIN`, the
offset of `RBP` is not or makes no difference, and the return address that the rule of its column
leads to is the word 8 below the CFA. -/
structure SummaryFits (m : Mem) (fuel : ℕ) (rs : RegState) (col : Fin dwarfNumPreservedRegs) (s : St)
    (r : TraceRegs) : Prop where
  offset : (rs cfaOffColumn).val ≠ longMin
  rbp : (rs (column RBP)).whereSaved = .cfarel → (rs (column RBP)).val = longMin →
    FastReads s.c.validate (rowCfa rs r) ∧
      load64 m (rowCfa rs r) = load64 m (rowCfa rs r + longMin)
  ret : ∀ loc, RowLocates msyncValidate m fuel rs s col loc →
    FastReads s.c.validate (rowCfa rs r - 8) ∧
      load64 m (rowCfa rs r - 8) = if loc = 0 then 0 else load64 m loc

section Unwound

variable {m : Mem} {fuel : ℕ} {rs : RegState} {col : Fin dwarfNumPreservedRegs} {s t : St}
variable {r : TraceRegs} {x : Tracer} {f : FrameInfo}

/-- The value of `RBP` is the word at its location. -/
theorem unwGetReg_rbp_iff {c : Cursor} {val : Word} {g : Lga} :
    (unwGetReg msyncValidate m c 6 g).1 = .ok val ↔
      CanGet c (c.loc RBP) ∧ load64 m (c.loc RBP) = val := by
  have hsaved : IsSaved 6 := ⟨by decide, by decide, by decide⟩
  rw [unwGetReg_saved hsaved]
  exact dwarfGet_msync (c.loc RBP) val g

theorem readReturnAddress_eq_ok {ip : Word} (hcol : s.c.retAddrColumn.toNat = col.val)
    (h : readReturnAddress msyncValidate m s = (.ok ip, t)) :
    ReturnsAt m s.c.validate (s.c.loc col) ip := by
  have hfin : ∀ hlt : s.c.retAddrColumn.toNat < dwarfNumPreservedRegs,
      (⟨s.c.retAddrColumn.toNat, hlt⟩ : Fin dwarfNumPreservedRegs) = col := fun hlt => Fin.ext hcol
  unfold readReturnAddress at h
  rw [Act.get_bind] at h
  split_ifs at h with hlt hnull
  · rw [hfin hlt] at hnull
    exact Or.inl ⟨hnull, (Res.ok.inj (congrArg Prod.fst h)).symm⟩
  · rw [hfin hlt] at hnull h
    obtain ⟨hget, hword⟩ := (dwarfGet_msync _ _ _).mp (congrArg Prod.fst h)
    exact Or.inr ⟨hnull, hget.2, hword⟩
  · cases h

/-- **The return address** of a row that is applied is at the location of its column. -/
theorem applyRegState_returns (h : applyRegState msyncValidate m fuel rs s = (.ok (), t))
    (hcol : s.c.retAddrColumn.toNat = col.val) :
    ReturnsAt m s.c.validate (t.c.loc col) t.c.ip := by
  obtain ⟨w, ip, y, hread, hw, hfinish⟩ := applyRegState_finish h
  obtain ⟨-, hkept⟩ := Prod.mk.inj hw
  obtain ⟨hcolumn, hvalidate⟩ := Prod.mk.inj hkept
  have hcol' : w.c.retAddrColumn.toNat = col.val := by
    rw [hcolumn]
    exact hcol
  have hret := readReturnAddress_eq_ok hcol' hread
  -- reading the return address leaves the locations alone, and so does the end
  have hloc := (readReturnAddress_keeps (f := fun s : St => s.c.loc) (fun _ _ => rfl)
    msyncValidate m).run hread
  obtain ⟨hnew, hrest⟩ := Prod.mk.inj ((finishFrame_keeps rs s.c.ip s.c.cfa).run hfinish)
  have hlocs : t.c.loc = w.c.loc := (Prod.mk.inj hrest).2.trans hloc
  have hip : t.c.ip = ip := hnew
  rw [hlocs, hip, ← hvalidate]
  exact hret

theorem evalCfa_standard (hf : Summary rs f) (hx : AtFrame m col s r x) :
    (evalCfa msyncValidate m fuel rs s).1 = .ok (rowCfa rs r) := by
  unfold evalCfa rowCfa
  rw [Act.get_bind, hf.cfaReg]
  dsimp only
  obtain hbase | hbase := hf.base
  · -- `RBP`
    have hne : ¬(6 : Word) = 7 := by decide
    rw [hbase, if_neg fun h => hne h.1, if_neg hne]
    have hread : Unw.read (fun c => unwGetReg msyncValidate m c 6) s =
        (.ok r.rbp, { s with lga := (unwGetReg msyncValidate m s.c 6 s.lga).2 }) :=
      Prod.ext hx.rbp rfl
    show ((Unw.read (fun c => unwGetReg msyncValidate m c 6) >>= fun cfa =>
      pure (cfa + (rs cfaOffColumn).val)) s).1 = _
    rw [Act.bind_of_ok hread]
    rfl
  · -- `RSP`, which is the old CFA in both cases
    rw [hbase, if_pos rfl, hx.rsp]
    split
    · rfl
    · rfl

/-! #### The fields of a summary -/

theorem Summary.cfaRegOffset (hf : Summary rs f) (hmin : (rs cfaOffColumn).val ≠ longMin) :
    f.cfaRegOffset.signExtend 64 = (rs cfaOffColumn).val := by
  obtain ⟨ip, rfl⟩ := hf.frame
  exact stored_offset (by decide) (by decide) hf.cfaOff hmin

/-- The base of the CFA in the summary is that of the row. -/
theorem Summary.cfa (hf : Summary rs f) (r : TraceRegs) :
    (if f.cfaRegRsp then r.rsp else r.rbp) + (rs cfaOffColumn).val = rowCfa rs r := by
  obtain ⟨ip, rfl⟩ := hf.frame
  unfold rowCfa standardFrame
  by_cases hbase : (rs cfaRegColumn).val = 7
  · rw [if_pos hbase, if_pos (decide_eq_true hbase)]
  · rw [if_neg hbase, if_neg (by simpa using hbase)]

/-- The bit-field makes 0 of `LONG_MIN`. -/
theorem Summary.cfa_ne (hf : Summary rs f) (hmin : (rs cfaOffColumn).val = longMin)
    (r : TraceRegs) :
    (if f.cfaRegRsp then r.rsp else r.rbp) + f.cfaRegOffset.signExtend 64 ≠ rowCfa rs r := by
  have hzero : f.cfaRegOffset.signExtend 64 = 0 := by
    obtain ⟨ip, rfl⟩ := hf.frame
    show ((rs cfaOffColumn).val.setWidth 30).signExtend 64 = 0
    rw [hmin]
    decide
  rw [← hf.cfa r, hzero, hmin]
  intro heq
  exact absurd (add_left_cancel heq) (by decide)

theorem Summary.unsaved (hf : Summary rs f) (hrule : (rs (column RBP)).whereSaved = .same) :
    f.rbpCfaOffset = -1 := by
  obtain ⟨ip, rfl⟩ := hf.frame
  unfold standardFrame
  rw [hrule]
  rfl

theorem Summary.saved (hf : Summary rs f) (hrule : (rs (column RBP)).whereSaved = .cfarel) :
    f.rbpCfaOffset = (rs (column RBP)).val.setWidth 15 := by
  obtain ⟨ip, rfl⟩ := hf.frame
  unfold standardFrame
  rw [hrule]
  rfl

/-- The offset of `RBP` is not taken for the mark of a register that is not saved. -/
theorem Summary.saved_ne (hf : Summary rs f) (hrule : (rs (column RBP)).whereSaved = .cfarel) :
    f.rbpCfaOffset ≠ -1 := by
  rw [hf.saved hrule]
  intro hmark
  obtain hsame | ⟨-, hsmall, hne⟩ := hf.rbp
  · rw [hrule] at hsame
    cases hsame
  by_cases hmin : (rs (column RBP)).val = longMin
  · rw [hmin] at hmark
    exact absurd hmark (by decide)
  · have hoff := stored_offset (by decide) (w := 15) (by decide) hsmall hmin
    rw [hmark] at hoff
    rw [← hoff] at hne
    exact hne (by decide)

/-! #### The replay -/

/-- The location of `RBP` and its word, in the caller. -/
structure CallerRbp (m : Mem) (rs : RegState) (s : St) (r r' : TraceRegs) : Prop where
  same : (rs (column RBP)).whereSaved = .same → r.rbp = r'.rbp
  cfarel : (rs (column RBP)).whereSaved = .cfarel →
    FastReads s.c.validate (rowCfa rs r + (rs (column RBP)).val) ∧
      load64 m (rowCfa rs r + (rs (column RBP)).val) = r'.rbp

/-- What the row gives for the frame. -/
theorem unwound_parts (hf : Summary rs f) (hx : AtFrame m col s r x) {r' : TraceRegs}
    (hr : Unwound m fuel rs s r') :
    r'.cfa = rowCfa rs r ∧ r'.rsp = r'.cfa ∧ CallerRbp m rs s r r' ∧
      ∃ loc, RowLocates msyncValidate m fuel rs s col loc ∧
        ReturnsAt m s.c.validate loc r'.rip := by
  obtain ⟨t, hrun, hrip, hcfa, hrsp, hrbp⟩ := hr
  obtain ⟨cfa, u, w, heval, -, hnew, -⟩ := applyRegState_eq_ok hrun
  have hrow : (evalCfa msyncValidate m fuel rs s).1 = .ok (rowCfa rs r) := evalCfa_standard hf hx
  have hcfaRow : cfa = rowCfa rs r := by
    rw [heval] at hrow
    exact Res.ok.inj hrow
  have hvalidate : t.c.validate = s.c.validate :=
    (Prod.mk.inj (applyRegState_setup.run hrun)).1
  obtain ⟨hget, hword⟩ := unwGetReg_rbp_iff.mp hrbp
  have hlocated := applyRegState_locates hrun RBP
  refine ⟨by rw [hcfa, hnew, hcfaRow], hrsp, ⟨fun hsame => ?_, fun hrel => ?_⟩, t.c.loc col,
    applyRegState_locates hrun col, hrip ▸ applyRegState_returns hrun hx.column⟩
  · -- the location is the old one, and so is the word
    have hold := (unwGetReg_rbp_iff.mp hx.rbp).2
    rw [← hword, hlocated.of_same hsame, hold]
  · rw [hlocated.of_cfarel hrel hrow] at hget hword
    exact ⟨fun hv => hget.2 (hvalidate.trans hv), hword⟩

/-- The replay of `RBP`. -/
theorem savedRbp_iff (hf : Summary rs f) {r' : TraceRegs} (hr : CallerRbp m rs s r r')
    (hcfa : r'.cfa = rowCfa rs r) :
    ((f.rbpCfaOffset ≠ -1 → FastReads s.c.validate (r'.cfa + f.rbpCfaOffset.signExtend 64) ∧
        load64 m (r'.cfa + f.rbpCfaOffset.signExtend 64) = r'.rbp) ∧
      (f.rbpCfaOffset = -1 → r.rbp = r'.rbp)) ↔
      ((rs (column RBP)).whereSaved = .cfarel → (rs (column RBP)).val = longMin →
        FastReads s.c.validate (rowCfa rs r) ∧
          load64 m (rowCfa rs r) = load64 m (rowCfa rs r + longMin)) := by
  rw [hcfa]
  obtain hsame | ⟨hrel, hsmall, -⟩ := hf.rbp
  · have hmark := hf.unsaved hsame
    have hne : ¬(rs (column RBP)).whereSaved = .cfarel := by
      rw [hsame]
      decide
    exact iff_of_true ⟨fun h => absurd hmark h, fun _ => hr.same hsame⟩ fun h => absurd h hne
  · have hne := hf.saved_ne hrel
    obtain ⟨hread, hword⟩ := hr.cfarel hrel
    rw [hf.saved hrel] at hne ⊢
    by_cases hmin : (rs (column RBP)).val = longMin
    · -- the replay reads at the CFA
      have hzero : (longMin.setWidth 15).signExtend 64 = 0 := by decide
      rw [hmin] at hne hword ⊢
      rw [hzero, add_zero, hword]
      exact ⟨fun h _ _ => h.1 hne, fun h => ⟨fun _ => h hrel rfl, fun h' => absurd h' hne⟩⟩
    · have hoff := stored_offset (by decide) (w := 15) (by decide) hsmall hmin
      rw [hoff]
      exact iff_of_true ⟨fun _ => ⟨hread, hword⟩, fun h => absurd h hne⟩ fun _ h => absurd h hmin

end Unwound

/-- **The rule of the return address makes the difference**: a summary fits every frame, if the rule
is relative to the CFA, the slot is not at the null address, and no offset is `LONG_MIN`. -/
theorem summaryFits_of_cfarel {m : Mem} {fuel : ℕ} {rs : RegState}
    {col : Fin dwarfNumPreservedRegs} {f : FrameInfo} {s : St} {r r' : TraceRegs} {x : Tracer}
    (hf : Stashed rs col f) (hx : AtFrame m col s r x) (hr : Unwound m fuel rs s r')
    (hrule : (rs (column col)).whereSaved = .cfarel) (hnull : rowCfa rs r ≠ 8)
    (hcfa : (rs cfaOffColumn).val ≠ longMin) (hrbp : (rs (column RBP)).val ≠ longMin) :
    SummaryFits m fuel rs col s r := by
  have hsum := hf.summary
  obtain ⟨-, -, -, loc, hloc, hret⟩ := unwound_parts hsum hx hr
  have hslot : loc = rowCfa rs r - 8 := by
    rw [hloc.of_cfarel hrule (evalCfa_standard hsum hx), hf.ret_cfarel hrule, sub_eq_add_neg]
  have hne : loc ≠ 0 := by
    rw [hslot]
    exact sub_ne_zero.mpr hnull
  refine ⟨hcfa, fun _ h => absurd h hrbp, fun loc' hloc' => ?_⟩
  rw [← hloc.unique hloc', if_neg hne, ← hslot]
  obtain ⟨h0, -⟩ | ⟨-, hread, -⟩ := hret
  · exact absurd h0 hne
  · exact ⟨hread, rfl⟩

/-- **Replaying a standard frame**: for every row that was summed up in some frame, and every frame
with registers to which the row can be applied, `tdep_trace` computes the return address, the CFA
and the `RBP` that the row gives, if and only if the summary fits the frame. -/
theorem standard_replay_iff {m : Mem} {fuel : ℕ} {rs : RegState} {col : Fin dwarfNumPreservedRegs}
    {f : FrameInfo} {s : St} {r r' : TraceRegs} {x : Tracer} (hf : Stashed rs col f)
    (hx : AtFrame m col s r x) (hr : Unwound m fuel rs s r') :
    (nextFrame msyncValidate f r x).1 = .ok r' ↔ SummaryFits m fuel rs col s r := by
  have hsum := hf.summary
  have hstd : f.frameType = .standard := by
    obtain ⟨ip, rfl⟩ := hsum.frame
    rfl
  obtain ⟨hcfa, hrsp, hrbp, loc, hloc, hrip⟩ := unwound_parts hsum hx hr
  have hsaved := savedRbp_iff hsum hrbp hcfa
  rw [nextFrame_standard_iff hstd, hx.mem, hx.validate]
  constructor
  · rintro ⟨hnew, -, hret, hword, hread, hunsaved⟩
    refine ⟨fun hmin => hsum.cfa_ne hmin r (hnew.symm.trans hcfa),
      hsaved.mp ⟨hread, hunsaved⟩, fun loc' hloc' => ?_⟩
    rw [← hloc.unique hloc', ← hcfa, ← hrip.eq]
    exact ⟨hret, hword⟩
  · intro hfit
    obtain ⟨hret, hword⟩ := hfit.ret loc hloc
    obtain ⟨hread, hunsaved⟩ := hsaved.mpr hfit.rbp
    rw [← hcfa] at hret hword
    refine ⟨?_, hrsp, hret, hword.trans hrip.eq.symm, hread, hunsaved⟩
    rw [hsum.cfaRegOffset hfit.offset, hsum.cfa, hcfa]

/-! ### Two rows -/

/-- A cursor in a frame at CFA `0x20000`, whose `RBP` is saved at `0x30000`. -/
def tracedState : St :=
  { bottomState with c := { bottomCursor with
    stashFrames := true
    frameInfo := unknownFrame 0x10000 } }

/-- `DW_OP_breg6 8`, with its length. -/
def breg6Block : Mem := fun a => if a = 0x9000 then 2 else if a = 0x9001 then 0x76 else
  if a = 0x9002 then 8 else 0

/-- The memory of the frame, with this `RBP` and words at `0x20018` and `0x20118`. -/
def tracedMem (rbp : Word) : Mem :=
  store64 (store64 (store64 breg6Block 0x30000 rbp) 0x20018 0x11000) 0x20118 0x12000

/-- The CFA is `RSP` + 32, with a rule for the return address. -/
def tracedRow (ret : SaveLoc) : RegState :=
  rowOf [(cfaRegColumn, ⟨.reg, 7⟩), (cfaOffColumn, ⟨.undefined, 0x20⟩), (column RIP, ret)]

/-- The caller, after the row is applied. -/
def tracedCaller (ret : SaveLoc) (rbp : Word) : St :=
  (applyRegState msyncValidate (tracedMem rbp) 9 (tracedRow ret) tracedState).2

/-- The summary that is made with `RBP` = `0x20010`. -/
def tracedSummary (ret : SaveLoc) : FrameInfo := (tracedCaller ret 0x20010).c.frameInfo

def tracedRegs (rbp : Word) : TraceRegs := ⟨0x10000, 0x20000, rbp, 0x20000⟩

/-- The tracer at the frame. -/
def atTraced (rbp : Word) : Tracer := ⟨⟨tracedState, tracedMem rbp⟩, bootTrace⟩

theorem atTraced_frame :
    AtFrame (tracedMem 0x20110) RIP tracedState (tracedRegs 0x20110) (atTraced 0x20110) :=
  ⟨rfl, rfl, by decide +kernel, rfl, rfl⟩

/-- With the return address at the CFA minus 8 the summary fits. -/
theorem standard_replay_below_cfa :
    (nextFrame msyncValidate (tracedSummary ⟨.cfarel, -8⟩) (tracedRegs 0x20110)
      (atTraced 0x20110)).1 = .ok ⟨0x11000, 0x20020, 0x20110, 0x20020⟩ := by
  have hfirst : (applyRegState msyncValidate (tracedMem 0x20010) 9 (tracedRow ⟨.cfarel, -8⟩)
      tracedState).1 = .ok () := by decide +kernel
  have hsecond : (applyRegState msyncValidate (tracedMem 0x20110) 9 (tracedRow ⟨.cfarel, -8⟩)
      tracedState).1 = .ok () := by decide +kernel
  have hf : Stashed (tracedRow ⟨.cfarel, -8⟩) RIP (tracedSummary ⟨.cfarel, -8⟩) :=
    ⟨0x10000, msyncValidate, tracedMem 0x20010, 9, tracedState, tracedCaller ⟨.cfarel, -8⟩ 0x20010,
      rfl, rfl, Act.run_of_outcome hfirst, rfl, by decide +kernel, by decide +kernel⟩
  have hr : Unwound (tracedMem 0x20110) 9 (tracedRow ⟨.cfarel, -8⟩) tracedState
      ⟨0x11000, 0x20020, 0x20110, 0x20020⟩ :=
    ⟨tracedCaller ⟨.cfarel, -8⟩ 0x20110, Act.run_of_outcome hsecond, by decide +kernel,
      by decide +kernel, rfl, by decide +kernel⟩
  exact (standard_replay_iff hf atTraced_frame hr).mpr
    (summaryFits_of_cfarel hf atTraced_frame hr rfl (by decide) (by decide) (by decide))

/-- The return address is at `RBP` + 8. When the row is summed up this is the CFA minus 8. In the
next frame it is not, and the replay reads another word. -/
theorem standard_replay_misses :
    Stashed (tracedRow ⟨.expr, 0x9000⟩) RIP (tracedSummary ⟨.expr, 0x9000⟩) ∧
      AtFrame (tracedMem 0x20110) RIP tracedState (tracedRegs 0x20110) (atTraced 0x20110) ∧
      Unwound (tracedMem 0x20110) 9 (tracedRow ⟨.expr, 0x9000⟩) tracedState
        ⟨0x12000, 0x20020, 0x20110, 0x20020⟩ ∧
      (nextFrame msyncValidate (tracedSummary ⟨.expr, 0x9000⟩) (tracedRegs 0x20110)
        (atTraced 0x20110)).1 = .ok ⟨0x11000, 0x20020, 0x20110, 0x20020⟩ := by
  have hfirst : (applyRegState msyncValidate (tracedMem 0x20010) 9 (tracedRow ⟨.expr, 0x9000⟩)
      tracedState).1 = .ok () := by decide +kernel
  have hsecond : (applyRegState msyncValidate (tracedMem 0x20110) 9 (tracedRow ⟨.expr, 0x9000⟩)
      tracedState).1 = .ok () := by decide +kernel
  refine ⟨?_, atTraced_frame, ?_, by decide +kernel⟩
  · exact ⟨0x10000, msyncValidate, tracedMem 0x20010, 9, tracedState,
      tracedCaller ⟨.expr, 0x9000⟩ 0x20010, rfl, rfl, Act.run_of_outcome hfirst, rfl,
      by decide +kernel, by decide +kernel⟩
  · exact ⟨tracedCaller ⟨.expr, 0x9000⟩ 0x20110, Act.run_of_outcome hsecond, by decide +kernel,
      by decide +kernel, rfl, by decide +kernel⟩

end LibunwindKern
