import LibunwindKern.Dwarf.CallSite
import LibunwindKern.Dwarf.CfiRow
import LibunwindKern.Dwarf.FdeRoundTrip
import LibunwindKern.Dwarf.RowLookup
import LibunwindKern.Dwarf.TableSearch
import LibunwindKern.Dyn.InfoList

/-!
# From the bytes of a table to the row of an address

A `Procedure` is what unwind info says: the fields of a CIE and an FDE, and the call-frame
instructions of each. `Procedure.row` is the row that they describe for an address. It does not
mention memory.

`UnwindTableAt` is a search table in memory, with the records of its procedures. The code looks the
address up in the list of registered entries, searches the table, decodes both records, and runs both
programs. `unwindInfoAt_of_table` is the way to the records, and `Decoded.rowOfInfo_eq` the way from
there to the row.

The three parts are tied together by the data that the programs are read with. A program may hold
pointers, and those are relative to what the decoder has found. `ProgramAt.congr` says that this does
not matter, because a plain encoding is not relative to the procedure.
-/

namespace LibunwindKern

open CProg ByteMem BinarySearch Unw

/-! ### Layouts and the procedure info -/

section Congr

variable {m : Mem} {pi pi' : ProcInfo} {dci dci' : CieInfo} {e e' : PtrEnc} {c : CieSpec}
  {f : FdeFields} {a b cieAddr instr : Word}

theorem PtrEnc.Plain.of_byte (h : e.Plain) (hbyte : e'.byte = e.byte) : e'.Plain := by
  obtain ⟨-, -, hformat, happl, -⟩ := e.byte_spec
  obtain ⟨-, -, hformat', happl', -⟩ := e'.byte_spec
  rw [hbyte, hformat] at hformat'
  rw [hbyte, happl] at happl'
  constructor
  · intro hsleb
    rw [hsleb] at hformat'
    refine h.1 ?_
    cases hf : e.format <;> rw [hf] at hformat' <;> first | rfl | exact absurd hformat' (by decide)
  · intro hfun
    rw [hfun] at happl'
    refine h.2 ?_
    cases hf : e.appl <;> rw [hf] at happl' <;> first | rfl | exact absurd happl' (by decide)

/-- An instruction whose pointers are plain is the same for every procedure. -/
theorem InstrAt.congr {i : CfaInstr} (hgp : pi.gp = pi'.gp) (hplain : e.Plain)
    (henc : dci.fdeEncoding = e.byte) (henc' : dci'.fdeEncoding = e.byte)
    (h : InstrAt m pi dci a i b) : InstrAt m pi' dci' a i b := by
  cases h with
  | setLoc hop hbyte hptr =>
    have hsame := hbyte.symm.trans henc
    exact .setLoc hop (henc'.trans hsame.symm) (hptr.congr hgp (hplain.of_byte hsame))
  | setLocAligned hop hbyte => exact absurd (henc.symm.trans hbyte) e.byte_spec.2.1
  | advanceLoc delta hop => exact .advanceLoc delta hop
  | offset op hop hreg hoff => exact .offset op hop hreg hoff
  | restore op hop hreg => exact .restore op hop hreg
  | nop hop => exact .nop hop
  | advanceLoc1 hop => exact .advanceLoc1 hop
  | advanceLoc2 hop => exact .advanceLoc2 hop
  | advanceLoc4 hop => exact .advanceLoc4 hop
  | offsetExtended hop hreg hoff => exact .offsetExtended hop hreg hoff
  | restoreExtended hop hreg => exact .restoreExtended hop hreg
  | undefined hop hreg => exact .undefined hop hreg
  | sameValue hop hreg => exact .sameValue hop hreg
  | register hop hreg hval => exact .register hop hreg hval
  | rememberState hop => exact .rememberState hop
  | restoreState hop => exact .restoreState hop
  | defCfa hop hreg hoff => exact .defCfa hop hreg hoff
  | defCfaRegister hop hreg => exact .defCfaRegister hop hreg
  | defCfaOffset hop hoff => exact .defCfaOffset hop hoff
  | defCfaExpression hop hblock => exact .defCfaExpression hop hblock
  | expression hop hreg hblock => exact .expression hop hreg hblock
  | offsetExtendedSf hop hreg hoff => exact .offsetExtendedSf hop hreg hoff
  | defCfaSf hop hreg hoff => exact .defCfaSf hop hreg hoff
  | defCfaOffsetSf hop hoff => exact .defCfaOffsetSf hop hoff
  | gnuArgsSize hop hval => exact .gnuArgsSize hop hval
  | gnuNegativeOffsetExtended hop hreg hoff => exact .gnuNegativeOffsetExtended hop hreg hoff

theorem ProgramAt.congr {prog : List CfaInstr} (hgp : pi.gp = pi'.gp) (hplain : e.Plain)
    (henc : dci.fdeEncoding = e.byte) (henc' : dci'.fdeEncoding = e.byte)
    (h : ProgramAt m pi dci b a prog) : ProgramAt m pi' dci' b a prog := by
  induction h with
  | nil => exact .nil
  | cons hinstr hlt _ ih => exact .cons (hinstr.congr hgp hplain henc henc') hlt ih

theorem AugAt.congr {cs : List AugChar} (hgp : pi.gp = pi'.gp) (hplain : c.handlerEnc.Plain)
    (h : AugAt m pi c a cs b) : AugAt m pi' c a cs b := by
  induction h with
  | nil a => exact .nil a
  | personality henc hptr _ ih => exact .personality henc (hptr.congr hgp hplain) ih
  | lsda henc _ ih => exact .lsda henc ih
  | code henc _ ih => exact .code henc ih
  | signal _ ih => exact .signal ih

theorem CieAt.congr (hgp : pi.gp = pi'.gp) (hplain : c.handlerEnc.Plain)
    (h : CieAt m pi c a b instr) : CieAt m pi' c a b instr := by
  obtain ⟨hrec, hversion, hstring, hcodeAddr, hcode, hdata, hcolAddr, hcol, haug⟩ := h
  refine .mk hrec hversion hstring hcodeAddr hcode hdata hcolAddr hcol ?_
  unfold AugmentationAt at haug ⊢
  cases horder : c.order with
  | none => rwa [horder] at haug
  | some order =>
    rw [horder] at haug
    obtain ⟨size, width, hsize, hinstr, hchars⟩ := haug
    exact ⟨size, width, hsize, hinstr, hchars.congr hgp hplain⟩

theorem FdeAt.congr (hgp : pi.gp = pi'.gp) (hwf : c.WellFormed)
    (h : FdeAt m pi c f a b cieAddr instr) : FdeAt m pi' c f a b cieAddr instr := by
  obtain ⟨hrec, hid, hcie, hstart, hrange, haug⟩ := h
  have hplain := hwf.codeEncOf_plain c.chars
  refine .mk hrec hid hcie (hstart.congr hgp hplain) (hrange.congr hgp ⟨hplain.1, nofun⟩) ?_
  unfold FdeAugmentationAt at haug ⊢
  cases horder : c.order with
  | none => rwa [horder] at haug
  | some order =>
    rw [horder] at haug
    obtain ⟨size, width, hsize, hinstr, hlsda⟩ := haug
    refine ⟨size, width, hsize, hinstr, ?_⟩
    -- the pointer to the LSDA is there if the string has an `L`
    split at hlsda
    · next hL =>
      obtain ⟨raw, w, hptr⟩ := hlsda
      rw [if_pos hL]
      exact ⟨raw, w, hptr.congr hgp hwf.lsdaEnc⟩
    · next hL =>
      rw [if_neg hL]
      exact hlsda

/-- A plain encoding is read right. -/
theorem PtrEnc.Plain.not_misread {i : CfaInstr} (h : e.Plain) (henc : dci.fdeEncoding = e.byte) :
    ¬i.Misread dci := by
  intro hmisread
  cases i with
  | setLoc loc raw width =>
    have hsleb := hmisread.1
    rw [henc, e.byte_spec.2.2.1] at hsleb
    refine h.1 ?_
    cases hf : e.format <;> rw [hf] at hsleb <;> first | rfl | exact absurd hsleb (by decide)
  | _ => exact hmisread

end Congr

/-! ### Rows and the factors of a CIE -/

section Rows

variable {dci dci' : CieInfo} (hcode : dci.codeAlign = dci'.codeAlign)
  (hdata : dci.dataAlign = dci'.dataAlign) (rsInitial : RegState)

include hcode hdata

theorem CfaInstr.rule_congr (i : CfaInstr) (r : Row) :
    i.rule dci rsInitial r = i.rule dci' rsInitial r := by
  cases i <;> simp only [CfaInstr.rule, hcode, hdata]

theorem executed_congr (ip : Word) (prog : List CfaInstr) :
    ∀ r, executed dci rsInitial ip r prog = executed dci' rsInitial ip r prog := by
  induction prog with
  | nil => intro r; rfl
  | cons i prog ih =>
    intro r
    unfold executed
    rw [CfaInstr.rule_congr hcode hdata, ih]

/-- A row depends on the factors of the CIE only. -/
theorem rowAt_congr (ip : Word) (r : Row) (prog : List CfaInstr) :
    rowAt dci rsInitial ip r prog = rowAt dci' rsInitial ip r prog := by
  unfold rowAt
  rw [executed_congr hcode hdata]
  congr 1
  funext r i
  exact CfaInstr.rule_congr hcode hdata rsInitial i r

end Rows

/-- Up to the last address the whole program is executed. -/
theorem executed_allOnes (dci : CieInfo) (rsInitial : RegState) (prog : List CfaInstr) :
    ∀ r, executed dci rsInitial (BitVec.allOnes 64) r prog = prog := by
  induction prog with
  | nil => intro r; rfl
  | cons i prog ih =>
    intro r
    unfold executed
    have hle : r.loc ≤ BitVec.allOnes 64 := by
      rw [BitVec.le_def, BitVec.toNat_allOnes]
      exact Nat.le_sub_one_of_lt r.loc.isLt
    rw [if_pos hle, ih]

/-! ### Procedures -/

/-- The data of a CIE that the programs are read and executed with. -/
def CieSpec.info (c : CieSpec) : CieInfo :=
  { CieInfo.zero with
    codeAlign := c.codeAlign
    dataAlign := c.dataAlign
    fdeEncoding := (c.codeEncOf c.chars).byte }

/-- A procedure with its unwind info: what is encoded in a CIE and an FDE, where the two are, and
their instructions. -/
structure Procedure where
  cieAddr : Word
  fdeAddr : Word
  cie : CieSpec
  fde : FdeFields
  cieProgram : List CfaInstr
  fdeProgram : List CfaInstr
  deriving DecidableEq

namespace Procedure

/-- The end of the code. -/
def endIp (p : Procedure) : Word := p.fde.startIp + p.fde.ipRange

/-- The code contains an address. -/
def Covers (p : Procedure) (ip : Word) : Prop := p.fde.startIp ≤ ip ∧ ip < p.endIp

instance (p : Procedure) (ip : Word) : Decidable (p.Covers ip) :=
  inferInstanceAs (Decidable (_ ∧ _))

/-- The handler that the CIE names. -/
def handler (p : Procedure) : Word := if .personality ∈ p.cie.chars then p.cie.handler else 0

/-- The procedure has the row of a signal frame. -/
def signal (p : Procedure) : Bool := decide (.signal ∈ p.cie.chars)

/-- The row that the CIE describes. The registers start out unchanged. -/
def initialRow (p : Procedure) : RegState :=
  (p.cieProgram.foldl (fun r i => CfaInstr.rule p.cie.info (fun _ => ⟨.undefined, 0⟩) i r)
    (⟨p.fde.startIp, fun _ => ⟨.same, 0⟩, []⟩ : Row)).regs

/-- **The row that the procedure describes** for an address. -/
def row (p : Procedure) (ip : Word) : RegState :=
  (rowAt p.cie.info p.initialRow ip ⟨p.fde.startIp, p.initialRow, []⟩ p.fdeProgram).regs

/-- What the decoder can handle: plain pointers, no more than four characters of augmentation, the
return address in the column of `RIP`, and no row restored that was not remembered. -/
structure WellFormed (p : Procedure) : Prop where
  cie : p.cie.WellFormed
  short : p.cie.augstr.length ≤ 4
  column : p.cie.retAddrColumn = 16
  cieMatched : Matched 0 p.cieProgram
  fdeMatched : Matched 0 p.fdeProgram

/-- The entry of the procedure in a search table. -/
def entry (p : Procedure) : Word × FdeInfo :=
  (p.fdeAddr, ⟨p.fde.startIp, p.endIp, p.fde.lsda, p.handler, p.cieAddr⟩)

end Procedure

/-- The unwind info of a procedure in memory: both records, and their instructions up to their
ends. -/
inductive ProcedureAt (m : Mem) (gp : Word) (p : Procedure) : Prop
  | mk {cieEnd cieInstr fdeEnd fdeInstr : Word}
      (hcie : CieAt m (freshPi gp) p.cie p.cieAddr cieEnd cieInstr)
      (hfde : FdeAt m (freshPi gp) p.cie p.fde p.fdeAddr fdeEnd p.cieAddr fdeInstr)
      (hcieProgram : ProgramAt m (freshPi gp) p.cie.info cieEnd cieInstr p.cieProgram)
      (hfdeProgram : ProgramAt m (freshPi gp) p.cie.info fdeEnd fdeInstr p.fdeProgram) :
      ProcedureAt m gp p

/-- A procedure info that reports the procedure. -/
structure InfoFor (p : Procedure) (gp : Word) (pi : ProcInfo) : Prop where
  startIp : pi.startIp = p.fde.startIp
  endIp : pi.endIp = p.endIp
  lsda : pi.lsda = p.fde.lsda
  handler : pi.handler = p.handler
  gp : pi.gp = gp

/-- A procedure info with the unwind info of the procedure. -/
structure Decoded (m : Mem) (p : Procedure) (pi : ProcInfo) (dci : CieInfo) : Prop where
  startIp : pi.startIp = p.fde.startIp
  format : pi.format = .table
  unwindInfo : pi.unwindInfo = .cie dci
  codeAlign : dci.codeAlign = p.cie.codeAlign
  dataAlign : dci.dataAlign = p.cie.dataAlign
  retAddrColumn : dci.retAddrColumn = p.cie.retAddrColumn
  fdeEncoding : dci.fdeEncoding = (p.cie.codeEncOf p.cie.chars).byte
  signalFrame : dci.signalFrame = p.signal
  cieProgram : ProgramAt m pi dci dci.cieInstrEnd dci.cieInstrStart p.cieProgram
  fdeProgram : ProgramAt m pi dci dci.fdeInstrEnd dci.fdeInstrStart p.fdeProgram

/-! ### The records -/

section Records

variable {m : Mem} {gp : Word} {p : Procedure} {s t : FdeState}

/-- A CIE with a short augmentation string is read to the end of its augmentation. -/
theorem parseCie_of_short {pi : ProcInfo} {c : CieSpec} {a b instr : Word} (hwf : c.WellFormed)
    (hshort : c.augstr.length ≤ 4) (h : CieAt m pi c a b instr) :
    parseCie m pi 0 a = (.ok { cieData c b c.chars with cieInstrStart := instr }, instr) := by
  obtain ⟨stop, hrest, hparse⟩ := parseCie_of_cieAt hwf h
  have hchars := c.chars_length_le_of_augstr hshort
  -- no character is left over
  rw [List.drop_eq_nil_of_le hchars] at hrest
  cases hrest
  rwa [List.take_of_length_le hchars] at hparse

/-- A decoder that is not asked for unwind info finds the same procedure, and leaves out what it would
have written for the unwind info. -/
theorem fdeBody_of_true {fdeEnd cieAddr : Word} (h : fdeBody m true 0 fdeEnd cieAddr s = (.ok (), t)) :
    ∃ u info, fdeBody m false 0 fdeEnd cieAddr s = (.ok (), u) ∧ u.pi.gp = s.pi.gp ∧
      u.pi.format = s.pi.format ∧
      t.pi = { u.pi with
        format := .table, unwindInfoSize := sizeofCieInfo, unwindInfo := info } := by
  unfold fdeBody at h
  rw [Act.get_bind] at h
  obtain ⟨dci, s₁, hcie, h⟩ := Act.bind_eq_ok h
  obtain ⟨-, rfl⟩ := Prod.mk.inj hcie
  obtain ⟨⟨⟩, s₂, hrange, h⟩ := Act.bind_eq_ok h
  obtain ⟨augEnd, s₃, haug, h⟩ := Act.bind_eq_ok h
  obtain ⟨⟨⟩, s₄, hlsda, h⟩ := Act.bind_eq_ok h
  rw [if_pos rfl] at h
  obtain ⟨abi, tag, addr, hrun, -⟩ := fdeUnwindInfo_run (m := m) dci fdeEnd augEnd s₄
  rw [hrun] at h
  obtain ⟨-, rfl⟩ := Prod.mk.inj h
  -- neither the range nor the LSDA is the base of data pointers
  let base : FdeState → Word × InfoFormat := fun s => (s.pi.gp, s.pi.format)
  have hrange' : Act.Keeps base (fdeRange m dci) :=
    Act.Keeps.bind Act.Keeps.get fun _ => Act.Keeps.bind (fun _ => rfl) fun _ =>
      Act.Keeps.bind (fun _ => rfl) fun _ => Act.Keeps.modify fun _ => rfl
  have haug' : Act.Keeps base (fdeAugmentationEnd m dci) := by
    unfold fdeAugmentationEnd
    split
    · exact Act.Keeps.bind (fun _ => rfl) fun _ => Act.Keeps.bind Act.Keeps.get fun _ =>
        Act.Keeps.pure _
    · exact Act.Keeps.pure _
  have hlsda' : Act.Keeps base (fdeLsda m dci) :=
    Act.Keeps.bind Act.Keeps.get fun _ => Act.Keeps.bind (fun _ => rfl) fun _ =>
      Act.Keeps.modify fun _ => rfl
  have hbase : base s₄ = base s :=
    (hlsda'.run hlsda).trans ((haug'.run haug).trans (hrange'.run hrange))
  obtain ⟨hgp, hformat⟩ := Prod.mk.inj hbase
  refine ⟨s₄, _, ?_, hgp, hformat, rfl⟩
  unfold fdeBody
  rw [Act.get_bind, Act.bind_of_ok hcie, Act.bind_of_ok hrange, Act.bind_of_ok haug,
    Act.bind_of_ok hlsda]
  rfl

/-- **Both records are decoded**, whatever the procedure info holds. -/
theorem extractAt_of_procedureAt (hwf : p.WellFormed) (h : ProcedureAt m gp p) {q : PiState}
    (hgp : q.pi.gp = gp) (need : Bool) :
    ∃ q', extractAt m need 0 p.fdeAddr q = (.ok (), q') ∧ InfoFor p gp q'.pi ∧
      (q'.pi.format = .table ∨ q'.pi.format = q.pi.format) ∧
      (need = true → ∃ dci, Decoded m p q'.pi dci) := by
  obtain @⟨cieEnd, cieInstr, fdeEnd, fdeInstr, hcie, hfde, hcieProgram, hfdeProgram⟩ := h
  have hcie := hcie.congr hgp.symm hwf.cie.handlerEnc
  obtain @⟨_, _, body, _, _, _, _, hrec, hid, hcieAddr, hstart, hrange, haug⟩ :=
    hfde.congr hgp.symm hwf.cie
  have hparse := parseCie_of_short hwf.cie hwf.short hcie
  obtain ⟨t, dci, hbody, hinfo, hrec'⟩ := extractFde_recovers
    (s := ⟨p.fdeAddr, p.fdeAddr, q.pi, q.pool⟩) (b := fdeEnd) hwf.cie hparse hstart hrange haug
  obtain ⟨u, info, hbody', hgp', hformat, hpi⟩ := fdeBody_of_true hbody
  have hbase : t.pi.gp = gp := by
    rw [hpi]
    exact hgp'.trans hgp
  have hfound : InfoFor p gp t.pi :=
    ⟨hrec'.startIp, hrec'.endIp, hrec'.lsda, hrec'.handler, hbase⟩
  have hrun : ∀ {b : Bool} {w : FdeState},
      fdeBody m b 0 fdeEnd p.cieAddr ⟨body, fdeEnd, q.pi, q.pool⟩ = (.ok (), w) →
        extractAt m b 0 p.fdeAddr q = (.ok (), ⟨w.pi, w.pool⟩) := by
    intro b w hw
    unfold extractAt
    rw [Act.zoom_apply, extractFde_of_fde b hrec hid rfl, ← hcieAddr, hw]
  cases need with
  | false =>
    refine ⟨⟨u.pi, u.pool⟩, hrun hbody', ?_, Or.inr hformat, nofun⟩
    rw [hpi] at hfound
    exact ⟨hfound.startIp, hfound.endIp, hfound.lsda, hfound.handler, hfound.gp⟩
  | true =>
    have htable : t.pi.format = .table := by rw [hpi]
    have hplain := hwf.cie.codeEncOf_plain p.cie.chars
    have hfresh : (freshPi gp).gp = t.pi.gp := hbase.symm
    refine ⟨⟨t.pi, t.pool⟩, hrun hbody, hfound, Or.inl htable, fun _ => ⟨dci, hrec'.startIp, htable,
      hinfo, hrec'.codeAlign, hrec'.dataAlign, hrec'.retAddrColumn, hrec'.fdeEncoding,
      hrec'.signalFrame, ?_, ?_⟩⟩
    · rw [hrec'.cieInstrEnd, hrec'.cieInstrStart]
      exact hcieProgram.congr hfresh hplain rfl hrec'.fdeEncoding
    · rw [hrec'.fdeInstrEnd, hrec'.fdeInstrStart]
      exact hfdeProgram.congr hfresh hplain rfl hrec'.fdeEncoding

end Records

/-! ### The programs -/

section Programs

variable {m : Mem} {p : Procedure} {pi : ProcInfo} {dci : CieInfo} {fuel : ℕ}

/-- A run of a program makes the row that it describes. -/
theorem runCfiProgram_of_programAt {prog : List CfaInstr} {a e : Word} {enc : PtrEnc}
    (h : ProgramAt m pi dci e a prog) (hmatched : Matched 0 prog) (hplain : enc.Plain)
    (henc : dci.fdeEncoding = enc.byte) (hfuel : prog.length < fuel) (ip : Word) (s : RowState) :
    ∃ t, runCfiProgram m pi dci fuel ip a e s = (.ok (), t) ∧
      t.sr.rsCurrent =
        (rowAt dci s.sr.rsInitial ip ⟨pi.startIp, s.sr.rsCurrent, []⟩ prog).regs := by
  obtain ⟨hok, hrow⟩ := cfiLoop_of_programAt h fuel (CfiState.init pi a s) hfuel rfl hmatched
    fun i _ => hplain.not_misread henc
  refine ⟨(cfiLoop m pi dci fuel ip e (CfiState.init pi a s)).2.finish, ?_, congrArg Row.regs hrow⟩
  unfold runCfiProgram
  rw [Act.zoom_apply, hok]

/-- **The row** that is made for a procedure is the one that it describes. -/
theorem Decoded.rowOfInfo_eq (h : Decoded m p pi dci) (hwf : p.WellFormed)
    (hcie : p.cieProgram.length < fuel) (hfde : p.fdeProgram.length < fuel) (ip : Word) :
    rowOfInfo m fuel pi ip = .ok (p.row ip) := by
  have hplain := hwf.cie.codeEncOf_plain p.cie.chars
  -- the rows depend on what the CIE says only
  have hfactors : ∀ rs ip r prog, rowAt dci rs ip r prog = rowAt p.cie.info rs ip r prog :=
    rowAt_congr h.codeAlign h.dataAlign
  obtain ⟨t₁, hrun₁, hrow₁⟩ := runCfiProgram_of_programAt h.cieProgram hwf.cieMatched hplain
    h.fdeEncoding hcie (BitVec.allOnes 64) (rowStart (blankSt pi))
  obtain ⟨t₂, hrun₂, hrow₂⟩ := runCfiProgram_of_programAt h.fdeProgram hwf.fdeMatched hplain
    h.fdeEncoding hfde ip { t₁ with sr := t₁.sr.setInitial }
  have hinitial : t₁.sr.rsCurrent = p.initialRow := by
    rw [hrow₁, h.startIp, hfactors]
    unfold rowAt
    rw [executed_allOnes]
    rfl
  have hcurrent : t₂.sr.rsCurrent = p.row ip := by
    rw [hrow₂, h.startIp, hfactors]
    show (rowAt _ t₁.sr.rsCurrent _ ⟨_, t₁.sr.rsCurrent, _⟩ _).regs = _
    rw [hinitial]
    rfl
  have hprograms : parseFdePrograms m pi dci fuel ip (rowStart (blankSt pi)) = (.ok (), t₂) := by
    unfold parseFdePrograms
    rw [Act.bind_of_ok hrun₁, Act.modify_bind]
    exact hrun₂
  unfold rowOfInfo
  rw [createStateRecordFor_eq rfl (Or.inl h.format)]
  unfold parseFde
  have hinfo : (blankSt pi).c.pi.unwindInfo = .cie dci := h.unwindInfo
  rw [Act.get_bind, hinfo]
  simp only [setCursor_bind]
  rw [Act.zoom_apply]
  have hrun := Act.bind_of_ok (f := fun _ => Act.get >>= fun w : RowState => pure w.sr) hprograms
  unfold rowStart at hrun
  rw [show (parseFdePrograms m (blankSt pi).c.pi dci fuel ip >>= fun _ =>
    Act.get >>= fun w : RowState => pure w.sr) _ = _ from hrun, ← hcurrent]
  rfl

end Programs

/-! ### The table -/

/-- A search table of procedures, one behind the other, with their records. It is what the registered
entry `di` points to. -/
inductive UnwindTableAt (m : Mem) (di : DynInfo) (procs : List Procedure) : Prop
  | mk {segbase tableLen table : Word} (hdi : di.u = .remoteTable segbase tableLen table)
      (hlen : (tableLen * 8).toNat = 8 * procs.length)
      (htable : TableAt m table segbase (procs.map Procedure.entry))
      (hbehind : procs.Pairwise fun p q => p.endIp ≤ q.fde.startIp)
      (hspan : ∀ p ∈ procs, di.startIp ≤ p.fde.startIp ∧ p.endIp ≤ di.endIp)
      (hnear : ∀ p ∈ procs, ∀ ip, p.Covers ip → Fits32 (distance segbase ip))
      (hprocs : ∀ p ∈ procs, p.WellFormed ∧ ProcedureAt m di.gp p) : UnwindTableAt m di procs

/-- The entry is in the list, and no entry that was registered after it is for the same code. -/
def Registered (k : Kernel) (di : DynInfo) : Prop :=
  ∃ newer older, k.dynInfoList = newer ++ di :: older ∧
    ∀ d ∈ newer, ∀ ip, di.Covers ip → ¬d.Covers ip

section Table

variable {k : Kernel} {m : Mem} {di : DynInfo} {procs : List Procedure} {p : Procedure} {addr : Word}

theorem UnwindTableAt.wellFormed (h : UnwindTableAt m di procs) (hp : p ∈ procs) :
    p.WellFormed := by
  obtain ⟨-, -, -, -, -, -, hprocs⟩ := h
  exact (hprocs p hp).1

theorem UnwindTableAt.covers (h : UnwindTableAt m di procs) (hp : p ∈ procs)
    (hcov : p.Covers addr) : di.Covers addr := by
  obtain ⟨-, -, -, -, hspan, -, -⟩ := h
  obtain ⟨hstart, hend⟩ := hspan p hp
  refine ⟨BitVec.le_trans hstart hcov.1, BitVec.lt_def.2 ?_⟩
  exact Nat.lt_of_lt_of_le (BitVec.lt_def.1 hcov.2) (BitVec.le_def.1 hend)

/-- **The table** has the entry of the procedure where the search looks. -/
theorem UnwindTableAt.search (h : UnwindTableAt m di procs) (hp : p ∈ procs) (hcov : p.Covers addr)
    {need : Bool} {q q' : PiState} (hrun : extractAt m need 0 p.fdeAddr q = (.ok (), q'))
    (hfound : InfoFor p di.gp q'.pi) : dwarfSearchUnwindTable m addr di need q = (.ok (), q') := by
  have hin : di.startIp ≤ addr ∧ addr < di.endIp := h.covers hp hcov
  obtain @⟨segbase, tableLen, table, hdi, hlen, htable, hbehind, -, hnear, -⟩ := h
  -- the lookup goes to the last entry that does not start behind the address
  rw [← List.length_map (f := Procedure.entry)] at hlen
  obtain ⟨r, hr, hlookup⟩ := unwLookup_boundary htable (hnear p hp addr hcov) hlen
  have hpairwise : (procs.map Procedure.entry).Pairwise fun x y =>
      x.2.endIp.toNat ≤ entryStart y :=
    List.pairwise_map.2 (hbehind.imp fun hle => BitVec.le_def.1 hle)
  obtain ⟨hne, hentry⟩ := getElem_of_contains (i := p.entry) hpairwise hr (List.mem_map_of_mem hp)
    (BitVec.le_def.1 hcov.1) (BitVec.lt_def.1 hcov.2)
  rw [if_neg hne] at hlookup
  have hformat : di.format = .remoteTable := by
    unfold DynInfo.format
    rw [hdi]
  unfold dwarfSearchUnwindTable
  rw [hformat, if_neg (fun h => h.1 rfl), if_neg (not_not_intro hin), hdi]
  show searchTable m addr .remoteTable table (tableLen * 8) 0 segbase need q = _
  rw [searchTable_eq hlookup, tableFde_entry htable hentry]
  refine (Act.bind_of_ok hrun).trans ?_
  -- the range that was decoded has the address
  have hrange : ¬(addr < q'.pi.startIp ∨ q'.pi.endIp ≤ addr) := by
    rw [hfound.startIp, hfound.endIp, not_or]
    exact ⟨BitVec.not_lt.2 hcov.1, BitVec.not_le.2 hcov.2⟩
  show (if addr < q'.pi.startIp ∨ q'.pi.endIp ≤ addr then Act.fail UnwError.enoinfo
    else pure ()) q' = _
  rw [if_neg hrange]
  rfl

/-- **The search** of the registered entries finds the procedure that the address is in, as it was
encoded. -/
theorem unwiFindDynamicProcInfo_of_table (hreg : Registered k di) (h : UnwindTableAt m di procs)
    (hp : p ∈ procs) (hcov : p.Covers addr) (need : Bool) (q : PiState) :
    ∃ q', unwiFindDynamicProcInfo k m addr need q = (.ok (), q') ∧ InfoFor p di.gp q'.pi ∧
      q'.pi.format ≠ .armExidx ∧ (need = true → ∃ dci, Decoded m p q'.pi dci) := by
  obtain ⟨newer, older, hlist, hnewer⟩ := hreg
  have hdi := h.covers hp hcov
  obtain ⟨hu, hwf, hat⟩ : (∃ segbase tableLen table, di.u = .remoteTable segbase tableLen table) ∧
      p.WellFormed ∧ ProcedureAt m di.gp p := by
    obtain ⟨hu, -, -, -, -, -, hprocs⟩ := id h
    exact ⟨⟨_, _, _, hu⟩, hprocs p hp⟩
  obtain ⟨segbase, tableLen, table, hu⟩ := hu
  obtain ⟨q', hrun, hfound, hformat, hdecoded⟩ := extractAt_of_procedureAt hwf hat
    (q := ⟨{ q.pi with
      startIp := di.startIp, endIp := di.endIp, gp := di.gp, format := di.format }, q.pool⟩) rfl need
  have hremote : di.format = .remoteTable := by
    unfold DynInfo.format
    rw [hu]
  refine ⟨q', ?_, hfound, ?_, hdecoded⟩
  · unfold unwiFindDynamicProcInfo
    rw [hlist, localFindProcInfo_append (fun d hd => hnewer d hd addr hdi) hdi]
    unfold unwiExtractDynamicProcInfo
    rw [Act.modify_bind, hu]
    exact h.search hp hcov hrun hfound
  · obtain hf | hf := hformat
    · rw [hf]
      decide
    · rw [hf]
      show di.format ≠ .armExidx
      rw [hremote]
      decide

/-- **`fetch_proc_info`**, when it looks the address up. -/
theorem fetchProcInfo_of_table (hreg : Registered k di) (h : UnwindTableAt m di procs) (hp : p ∈ procs)
    {need : Bool} {ip : Word} {s : St} (hneed : need = true ∨ s.c.piValid = false)
    (hcov : p.Covers (lookupIp s.c ip)) :
    ∃ q, fetchProcInfo k m ip need s = (.ok (), cached need true (withPi s q)) ∧
      InfoFor p di.gp q.pi ∧ (need = true → ∃ dci, Decoded m p q.pi dci) := by
  obtain ⟨q, hfind, hfound, hformat, hdecoded⟩ := unwiFindDynamicProcInfo_of_table hreg h hp hcov need
    ⟨ProcInfo.zero, s.ciePool⟩
  refine ⟨q, ?_, hfound, hdecoded⟩
  have hrun : onPi (unwiFindDynamicProcInfo k m (lookupIp s.c ip) need)
      (withPi s ⟨ProcInfo.zero, s.ciePool⟩) = (.ok (), withPi s q) := by
    rw [onPi_withPi, hfind]
  rw [fetchProcInfo_eq hneed]
  refine (Act.bind_of_ok (Act.attempt_of_ok hrun)).trans ?_
  rw [if_neg (by simp)]
  exact (fetchDone_of_format need true (.ok ()) hformat).trans rfl

/-- **The unwind info of an address** is what was encoded for the procedure. -/
theorem unwindInfoAt_of_table (hreg : Registered k di) (h : UnwindTableAt m di procs) (hp : p ∈ procs)
    (hcov : p.Covers addr) :
    ∃ pi dci, unwindInfoAt k m addr = .ok pi ∧ Decoded m p pi dci := by
  obtain ⟨q, hfetch, -, hdecoded⟩ := fetchProcInfo_of_table hreg h hp 
    (s := blankSt ProcInfo.zero) (Or.inl rfl) hcov
  obtain ⟨dci, hdecoded⟩ := hdecoded rfl
  refine ⟨q.pi, dci, ?_, hdecoded⟩
  unfold unwindInfoAt
  rw [Act.bind_of_ok hfetch]
  rfl

end Table

end LibunwindKern
