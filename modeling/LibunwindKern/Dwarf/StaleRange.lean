import LibunwindKern.Dwarf.LinearSearch
import LibunwindKern.Dwarf.Ownership

/-!
# The range that a linear search tests

`linear_search` decodes one record after the other into the same `*pi`, and after each record that
is decoded without an error it tests whether the range in `*pi` contains the address. A CIE is
decoded without an error, and writes nothing. So the test behind a CIE is on a range that is left
over: from an FDE before it, which may have failed after its range was written, or from the
caller's structure, which `_Unwind_FindEnclosingFunction` does not initialise.

* `extract_record`: what a record does to `*pi` is the same from any `*pi` with this `gp`. It has an
  outcome, the end of the record, and the range that it writes, if it writes one.
* `NoStaleRange` is the condition on the records of a section: no test behind a CIE can succeed.
* `linearSearch_section_iff`: it is exactly the condition under which the search depends on the
  section alone, and finds nothing but FDEs.
-/

namespace LibunwindKern

open CProg ByteMem

/-! ### One record -/

/-- The variables before the record at `a` is decoded, with nothing but `gp` in `*pi`. -/
def recordStart (gp a : Word) : FdeState := ⟨a, a, freshPi gp, ⟨0, 0⟩⟩

/-- The address that a search goes on with after the record at `a`. -/
def nextRecord (m : Mem) (gp a : Word) : Word := (fdeHeader m 0 (recordStart gp a)).2.addrp

/-- The part of an FDE behind its header, up to the write of the code range. -/
def bodyUpToRange (m : Mem) (cieAddr : Word) : Act UnwError FdeState (Word × Word) := do
  let s ← Act.get
  let dci ← Act.lift (parseCie m s.pi 0 cieAddr).1
  fdeRange m dci
  let t ← Act.get
  pure t.pi.range

/-- The part of a record up to the write of the code range, which a CIE does not have. -/
def recordUpToRange (m : Mem) : Act UnwError FdeState (Word × Word) := do
  let h ← fdeHeader m 0
  match h.2 with
  | none => Act.fail .enoinfo
  | some cieAddr => bodyUpToRange m cieAddr

/-- The code range that the record at `a` writes to `*pi`, if it comes that far. -/
def writtenRange (m : Mem) (gp a : Word) : Option (Word × Word) :=
  (recordUpToRange m (recordStart gp a)).1.toOption

/-- The outcome of the record at `a`. -/
def recordOutcome (m : Mem) (gp a : Word) : Res UnwError Unit :=
  (dwarfExtractProcInfoFromFde m false 0 (recordStart gp a)).1

/-- The code pointers of the record at `a` are not relative to the function, if it is an FDE. -/
def NotFuncrel (m : Mem) (gp a : Word) : Prop :=
  ∀ fdeEnd cieAddr dci b, (fdeHeader m 0 (recordStart gp a)).1 = .ok (fdeEnd, some cieAddr) →
    parseCie m (freshPi gp) 0 cieAddr = (.ok dci, b) →
    dci.fdeEncoding &&& dwEhPeApplMask ≠ dwEhPeFuncrel

/-- Two states that differ in `*pi` and the pool, with the same `gp`. -/
structure Twin (s s' : FdeState) : Prop where
  addr : s'.addr = s.addr
  addrp : s'.addrp = s.addrp
  gp : s'.pi.gp = s.pi.gp

section Record

variable {m : Mem} {s s' t : FdeState}

theorem onAddr_twin {α : Type} {x y : Reader α} (h : Twin s s') (hxy : y s.addr = x s.addr) :
    Act.Together Twin (onAddr x s) (onAddr y s') := by
  unfold onAddr
  rw [Act.zoom_apply, Act.zoom_apply, h.addr, hxy]
  exact ⟨rfl, rfl, h.addrp, h.gp⟩

/-- **The header** reads nothing of `*pi`. -/
theorem fdeHeader_twin (h : Twin s s') :
    Act.Together Twin (fdeHeader m 0 s) (fdeHeader m 0 s') := by
  unfold fdeHeader
  refine (onAddr_twin h rfl).bind fun u32val t t' _ _ ht => ?_
  split
  · split
    · exact ⟨rfl, ht⟩
    · rw [Act.get_bind, Act.get_bind, Act.modify_bind, Act.modify_bind]
      refine Act.Together.bind (onAddr_twin ⟨ht.addr, ?_, ht.gp⟩ rfl) fun cieOffset u u' _ _ hu => ?_
      · exact congrArg (· + u32val.setWidth 64) ht.addr
      · rw [ht.addr]
        exact Act.Together.pure hu _
  · refine (onAddr_twin ht rfl).bind fun u64val u u' _ _ hu => ?_
    rw [Act.get_bind, Act.get_bind, Act.modify_bind, Act.modify_bind]
    refine Act.Together.bind (onAddr_twin ⟨hu.addr, ?_, hu.gp⟩ rfl) fun cieOffset w w' _ _ hw => ?_
    · exact congrArg (· + u64val) hu.addr
    · rw [hu.addr]
      exact Act.Together.pure hw _

/-- The code range is read from the record alone, if it is not relative to the function. -/
theorem fdeRange_twin {dci : CieInfo} (hfun : dci.fdeEncoding &&& dwEhPeApplMask ≠ dwEhPeFuncrel)
    (handler : Word) (h : Twin s s') :
    Act.Together Twin (fdeRange m dci s) (fdeRange m { dci with handler := handler } s') ∧
      ∀ t t', fdeRange m dci s = (.ok (), t) →
        fdeRange m { dci with handler := handler } s' = (.ok (), t') → t'.pi.range = t.pi.range := by
  have hmask : ∀ e : Byte, e &&& dwEhPeFormatMask &&& dwEhPeApplMask ≠ dwEhPeFuncrel := by decide
  have hread : ∀ e a, e &&& dwEhPeApplMask ≠ dwEhPeFuncrel →
      dwarfReadEncodedPointer m e s'.pi a = dwarfReadEncodedPointer m e s.pi a :=
    fun e a he => dwarfReadEncodedPointer_congr e a h.gp fun heq => absurd heq he
  constructor
  · unfold fdeRange
    rw [Act.get_bind, Act.get_bind]
    refine (onAddr_twin h (hread _ _ hfun)).bind fun start t t' _ _ ht => ?_
    refine (onAddr_twin ht (hread _ _ (hmask _))).bind fun range u u' _ _ hu => ?_
    exact ⟨rfl, hu.addr, hu.addrp, hu.gp⟩
  · intro t t' ht ht'
    unfold fdeRange at ht ht'
    rw [Act.get_bind] at ht ht'
    obtain ⟨start, u, hrun₁, ht⟩ := Act.bind_eq_ok ht
    obtain ⟨a, hstart, rfl⟩ := onAddr_eq_ok hrun₁
    obtain ⟨range, w, hrun₂, ht⟩ := Act.bind_eq_ok ht
    obtain ⟨b, hrange, rfl⟩ := onAddr_eq_ok hrun₂
    cases ht
    obtain ⟨start', u', hrun₃, ht'⟩ := Act.bind_eq_ok ht'
    obtain ⟨a', hstart', rfl⟩ := onAddr_eq_ok hrun₃
    obtain ⟨range', w', hrun₄, ht'⟩ := Act.bind_eq_ok ht'
    obtain ⟨b', hrange', rfl⟩ := onAddr_eq_ok hrun₄
    cases ht'
    -- the two numbers are the same in both runs
    rw [h.addr, hread _ _ hfun] at hstart'
    obtain ⟨hs, rfl⟩ := Prod.mk.inj (hstart.symm.trans hstart')
    rw [hread _ _ (hmask _)] at hrange'
    obtain ⟨hr, -⟩ := Prod.mk.inj (hrange.symm.trans hrange')
    rw [Res.ok.inj hs, Res.ok.inj hr]
    rfl

/-- The rest of the record, behind the code range. -/
def fdeRest (m : Mem) (dci : CieInfo) : Act UnwError FdeState Unit := do
  let _ ← fdeAugmentationEnd m dci
  fdeLsda m dci
  pure ()

theorem fdeBody_eq (fdeEnd cieAddr : Word) (s : FdeState) :
    fdeBody m false 0 fdeEnd cieAddr s =
      (Act.lift (parseCie m s.pi 0 cieAddr).1 >>= fun dci =>
        fdeRange m dci >>= fun _ => fdeRest m dci) s := by
  unfold fdeBody fdeRest
  rw [Act.get_bind]
  rfl

/-- An LSDA pointer may be relative to the function, whose start is known by then. -/
theorem fdeRest_twin {dci : CieInfo} (handler : Word) (h : Twin s s')
    (hstart : s'.pi.startIp = s.pi.startIp) :
    Act.Together Twin (fdeRest m dci s) (fdeRest m { dci with handler := handler } s') := by
  have hlsda : ∀ t t', Twin t t' → t.pi = s.pi → t'.pi = s'.pi →
      Act.Together Twin ((fdeLsda m dci >>= fun _ => pure ()) t)
        ((fdeLsda m { dci with handler := handler } >>= fun _ => pure ()) t') := by
    intro t t' ht hpi hpi'
    refine Act.Together.bind ?_ fun _ u u' _ _ hu => Act.Together.pure hu _
    unfold fdeLsda
    rw [Act.get_bind, Act.get_bind, hpi, hpi']
    refine Act.Together.bind (onAddr_twin ht ?_) fun lsda u u' _ _ hu => ?_
    · exact dwarfReadEncodedPointer_congr _ _ h.gp fun _ => hstart
    · exact ⟨rfl, hu.addr, hu.addrp, hu.gp⟩
  unfold fdeRest fdeAugmentationEnd
  by_cases hsized : dci.sizedAugmentation = true
  · simp only [if_pos hsized]
    refine Act.Together.bind (Act.Together.bind (onAddr_twin h rfl) fun size t t' _ _ ht => ?_) ?_
    · rw [Act.get_bind, Act.get_bind, ht.addr]
      exact Act.Together.pure ht _
    · intro augEnd t t' hrun hrun' ht
      obtain ⟨size, u, hread, hpure⟩ := Act.bind_eq_ok hrun
      obtain ⟨a, -, rfl⟩ := onAddr_eq_ok hread
      cases hpure
      obtain ⟨size', u', hread', hpure'⟩ := Act.bind_eq_ok hrun'
      obtain ⟨a', -, rfl⟩ := onAddr_eq_ok hread'
      obtain ⟨-, rfl⟩ := Prod.mk.inj hpure'
      exact hlsda _ _ ht rfl rfl
  · simp only [if_neg hsized]
    exact hlsda s s' h rfl rfl

/-- The rest leaves the code range alone. -/
theorem fdeRest_keeps (dci : CieInfo) :
    Act.Keeps (fun s => (s.addrp, s.pi.gp, s.pi.range)) (fdeRest m dci) := by
  refine Act.Keeps.bind ?_ fun _ => ?_
  · unfold fdeAugmentationEnd
    split
    · exact Act.Keeps.bind (fun _ => rfl) fun _ => Act.Keeps.bind Act.Keeps.get fun _ =>
        Act.Keeps.pure _
    · exact Act.Keeps.pure _
  · refine Act.Keeps.bind ?_ fun _ => Act.Keeps.pure _
    exact Act.Keeps.bind Act.Keeps.get fun _ => Act.Keeps.bind (fun _ => rfl) fun _ =>
      Act.Keeps.modify fun _ => rfl

theorem fdeRange_keeps (dci : CieInfo) :
    Act.Keeps (fun s => (s.addrp, s.pi.gp)) (fdeRange m dci) :=
  Act.Keeps.bind Act.Keeps.get fun _ => Act.Keeps.bind (fun _ => rfl) fun _ =>
    Act.Keeps.bind (fun _ => rfl) fun _ => Act.Keeps.modify fun _ => rfl

/-- The code range is written at the end, so a read that fails leaves the old one. -/
theorem fdeRange_of_not_ok {dci : CieInfo} {r : Res UnwError Unit}
    (h : fdeRange m dci s = (r, t)) (hr : ∀ a, r ≠ .ok a) : t.pi = s.pi := by
  unfold fdeRange at h
  rw [Act.get_bind] at h
  rcases hstart : onAddr (dwarfReadEncodedPointer m dci.fdeEncoding s.pi) s with ⟨r₁, s₁⟩
  have hpi₁ : s₁.pi = s.pi := congrArg (fun q => q.2.pi) hstart.symm
  obtain ⟨start, rfl⟩ | hr₁ := r₁.ok_or_ne
  · rw [Act.bind_of_ok hstart] at h
    rcases hrange : onAddr (dwarfReadEncodedPointer m (dci.fdeEncoding &&& dwEhPeFormatMask) s.pi)
      s₁ with ⟨r₂, s₂⟩
    have hpi₂ : s₂.pi = s₁.pi := congrArg (fun q => q.2.pi) hrange.symm
    obtain ⟨range, rfl⟩ | hr₂ := r₂.ok_or_ne
    · rw [Act.bind_of_ok hrange] at h
      exact absurd (Prod.mk.inj h).1.symm (hr ())
    · rw [Act.bind_of_not_ok hrange hr₂] at h
      rw [← (Prod.mk.inj h).2, hpi₂, hpi₁]
  · rw [Act.bind_of_not_ok hstart hr₁] at h
    rw [← (Prod.mk.inj h).2, hpi₁]

/-- **The CIE** is read in the same way from both, but for the handler. -/
theorem parseCie_twin (cieAddr : Word) (h : Twin s s') :
    (∃ dci handler b, parseCie m s.pi 0 cieAddr = (.ok dci, b) ∧
        (parseCie m s'.pi 0 cieAddr).1 = .ok { dci with handler := handler }) ∨
      ((∀ dci, (parseCie m s.pi 0 cieAddr).1 ≠ .ok dci) ∧
        (parseCie m s'.pi 0 cieAddr).1 = (parseCie m s.pi 0 cieAddr).1) := by
  obtain ⟨dci, handler, b, hx, hy⟩ | heq := parseCie_congr (m := m) h.gp.symm 0 cieAddr
  · exact Or.inl ⟨dci, handler, b, hx, congrArg Prod.fst hy⟩
  · rcases hrun : parseCie m s.pi 0 cieAddr with ⟨r, b⟩
    rw [← heq, hrun]
    obtain ⟨dci, rfl⟩ | hr := r.ok_or_ne
    · exact Or.inl ⟨dci, dci.handler, b, rfl, rfl⟩
    · exact Or.inr ⟨hr, rfl⟩

/-- The code pointers that go with this CIE are not relative to the function. -/
def CodeNotFuncrel (m : Mem) (pi : ProcInfo) (cieAddr : Word) : Prop :=
  ∀ dci b, parseCie m pi 0 cieAddr = (.ok dci, b) →
    dci.fdeEncoding &&& dwEhPeApplMask ≠ dwEhPeFuncrel

theorem fdeBody_twin {fdeEnd cieAddr : Word} (h : Twin s s')
    (hfun : CodeNotFuncrel m s.pi cieAddr) :
    Act.Together Twin (fdeBody m false 0 fdeEnd cieAddr s)
      (fdeBody m false 0 fdeEnd cieAddr s') := by
  rw [fdeBody_eq, fdeBody_eq]
  obtain ⟨dci, handler, b, hx, hy⟩ | ⟨hno, heq⟩ := parseCie_twin (m := m) cieAddr h
  · rw [hx, hy, Act.lift_ok_bind, Act.lift_ok_bind]
    obtain ⟨htwin, hrange⟩ := fdeRange_twin (m := m) (hfun dci b hx) handler h
    refine htwin.bind fun _ t t' ht ht' htwin' => fdeRest_twin handler htwin' ?_
    exact congrArg Prod.fst (hrange t t' ht ht')
  · rw [heq]
    exact Act.Together.bind ⟨rfl, h⟩ fun dci t t' hok _ _ =>
      absurd (Prod.mk.inj hok).1 (hno dci)

theorem bodyUpToRange_twin {cieAddr : Word} (h : Twin s s')
    (hfun : CodeNotFuncrel m s.pi cieAddr) :
    Act.Together Twin (bodyUpToRange m cieAddr s) (bodyUpToRange m cieAddr s') := by
  unfold bodyUpToRange
  rw [Act.get_bind, Act.get_bind]
  obtain ⟨dci, handler, b, hx, hy⟩ | ⟨hno, heq⟩ := parseCie_twin (m := m) cieAddr h
  · rw [hx, hy, Act.lift_ok_bind, Act.lift_ok_bind]
    obtain ⟨htwin, hrange⟩ := fdeRange_twin (m := m) (hfun dci b hx) handler h
    refine htwin.bind fun _ t t' ht ht' htwin' => ?_
    rw [Act.get_bind, Act.get_bind, hrange t t' ht ht']
    exact Act.Together.pure htwin' _
  · rw [heq]
    exact Act.Together.bind ⟨rfl, h⟩ fun dci t t' hok _ _ =>
      absurd (Prod.mk.inj hok).1 (hno dci)

/-- **The code range after an FDE** is the one that it has written, or the old one. -/
theorem fdeBody_range (fdeEnd cieAddr : Word) (s : FdeState) :
    (fdeBody m false 0 fdeEnd cieAddr s).2.addrp = s.addrp ∧
      (fdeBody m false 0 fdeEnd cieAddr s).2.pi.gp = s.pi.gp ∧
      (fdeBody m false 0 fdeEnd cieAddr s).2.pi.range =
        (bodyUpToRange m cieAddr s).1.toOption.getD s.pi.range := by
  rw [fdeBody_eq]
  unfold bodyUpToRange
  rw [Act.get_bind]
  obtain ⟨dci, hdci⟩ | hno := (parseCie m s.pi 0 cieAddr).1.ok_or_ne
  · rw [hdci, Act.lift_ok_bind, Act.lift_ok_bind]
    rcases hrun : fdeRange m dci s with ⟨r, t⟩
    obtain ⟨haddrp, hgp⟩ := Prod.mk.inj ((fdeRange_keeps dci).run hrun)
    obtain ⟨⟨⟩, rfl⟩ | hr := r.ok_or_ne
    · rw [Act.bind_of_ok hrun, Act.bind_of_ok hrun, Act.get_bind]
      obtain ⟨haddrp', hgp', hrange'⟩ := by
        simpa only [Prod.mk.injEq] using fdeRest_keeps (m := m) dci t
      exact ⟨haddrp'.trans haddrp, hgp'.trans hgp, hrange'⟩
    · rw [Act.bind_of_not_ok hrun hr, Act.bind_of_not_ok hrun hr]
      have hpi := fdeRange_of_not_ok hrun hr
      refine ⟨haddrp, hgp, ?_⟩
      rw [show t.pi = s.pi from hpi]
      cases r <;> rfl
  · have hlift : (Act.lift (parseCie m s.pi 0 cieAddr).1 : Act UnwError FdeState CieInfo) s =
        ((parseCie m s.pi 0 cieAddr).1, s) := rfl
    rw [Act.bind_of_not_ok hlift hno, Act.bind_of_not_ok hlift hno]
    refine ⟨rfl, rfl, ?_⟩
    cases (parseCie m s.pi 0 cieAddr).1 <;> rfl

theorem fdeHeader_keeps_pi : Act.Keeps FdeState.pi (fdeHeader m 0) := by
  refine Act.Keeps.bind (fun _ => rfl) fun u32val => ?_
  split
  · split
    · exact Act.Keeps.fail _
    · refine Act.Keeps.bind Act.Keeps.get fun s => ?_
      refine Act.Keeps.bind (Act.Keeps.modify fun _ => rfl) fun _ => ?_
      exact Act.Keeps.bind (fun _ => rfl) fun _ => Act.Keeps.pure _
  · refine Act.Keeps.bind (fun _ => rfl) fun u64val => ?_
    refine Act.Keeps.bind Act.Keeps.get fun s => ?_
    refine Act.Keeps.bind (Act.Keeps.modify fun _ => rfl) fun _ => ?_
    exact Act.Keeps.bind (fun _ => rfl) fun _ => Act.Keeps.pure _

/-- **One record**, decoded into any `*pi` with this `gp`. -/
theorem extract_record {gp a : Word} (hfun : NotFuncrel m gp a) (hs : s.addrp = a)
    (hgp : s.pi.gp = gp) :
    (dwarfExtractProcInfoFromFde m false 0 s).1 = recordOutcome m gp a ∧
      (dwarfExtractProcInfoFromFde m false 0 s).2.addrp = nextRecord m gp a ∧
      (dwarfExtractProcInfoFromFde m false 0 s).2.pi.gp = gp ∧
      (dwarfExtractProcInfoFromFde m false 0 s).2.pi.range =
        (writtenRange m gp a).getD s.pi.range := by
  have htwin : Twin (recordStart gp a) { s with addr := s.addrp } := ⟨hs, hs, hgp⟩
  obtain ⟨hout, hnext⟩ := fdeHeader_twin (m := m) htwin
  unfold NotFuncrel at hfun
  unfold recordOutcome nextRecord writtenRange recordUpToRange dwarfExtractProcInfoFromFde
  rw [Act.modify_bind, Act.modify_bind]
  rw [show ({ recordStart gp a with addr := (recordStart gp a).addrp } : FdeState) =
    recordStart gp a from rfl]
  rcases hx : fdeHeader m 0 (recordStart gp a) with ⟨r, t⟩
  rcases hy : fdeHeader m 0 { s with addr := s.addrp } with ⟨r', t'⟩
  rw [hx] at hfun
  rw [hx, hy] at hout hnext
  cases (show r' = r from hout)
  -- the header is read without a look at `*pi`
  have hpi : t.pi = freshPi gp := fdeHeader_keeps_pi.run hx
  have hpi' : t'.pi = ({ s with addr := s.addrp } : FdeState).pi := fdeHeader_keeps_pi.run hy
  obtain ⟨⟨fdeEnd, o⟩, rfl⟩ | hr := r.ok_or_ne
  · rw [Act.bind_of_ok hx, Act.bind_of_ok hx, Act.bind_of_ok hy]
    cases o with
    | none =>
      refine ⟨rfl, hnext.addrp, hnext.gp.trans (hpi ▸ rfl), ?_⟩
      exact congrArg ProcInfo.range hpi'
    | some cieAddr =>
      have hfun' : CodeNotFuncrel m t.pi cieAddr := by
        rw [hpi]
        exact fun dci b => hfun fdeEnd cieAddr dci b rfl
      obtain ⟨haddrp, hgp', hrange⟩ := fdeBody_range (m := m) fdeEnd cieAddr t'
      refine ⟨(fdeBody_twin hnext hfun').1, haddrp.trans hnext.addrp,
        hgp'.trans (hnext.gp.trans (hpi ▸ rfl)), ?_⟩
      rw [← hpi', ← (bodyUpToRange_twin hnext hfun').1]
      exact hrange
  · rw [Act.bind_of_not_ok hx hr, Act.bind_of_not_ok hx hr, Act.bind_of_not_ok hy hr]
    refine ⟨rfl, hnext.addrp, hnext.gp.trans (hpi ▸ rfl), ?_⟩
    rw [show t'.pi = s.pi from hpi']
    cases r <;> rfl

/-- The same as a run. -/
theorem record_run {gp a : Word} {r : Res UnwError Unit} (hfun : NotFuncrel m gp a)
    (hs : s.addrp = a) (hgp : s.pi.gp = gp) (hout : recordOutcome m gp a = r) :
    ∃ t, dwarfExtractProcInfoFromFde m false 0 s = (r, t) ∧ t.addrp = nextRecord m gp a ∧
      t.pi.gp = gp ∧ t.pi.range = (writtenRange m gp a).getD s.pi.range := by
  obtain ⟨hr, haddrp, hgp', hrange⟩ := extract_record hfun hs hgp
  exact ⟨_, Prod.ext (hr.trans hout) rfl, haddrp, hgp', hrange⟩

/-- A CIE writes no range. -/
theorem writtenRange_of_cie (gp : Word) {a : Word} (h : isCieRecord m 0 a = true) :
    writtenRange m gp a = none := by
  unfold writtenRange recordUpToRange
  rcases hrun : fdeHeader m 0 (recordStart gp a) with ⟨r, t⟩
  obtain ⟨⟨fdeEnd, o⟩, rfl⟩ | hr := r.ok_or_ne
  · cases (fdeHeader_cie hrun).2 h
    rw [Act.bind_of_ok hrun]
    rfl
  · rw [Act.bind_of_not_ok hrun hr]
    cases r <;> rfl

/-- An FDE that is decoded has written its range. -/
theorem writtenRange_of_fde {gp a : Word} (hok : recordOutcome m gp a = .ok ())
    (h : isCieRecord m 0 a = false) : ∃ range, writtenRange m gp a = some range := by
  unfold recordOutcome dwarfExtractProcInfoFromFde at hok
  unfold writtenRange recordUpToRange
  rw [Act.modify_bind] at hok
  rcases hrun : fdeHeader m 0 (recordStart gp a) with ⟨r, t⟩
  have hrun' : fdeHeader m 0 { recordStart gp a with addr := (recordStart gp a).addrp } = (r, t) :=
    hrun
  obtain ⟨⟨fdeEnd, o⟩, rfl⟩ | hr := r.ok_or_ne
  · rw [Act.bind_of_ok hrun'] at hok
    rw [Act.bind_of_ok hrun]
    cases o with
    | none =>
      have hcie : isCieRecord m 0 a = true := (fdeHeader_cie hrun).1 rfl
      rw [h] at hcie
      cases hcie
    | some cieAddr =>
      obtain ⟨u, hbody⟩ : ∃ u, fdeBody m false 0 fdeEnd cieAddr t = (.ok (), u) :=
        ⟨_, Prod.ext hok rfl⟩
      rw [fdeBody_eq] at hbody
      obtain ⟨dci, t₁, hcie, hbody⟩ := Act.bind_eq_ok hbody
      obtain ⟨⟨⟩, t₂, hrange, -⟩ := Act.bind_eq_ok hbody
      refine ⟨t₂.pi.range, ?_⟩
      show (bodyUpToRange m cieAddr t).1.toOption = some t₂.pi.range
      unfold bodyUpToRange
      rw [Act.get_bind, Act.bind_of_ok hcie, Act.bind_of_ok hrange]
      rfl
  · rw [Act.bind_of_not_ok hrun' hr] at hok
    cases r <;> cases hok

end Record

/-! ### The turns of a search -/

section Turn

variable {m : Mem} {ip e : Word} {s t : FdeState}

theorem linearSearch_of_hit (need : Bool) (n : ℕ) {gp : Word} (hlt : s.addrp < e)
    (hfun : NotFuncrel m gp s.addrp) (hgp : s.pi.gp = gp)
    (hrun : dwarfExtractProcInfoFromFde m false 0 s = (.ok (), t))
    (hhit : Contains t.pi.range ip) :
    ∃ u, linearSearch m ip e need (n + 1) s = (.ok (), u) ∧ u.pi.range = t.pi.range := by
  rw [linearSearch_of_contains hlt hrun hhit]
  cases need with
  | false => exact ⟨t, rfl, rfl⟩
  | true =>
    obtain ⟨hout, -, hgp', hrange⟩ := extract_record hfun rfl hgp
    rw [hrun] at hout hgp' hrange
    obtain ⟨w, hagain, -, -, hw⟩ :=
      record_run (s := { t with addrp := s.addrp }) hfun rfl hgp' hout.symm
    obtain ⟨u, hrun', hu⟩ := extract_true_of_false hagain
    refine ⟨u, hrun', (congrArg Prod.fst hu).trans (hw.trans ?_)⟩
    -- what the record writes, it has written already
    show (writtenRange m gp s.addrp).getD t.pi.range = t.pi.range
    rw [show t.pi.range = _ from hrange]
    cases writtenRange m gp s.addrp <;> rfl

end Turn

/-! ### The section -/

/-- The addresses of the records that a search comes to, unless it has found something before. -/
def scanAddrs (m : Mem) (gp e : Word) : ℕ → Word → List Word
  | 0, _ => []
  | n + 1, a => if a < e then a :: scanAddrs m gp e n (nextRecord m gp a) else []

/-- `*pi` may hold the range: it is the last that was written, if one was written at all. -/
def MayHold (written : Option (Word × Word)) (range : Word × Word) : Prop :=
  ∀ p, written = some p → range = p

/-- Behind no CIE can the test succeed. `written` is the range that was written last, `none` as long
as `*pi` holds what the caller has left there. -/
def NoStaleRange (m : Mem) (gp ip : Word) : Option (Word × Word) → List Word → Prop
  | _, [] => True
  | written, a :: as =>
    match recordOutcome m gp a with
    | .ok () =>
      if isCieRecord m 0 a then
        (∀ range, MayHold written range → ¬Contains range ip) ∧ NoStaleRange m gp ip written as
      else
        -- an FDE that contains the address ends the search
        ∀ range, writtenRange m gp a = some range → ¬Contains range ip →
          NoStaleRange m gp ip (some range) as
    | .err _ => NoStaleRange m gp ip ((writtenRange m gp a).or written) as
    | _ => True

/-- A search from `s` comes to a record in the state `u`. -/
inductive ComesTo (m : Mem) (ip e : Word) : ℕ → FdeState → FdeState → Prop
  | here {n : ℕ} {s : FdeState} (hlt : s.addrp < e) : ComesTo m ip e (n + 1) s s
  | failed {n : ℕ} {s t u : FdeState} {err : UnwError} (hlt : s.addrp < e)
      (hrun : dwarfExtractProcInfoFromFde m false 0 s = (.err err, t))
      (hrest : ComesTo m ip e n t u) : ComesTo m ip e (n + 1) s u
  | missed {n : ℕ} {s t u : FdeState} (hlt : s.addrp < e)
      (hrun : dwarfExtractProcInfoFromFde m false 0 s = (.ok (), t))
      (hmiss : ¬Contains t.pi.range ip) (hrest : ComesTo m ip e n t u) :
      ComesTo m ip e (n + 1) s u

/-- A search from `s` comes to an FDE, and decodes it, whose range contains the address. -/
def FdeFound (m : Mem) (ip e : Word) (n : ℕ) (s : FdeState) : Prop :=
  ∃ u w, ComesTo m ip e n s u ∧ isCieRecord m 0 u.addrp = false ∧
    dwarfExtractProcInfoFromFde m false 0 u = (.ok (), w) ∧ Contains w.pi.range ip

/-- **The search depends on the section alone**: it does not depend on what else than `gp` is in
`*pi`, and it succeeds for no other reason than an FDE. -/
structure SectionDecides (m : Mem) (gp ip e : Word) (need : Bool) (n : ℕ) (a : Word) : Prop where
  same : ∀ s s' : FdeState, s.addrp = a → s'.addrp = a → s.pi.gp = gp → s'.pi.gp = gp →
    (linearSearch m ip e need n s').1 = (linearSearch m ip e need n s).1 ∧
      ((linearSearch m ip e need n s).1 = .ok () →
        (linearSearch m ip e need n s').2.pi.range = (linearSearch m ip e need n s).2.pi.range)
  sound : ∀ s : FdeState, s.addrp = a → s.pi.gp = gp →
    (linearSearch m ip e need n s).1 = .ok () → FdeFound m ip e n s

section Section

variable {m : Mem} {gp ip e : Word}

theorem MayHold.next {written w : Option (Word × Word)} {range : Word × Word}
    (h : MayHold written range) : MayHold (w.or written) (w.getD range) := by
  cases w with
  | none => exact h
  | some p =>
    intro q hq
    exact Option.some.inj hq

theorem mayHold_getD {written : Option (Word × Word)} {range : Word × Word} :
    MayHold written (written.getD range) := by
  rintro p rfl
  rfl

theorem FdeFound.of_failed {n : ℕ} {s t : FdeState} {err : UnwError} (hlt : s.addrp < e)
    (hrun : dwarfExtractProcInfoFromFde m false 0 s = (.err err, t)) (h : FdeFound m ip e n t) :
    FdeFound m ip e (n + 1) s := by
  obtain ⟨u, w, hcomes, hrest⟩ := h
  exact ⟨u, w, .failed hlt hrun hcomes, hrest⟩

theorem FdeFound.of_missed {n : ℕ} {s t : FdeState} (hlt : s.addrp < e)
    (hrun : dwarfExtractProcInfoFromFde m false 0 s = (.ok (), t)) (hmiss : ¬Contains t.pi.range ip)
    (h : FdeFound m ip e n t) : FdeFound m ip e (n + 1) s := by
  obtain ⟨u, w, hcomes, hrest⟩ := h
  exact ⟨u, w, .missed hlt hrun hmiss hcomes, hrest⟩

theorem FdeFound.failed {n : ℕ} {s t : FdeState} {err : UnwError}
    (hrun : dwarfExtractProcInfoFromFde m false 0 s = (.err err, t))
    (h : FdeFound m ip e (n + 1) s) : FdeFound m ip e n t := by
  obtain ⟨u, w, hcomes, hfde, hok, hin⟩ := h
  cases hcomes with
  | here hlt => cases hrun.symm.trans hok
  | failed hlt hrun' hrest =>
    cases hrun.symm.trans hrun'
    exact ⟨u, w, hrest, hfde, hok, hin⟩
  | missed hlt hrun' hmiss hrest => cases hrun.symm.trans hrun'

/-- Of a record that is decoded, the search sees the range that is in `*pi` afterwards. -/
theorem FdeFound.decoded {n : ℕ} {s t : FdeState}
    (hrun : dwarfExtractProcInfoFromFde m false 0 s = (.ok (), t))
    (h : FdeFound m ip e (n + 1) s) :
    (isCieRecord m 0 s.addrp = false ∧ Contains t.pi.range ip) ∨
      (¬Contains t.pi.range ip ∧ FdeFound m ip e n t) := by
  obtain ⟨u, w, hcomes, hfde, hok, hin⟩ := h
  cases hcomes with
  | here hlt =>
    cases hrun.symm.trans hok
    exact Or.inl ⟨hfde, hin⟩
  | failed hlt hrun' hrest => cases hrun.symm.trans hrun'
  | missed hlt hrun' hmiss hrest =>
    cases hrun.symm.trans hrun'
    exact Or.inr ⟨hmiss, u, w, hrest, hfde, hok, hin⟩

/-- A record that is decoded and does not contain the address is not the one that is found. -/
theorem FdeFound.missed {n : ℕ} {s t : FdeState}
    (hrun : dwarfExtractProcInfoFromFde m false 0 s = (.ok (), t)) (hmiss : ¬Contains t.pi.range ip)
    (h : FdeFound m ip e (n + 1) s) : FdeFound m ip e n t := by
  obtain ⟨-, hin⟩ | ⟨-, hrest⟩ := h.decoded hrun
  · exact absurd hin hmiss
  · exact hrest

section Cases

variable {a : Word} {as : List Word} {written : Option (Word × Word)}

theorem noStaleRange_of_cie (hout : recordOutcome m gp a = .ok ()) (hcie : isCieRecord m 0 a = true) :
    NoStaleRange m gp ip written (a :: as) ↔
      (∀ range, MayHold written range → ¬Contains range ip) ∧ NoStaleRange m gp ip written as := by
  simp only [NoStaleRange, hout, hcie, if_true]

theorem noStaleRange_of_fde (range : Word × Word) (hout : recordOutcome m gp a = .ok ())
    (hfde : isCieRecord m 0 a = false) (hrange : writtenRange m gp a = some range) :
    NoStaleRange m gp ip written (a :: as) ↔
      (¬Contains range ip → NoStaleRange m gp ip (some range) as) := by
  simp only [NoStaleRange, hout, hfde, hrange, Bool.false_eq_true, if_false]
  constructor
  · intro h hmiss
    exact h range rfl hmiss
  · rintro h range' heq hmiss
    cases heq
    exact h hmiss

theorem noStaleRange_of_err {err : UnwError} (hout : recordOutcome m gp a = .err err) :
    NoStaleRange m gp ip written (a :: as) ↔
      NoStaleRange m gp ip ((writtenRange m gp a).or written) as := by
  simp only [NoStaleRange, hout]

theorem noStaleRange_of_stuck (hout : (recordOutcome m gp a).Stuck) :
    NoStaleRange m gp ip written (a :: as) := by
  unfold NoStaleRange
  cases hr : recordOutcome m gp a with
  | ok u => exact absurd hr (hout.1 u)
  | err err => exact absurd hr (hout.2 err)
  | _ => trivial

end Cases

/-- **Two searches over a section** whose tests behind a CIE all fail. The induction is on the
count: both searches have come to the same record, with ranges that agree once one was written. -/
theorem linearSearch_same (need : Bool) (n : ℕ) :
    ∀ {a : Word} {written : Option (Word × Word)} {s s' : FdeState},
    (∀ b ∈ scanAddrs m gp e n a, NotFuncrel m gp b) →
    NoStaleRange m gp ip written (scanAddrs m gp e n a) →
    s.addrp = a → s'.addrp = a → s.pi.gp = gp → s'.pi.gp = gp →
    MayHold written s.pi.range → MayHold written s'.pi.range →
    (linearSearch m ip e need n s').1 = (linearSearch m ip e need n s).1 ∧
      ((linearSearch m ip e need n s).1 = .ok () →
        (linearSearch m ip e need n s').2.pi.range = (linearSearch m ip e need n s).2.pi.range ∧
          FdeFound m ip e n s) := by
  induction n with
  | zero => exact fun _ _ _ _ _ _ _ _ => ⟨rfl, fun h => by cases h⟩
  | succ n ih =>
    intro a written s s' hfun hclean hs hs' hgp hgp' hhold hhold'
    by_cases hlt : a < e
    · rw [scanAddrs, if_pos hlt] at hfun hclean
      have hfun₁ : NotFuncrel m gp a := hfun a List.mem_cons_self
      have hfun₂ := fun b hb => hfun b (List.mem_cons_of_mem a hb)
      have hlt₁ : s.addrp < e := hs ▸ hlt
      have hlt₂ : s'.addrp < e := hs' ▸ hlt
      obtain ⟨t, hrun, haddrp, htgp, hrange⟩ := record_run hfun₁ hs hgp rfl
      obtain ⟨t', hrun', haddrp', htgp', hrange'⟩ := record_run hfun₁ hs' hgp' rfl
      -- both go on behind the record
      have hnext : ∀ {w}, w = (writtenRange m gp a).or written →
          NoStaleRange m gp ip w (scanAddrs m gp e n (nextRecord m gp a)) →
          (linearSearch m ip e need n t').1 = (linearSearch m ip e need n t).1 ∧
            ((linearSearch m ip e need n t).1 = .ok () →
              (linearSearch m ip e need n t').2.pi.range =
                (linearSearch m ip e need n t).2.pi.range ∧ FdeFound m ip e n t) := by
        rintro w rfl hrest
        exact ih hfun₂ hrest haddrp haddrp' htgp htgp' (hrange ▸ hhold.next)
          (hrange' ▸ hhold'.next)
      obtain ⟨⟨⟩, hout⟩ | ⟨err, hout⟩ | hstuck := (recordOutcome m gp a).ok_or_err_or_stuck
      · rw [hout] at hrun hrun'
        cases hcie : isCieRecord m 0 a with
        | true =>
          -- a CIE: the range is the one from before, and does not contain the address
          obtain ⟨hmiss, hrest⟩ := (noStaleRange_of_cie hout hcie).1 hclean
          have hnone := writtenRange_of_cie gp hcie
          rw [hnone] at hrange hrange' hnext
          have hmiss₁ : ¬Contains t.pi.range ip := hrange ▸ hmiss _ hhold
          have hmiss₂ : ¬Contains t'.pi.range ip := hrange' ▸ hmiss _ hhold'
          rw [linearSearch_of_miss hlt₁ hrun hmiss₁, linearSearch_of_miss hlt₂ hrun' hmiss₂]
          obtain ⟨heq, hok⟩ := hnext rfl hrest
          exact ⟨heq, fun h => ⟨(hok h).1, (hok h).2.of_missed hlt₁ hrun hmiss₁⟩⟩
        | false =>
          obtain ⟨range, hwritten⟩ := writtenRange_of_fde hout hcie
          rw [hwritten, Option.getD_some] at hrange hrange'
          rw [hwritten] at hnext
          rw [noStaleRange_of_fde _ hout hcie hwritten] at hclean
          by_cases hin : Contains range ip
          · -- an FDE that contains the address
            obtain ⟨u, hu, hurange⟩ := linearSearch_of_hit need n hlt₁
              (hs ▸ hfun₁) hgp hrun (hrange ▸ hin)
            obtain ⟨u', hu', hurange'⟩ := linearSearch_of_hit need n hlt₂
              (hs' ▸ hfun₁) hgp' hrun' (hrange' ▸ hin)
            rw [hu, hu']
            refine ⟨rfl, fun _ => ⟨?_, s, t, .here hlt₁, hs ▸ hcie, hrun, hrange ▸ hin⟩⟩
            exact hurange'.trans (hrange'.trans (hrange.symm.trans hurange.symm))
          · have hmiss₁ : ¬Contains t.pi.range ip := hrange ▸ hin
            have hmiss₂ : ¬Contains t'.pi.range ip := hrange' ▸ hin
            rw [linearSearch_of_miss hlt₁ hrun hmiss₁, linearSearch_of_miss hlt₂ hrun' hmiss₂]
            obtain ⟨heq, hok⟩ := hnext rfl (hclean hin)
            exact ⟨heq, fun h => ⟨(hok h).1, (hok h).2.of_missed hlt₁ hrun hmiss₁⟩⟩
      · rw [hout] at hrun hrun'
        rw [linearSearch_of_err hlt₁ hrun, linearSearch_of_err hlt₂ hrun']
        obtain ⟨heq, hok⟩ := hnext rfl ((noStaleRange_of_err hout).1 hclean)
        exact ⟨heq, fun h => ⟨(hok h).1, (hok h).2.of_failed hlt₁ hrun⟩⟩
      · rw [linearSearch_of_stuck hlt₁ hrun hstuck, linearSearch_of_stuck hlt₂ hrun' hstuck]
        exact ⟨rfl, fun h => absurd h (hstuck.1 ())⟩
    · have hnot₁ : ¬s.addrp < e := hs ▸ hlt
      have hnot₂ : ¬s'.addrp < e := hs' ▸ hlt
      unfold linearSearch
      rw [Act.get_bind, Act.get_bind, if_neg hnot₁, if_neg hnot₂]
      exact ⟨rfl, fun h => by cases h⟩

/-- **A search that goes wrong.** If the test behind some CIE can succeed, then it does for a range
that `*pi` may hold, and no FDE that the search has decoded by then contains the address. -/
theorem linearSearch_stale (need : Bool) (n : ℕ) : ∀ {a : Word} {written : Option (Word × Word)},
    (∀ b ∈ scanAddrs m gp e n a, NotFuncrel m gp b) →
    ¬NoStaleRange m gp ip written (scanAddrs m gp e n a) →
    ∃ range, MayHold written range ∧ ∀ s : FdeState, s.addrp = a → s.pi.gp = gp →
      s.pi.range = range →
      (linearSearch m ip e need n s).1 = .ok () ∧ ¬FdeFound m ip e n s := by
  induction n with
  | zero => exact fun _ hstale => absurd trivial hstale
  | succ n ih =>
    intro a written hfun hstale
    by_cases hlt : a < e
    · rw [scanAddrs, if_pos hlt] at hfun hstale
      have hfun₁ : NotFuncrel m gp a := hfun a List.mem_cons_self
      have hfun₂ := fun b hb => hfun b (List.mem_cons_of_mem a hb)
      obtain ⟨⟨⟩, hout⟩ | ⟨err, hout⟩ | hstuck := (recordOutcome m gp a).ok_or_err_or_stuck
      · cases hcie : isCieRecord m 0 a with
        | true =>
          rw [noStaleRange_of_cie hout hcie] at hstale
          have hnone := writtenRange_of_cie gp hcie
          by_cases hmiss : ∀ range, MayHold written range → ¬Contains range ip
          · -- not behind this CIE
            obtain ⟨range, hhold, hgoes⟩ := ih hfun₂ fun hrest => hstale ⟨hmiss, hrest⟩
            refine ⟨range, hhold, fun s hs hgp hrange => ?_⟩
            obtain ⟨t, hrun, haddrp, htgp, ht⟩ := record_run hfun₁ hs hgp hout
            rw [hnone, Option.getD_none, hrange] at ht
            have hmiss₁ : ¬Contains t.pi.range ip := ht ▸ hmiss range hhold
            obtain ⟨hok, hno⟩ := hgoes t haddrp htgp ht
            rw [linearSearch_of_miss (hs ▸ hlt) hrun hmiss₁]
            exact ⟨hok, fun hfound => hno (hfound.missed hrun hmiss₁)⟩
          · -- a range that is left over contains the address
            push Not at hmiss
            obtain ⟨range, hhold, hin⟩ := hmiss
            refine ⟨range, hhold, fun s hs hgp hrange => ?_⟩
            obtain ⟨t, hrun, haddrp, htgp, ht⟩ := record_run hfun₁ hs hgp hout
            rw [hnone, Option.getD_none, hrange] at ht
            have hin₁ : Contains t.pi.range ip := ht ▸ hin
            obtain ⟨u, hu, -⟩ := linearSearch_of_hit need n (hs ▸ hlt)
              (hs ▸ hfun₁) hgp hrun hin₁
            rw [hu]
            refine ⟨rfl, fun hfound => ?_⟩
            obtain ⟨hfde, -⟩ | ⟨hmiss₁, -⟩ := hfound.decoded hrun
            · rw [hs, hcie] at hfde
              cases hfde
            · exact hmiss₁ hin₁
        | false =>
          obtain ⟨range, hwritten⟩ := writtenRange_of_fde hout hcie
          rw [noStaleRange_of_fde _ hout hcie hwritten] at hstale
          push Not at hstale
          obtain ⟨hmiss, hrest⟩ := hstale
          obtain ⟨range', hhold, hgoes⟩ := ih hfun₂ hrest
          refine ⟨written.getD (0, 0), mayHold_getD, fun s hs hgp _ => ?_⟩
          obtain ⟨t, hrun, haddrp, htgp, ht⟩ := record_run hfun₁ hs hgp hout
          rw [hwritten, Option.getD_some] at ht
          have hmiss₁ : ¬Contains t.pi.range ip := ht ▸ hmiss
          obtain ⟨hok, hno⟩ := hgoes t haddrp htgp (ht.trans (hhold range rfl).symm)
          rw [linearSearch_of_miss (hs ▸ hlt) hrun hmiss₁]
          exact ⟨hok, fun hfound => hno (hfound.missed hrun hmiss₁)⟩
      · rw [noStaleRange_of_err hout] at hstale
        obtain ⟨range, hhold, hgoes⟩ := ih hfun₂ hstale
        -- the range before the record is free if the record writes another
        obtain ⟨range₀, hhold₀, hnext⟩ : ∃ range₀, MayHold written range₀ ∧
            (writtenRange m gp a).getD range₀ = range := by
          cases hwritten : writtenRange m gp a with
          | none =>
            rw [hwritten] at hhold
            exact ⟨range, hhold, rfl⟩
          | some p =>
            rw [hwritten] at hhold
            exact ⟨written.getD (0, 0), mayHold_getD, (hhold p rfl).symm⟩
        refine ⟨range₀, hhold₀, fun s hs hgp hrange => ?_⟩
        obtain ⟨t, hrun, haddrp, htgp, ht⟩ := record_run hfun₁ hs hgp hout
        rw [hrange, hnext] at ht
        obtain ⟨hok, hno⟩ := hgoes t haddrp htgp ht
        rw [linearSearch_of_err (hs ▸ hlt) hrun]
        exact ⟨hok, fun hfound => hno (hfound.failed hrun)⟩
      · exact absurd (noStaleRange_of_stuck hstuck) hstale
    · rw [scanAddrs, if_neg hlt] at hstale
      exact absurd trivial hstale

end Section

/-- **The linear search.** Over a section whose code pointers are not relative to the function, the
search depends on the section alone if and only if no test behind a CIE can succeed. -/
theorem linearSearch_section_iff (m : Mem) (gp ip e : Word) (need : Bool) (n : ℕ) (a : Word)
    (hfun : ∀ b ∈ scanAddrs m gp e n a, NotFuncrel m gp b) :
    SectionDecides m gp ip e need n a ↔ NoStaleRange m gp ip none (scanAddrs m gp e n a) := by
  constructor
  · intro hdec
    by_contra hstale
    obtain ⟨range, -, hgoes⟩ := linearSearch_stale need n hfun hstale
    obtain ⟨hok, hno⟩ := hgoes
      ⟨a, a, { freshPi gp with startIp := range.1, endIp := range.2 }, ⟨0, 0⟩⟩ rfl rfl rfl
    exact hno (hdec.sound _ rfl rfl hok)
  · intro hclean
    refine ⟨fun s s' hs hs' hgp hgp' => ?_, fun s hs hgp hok => ?_⟩
    · obtain ⟨heq, hrest⟩ := linearSearch_same need n hfun hclean hs hs' hgp hgp' nofun nofun
      exact ⟨heq, fun hok => (hrest hok).1⟩
    · exact ((linearSearch_same need n hfun hclean hs hs hgp hgp nofun nofun).2 hok).2

/-- Behind a CIE at the start of a section the test can fail for every `*pi` only at the last
address, which is in no range. -/
theorem callers_range_misses_iff {ip : Word} :
    (∀ range, MayHold none range → ¬Contains range ip) ↔ ip.toNat = 2 ^ 64 - 1 := by
  constructor
  · intro hmiss
    have hlast : ¬ip < BitVec.allOnes 64 := fun hlt =>
      hmiss (ip, BitVec.allOnes 64) nofun ⟨BitVec.le_refl ip, hlt⟩
    rw [BitVec.lt_def, BitVec.toNat_allOnes] at hlast
    have := ip.isLt
    omega
  · rintro hip range - ⟨-, hlt⟩
    have := range.2.isLt
    rw [BitVec.lt_def] at hlt
    omega

/-- The address of the CIE of a record. -/
def recordCie (m : Mem) (gp a : Word) : Option Word :=
  (fdeHeader m 0 (recordStart gp a)).1.toOption.bind Prod.snd

theorem notFuncrel_of_encoding {m : Mem} {gp a cieAddr : Word} (encoding : Byte)
    (hcie : recordCie m gp a ∈ [none, some cieAddr])
    (henc : fdeEncodingAt m gp cieAddr = .ok encoding)
    (hfun : encoding &&& dwEhPeApplMask ≠ dwEhPeFuncrel) : NotFuncrel m gp a := by
  intro fdeEnd cieAddr' dci b hhead hparse
  have heq : some cieAddr' ∈ [none, some cieAddr] := by
    unfold recordCie at hcie
    rwa [hhead] at hcie
  obtain rfl : cieAddr' = cieAddr := by simpa using heq
  unfold fdeEncodingAt at henc
  rw [hparse] at henc
  injection henc with henc
  rw [henc]
  exact hfun

/-- The records of the section `twoFdesMem` have absolute code pointers. -/
theorem twoFdes_notFuncrel {a : Word} (h : recordCie twoFdesMem 0 a ∈ [none, some 0x2000]) :
    NotFuncrel twoFdesMem 0 a :=
  notFuncrel_of_encoding dwEhPeUdata8 h (by decide +kernel) (by decide)

/-- A section that starts with an FDE. -/
theorem linearSearch_section_fdes :
    SectionDecides twoFdesMem 0 0x5110 0x204e true 2 0x2012 := by
  have haddrs : scanAddrs twoFdesMem 0 0x204e 2 0x2012 = [0x2012, 0x202a] := by decide +kernel
  refine (linearSearch_section_iff twoFdesMem 0 0x5110 0x204e true 2 0x2012 ?_).2 ?_
  · rw [haddrs]
    simp only [List.forall_mem_cons, List.not_mem_nil, IsEmpty.forall_iff, implies_true, and_true]
    exact ⟨twoFdes_notFuncrel (by decide +kernel), twoFdes_notFuncrel (by decide +kernel)⟩
  · have hfirst : recordOutcome twoFdesMem 0 0x2012 = .ok () ∧
        isCieRecord twoFdesMem 0 0x2012 = false ∧
        writtenRange twoFdesMem 0 0x2012 = some (0x5000, 0x5100) := by decide +kernel
    have hsecond : recordOutcome twoFdesMem 0 0x202a = .ok () ∧
        isCieRecord twoFdesMem 0 0x202a = false ∧
        writtenRange twoFdesMem 0 0x202a = some (0x5100, 0x5200) := by decide +kernel
    rw [haddrs, noStaleRange_of_fde _ hfirst.1 hfirst.2.1 hfirst.2.2,
      noStaleRange_of_fde _ hsecond.1 hsecond.2.1 hsecond.2.2]
    intro _ hmiss
    exact absurd ⟨by decide, by decide⟩ hmiss

/-- A procedure info that was not initialised. -/
def stalePi : ProcInfo := { freshPi 0 with startIp := 0x6000, endIp := 0x6001 }

/-- A section that starts with a CIE. The caller's range is found behind it, and with another range
there nothing is found. -/
theorem linearSearch_finds_stale :
    (∀ b ∈ scanAddrs twoFdesMem 0 0x2052 10 0x2000, NotFuncrel twoFdesMem 0 b) ∧
      (linearSearch twoFdesMem 0x6000 0x2052 false 10 ⟨0, 0x2000, stalePi, ⟨0, 0⟩⟩).1 = .ok () ∧
      (linearSearch twoFdesMem 0x6000 0x2052 false 10 ⟨0, 0x2000, freshPi 0, ⟨0, 0⟩⟩).1 =
        .err .enoinfo ∧
      ¬SectionDecides twoFdesMem 0 0x6000 0x2052 false 10 0x2000 := by
  have hstale : (linearSearch twoFdesMem 0x6000 0x2052 false 10
      ⟨0, 0x2000, stalePi, ⟨0, 0⟩⟩).1 = .ok () := by decide +kernel
  have hfresh : (linearSearch twoFdesMem 0x6000 0x2052 false 10
      ⟨0, 0x2000, freshPi 0, ⟨0, 0⟩⟩).1 = .err .enoinfo := by decide +kernel
  have hcies : (scanAddrs twoFdesMem 0 0x2052 10 0x2000).map (recordCie twoFdesMem 0) =
      [none, some 0x2000, some 0x2000] ++ List.replicate 7 none := by decide +kernel
  refine ⟨fun b hb => twoFdes_notFuncrel ?_, hstale, hfresh, fun hdec => ?_⟩
  · have hmem : recordCie twoFdesMem 0 b ∈ _ := List.mem_map_of_mem hb
    rw [hcies] at hmem
    have hsub : [none, some 0x2000, some 0x2000] ++ List.replicate 7 none ⊆
        [none, some (0x2000 : Word)] := by decide
    exact hsub hmem
  have hsame := (hdec.same ⟨0, 0x2000, freshPi 0, ⟨0, 0⟩⟩ ⟨0, 0x2000, stalePi, ⟨0, 0⟩⟩
    rfl rfl rfl rfl).1
  rw [hstale, hfresh] at hsame
  cases hsame

end LibunwindKern
