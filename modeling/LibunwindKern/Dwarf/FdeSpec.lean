import LibunwindKern.Dwarf.Fde

/-!
# What decoding an FDE reads

`FdeReads` is the record of the reads that `dwarf_extract_proc_info_from_fde` makes after
the header of an FDE, with the address each of them leaves. `fdeBody_of_reads` goes from
the record to the run, `fdeBody_reads` back.

The procedure info that is passed in is both read and written. It is read for the base of
a pointer, and only two of its fields are: `gp` for data-relative pointers and `start_ip`
for function-relative ones (`dwarfReadEncodedPointer_congr`). `parseCie_congr` says what
of a CIE can depend on a `start_ip` that is left over from another record: the handler,
and nothing else.
-/

namespace LibunwindKern

open CProg ByteMem

/-! ### Encoded pointers -/

section Pointers

variable {m : Mem} {pi pi' : ProcInfo}

/-- A pointer is relative to nothing, to its own address, to `gp` or to `start_ip`. -/
theorem dwarfReadEncodedPointer_congr (encoding : Byte) (addr : Word) (hgp : pi.gp = pi'.gp)
    (hstart : encoding &&& dwEhPeApplMask = dwEhPeFuncrel → pi.startIp = pi'.startIp) :
    dwarfReadEncodedPointer m encoding pi addr = dwarfReadEncodedPointer m encoding pi' addr := by
  have happly : ∀ val initialAddr, applyEncoding (encoding &&& dwEhPeApplMask) val initialAddr pi =
      applyEncoding (encoding &&& dwEhPeApplMask) val initialAddr pi' := by
    intro val initialAddr
    unfold applyEncoding
    rw [hgp]
    by_cases hfun : encoding &&& dwEhPeApplMask = dwEhPeFuncrel
    · rw [hstart hfun]
    · simp only [if_neg hfun]
  unfold dwarfReadEncodedPointer
  simp only [happly]

/-- Whether a pointer can be read, and where it ends, does not depend on `start_ip`. -/
theorem dwarfReadEncodedPointer_cases (encoding : Byte) (addr : Word) (hgp : pi.gp = pi'.gp) :
    (∃ val val' a, dwarfReadEncodedPointer m encoding pi addr = (.ok val, a) ∧
        dwarfReadEncodedPointer m encoding pi' addr = (.ok val', a)) ∨
      dwarfReadEncodedPointer m encoding pi addr = dwarfReadEncodedPointer m encoding pi' addr := by
  -- the start address is looked at by `DW_EH_PE_funcrel` only
  by_cases hfun : encoding &&& dwEhPeApplMask = dwEhPeFuncrel
  · have homit : encoding ≠ dwEhPeOmit := by
      rintro rfl
      exact absurd hfun (by decide)
    have haligned : encoding ≠ dwEhPeAligned := by
      rintro rfl
      exact absurd hfun (by decide)
    have happly : ∀ val addr pi, applyEncoding (encoding &&& dwEhPeApplMask) val addr pi =
        .ok (val + pi.startIp) := by
      intro val addr pi
      rw [hfun]
      rfl
    unfold dwarfReadEncodedPointer
    simp only [Act.get_bind, if_neg homit, if_neg haligned]
    rcases hfmt : readEncodedFormat m (encoding &&& dwEhPeFormatMask) addr with ⟨r, a⟩
    obtain ⟨val, rfl⟩ | hr := r.ok_or_ne
    · left
      rw [Act.bind_of_ok hfmt, Act.bind_of_ok hfmt]
      by_cases hval : val = 0
      · rw [if_pos hval, if_pos hval]
        exact ⟨0, 0, a, rfl, rfl⟩
      · rw [if_neg hval, if_neg hval, happly, happly]
        by_cases hind : encoding &&& dwEhPeIndirect ≠ 0
        · simp only [if_pos hind]
          exact ⟨_, _, a, rfl, rfl⟩
        · simp only [if_neg hind]
          exact ⟨_, _, a, rfl, rfl⟩
    · right
      rw [Act.bind_of_not_ok hfmt hr, Act.bind_of_not_ok hfmt hr]
  · exact Or.inr (dwarfReadEncodedPointer_congr encoding addr hgp fun h => absurd h hfun)

end Pointers

/-! ### The CIE -/

/-- Two runs that read the same CIE data, up to the handler, or fail in the same way. -/
def SameButHandler (x y : Res UnwError CieInfo × Word) : Prop :=
  (∃ dci handler a, x = (.ok dci, a) ∧ y = (.ok { dci with handler := handler }, a)) ∨ x = y

section Cie

variable {m : Mem} {pi pi' : ProcInfo}

/-- The loop over the augmentation string, from data that differ in the handler. -/
theorem parseAugmentation_congr (hgp : pi.gp = pi'.gp) :
    ∀ (cs : List Byte) (dci : CieInfo) (handler addr : Word),
      SameButHandler (parseAugmentation m pi cs dci addr)
        (parseAugmentation m pi' cs { dci with handler := handler } addr) := by
  intro cs
  induction cs with
  | nil => intro dci handler addr; exact Or.inl ⟨dci, handler, addr, rfl, rfl⟩
  | cons c cs ih =>
    intro dci handler addr
    unfold parseAugmentation
    by_cases hL : c = 0x4c
    · simp only [if_pos hL]
      exact ih { dci with lsdaEncoding := m addr } handler (addr + 1)
    by_cases hR : c = 0x52
    · simp only [if_neg hL, if_pos hR]
      exact ih { dci with fdeEncoding := m addr } handler (addr + 1)
    by_cases hP : c = 0x50
    · simp only [if_neg hL, if_neg hR, if_pos hP]
      change SameButHandler
        ((dwarfReadEncodedPointer m (m addr) pi >>= fun val =>
          parseAugmentation m pi cs { dci with handler := val }) (addr + 1))
        ((dwarfReadEncodedPointer m (m addr) pi' >>= fun val =>
          parseAugmentation m pi' cs { dci with handler := val }) (addr + 1))
      obtain ⟨val, val', a, hval, hval'⟩ | heq :=
        dwarfReadEncodedPointer_cases (m := m) (m addr) (addr + 1) hgp
      · rw [Act.bind_of_ok hval, Act.bind_of_ok hval']
        exact ih { dci with handler := val } val' a
      · rcases hrun : dwarfReadEncodedPointer m (m addr) pi (addr + 1) with ⟨r, a⟩
        rw [hrun] at heq
        obtain ⟨val, rfl⟩ | hr := r.ok_or_ne
        · rw [Act.bind_of_ok hrun, Act.bind_of_ok heq.symm]
          exact ih { dci with handler := val } val a
        · right
          rw [Act.bind_of_not_ok hrun hr, Act.bind_of_not_ok heq.symm hr]
    by_cases hS : c = 0x53
    · simp only [if_neg hL, if_neg hR, if_neg hP, if_pos hS]
      exact ih { dci with signalFrame := true, haveAbiMarker := true } handler addr
    · simp only [if_neg hL, if_neg hR, if_neg hP, if_neg hS]
      -- an unknown character ends a sized augmentation and is an error in another
      by_cases hsized : dci.sizedAugmentation = true
      · simp only [if_pos hsized]
        exact Or.inl ⟨dci, handler, addr, rfl, rfl⟩
      · simp only [if_neg hsized]
        exact Or.inr rfl

theorem SameButHandler.bind {x y : Reader CieInfo} {f : CieInfo → Reader CieInfo} {addr : Word}
    (h : SameButHandler (x addr) (y addr))
    (hf : ∀ dci handler a, SameButHandler (f dci a) (f { dci with handler := handler } a)) :
    SameButHandler ((x >>= f) addr) ((y >>= f) addr) := by
  obtain ⟨dci, handler, a, hx, hy⟩ | heq := h
  · rw [Act.bind_of_ok hx, Act.bind_of_ok hy]
    exact hf dci handler a
  · exact Or.inr (Act.bind_congr_left f heq)

/-- Sequencing after a call that is the same in both runs. -/
theorem SameButHandler.bind_same {α : Type} (x : Reader α) {f g : α → Reader CieInfo} {addr : Word}
    (h : ∀ b a, SameButHandler (f b a) (g b a)) :
    SameButHandler ((x >>= f) addr) ((x >>= g) addr) := by
  rcases hrun : x addr with ⟨r, a⟩
  obtain ⟨b, rfl⟩ | hr := r.ok_or_ne
  · rw [Act.bind_of_ok hrun, Act.bind_of_ok hrun]
    exact h b a
  · right
    rw [Act.bind_of_not_ok hrun hr, Act.bind_of_not_ok hrun hr]

theorem parseSizedAugmentation_congr (hgp : pi.gp = pi'.gp) (augstr : List Byte) (dci : CieInfo)
    (addr : Word) :
    SameButHandler (parseSizedAugmentation m pi augstr dci addr)
      (parseSizedAugmentation m pi' augstr dci addr) := by
  unfold parseSizedAugmentation
  split
  · refine SameButHandler.bind_same (dwarfReadUleb128 m) fun size a => ?_
    exact parseAugmentation_congr hgp _ { dci with sizedAugmentation := true } dci.handler a
  · exact parseAugmentation_congr hgp _ dci dci.handler addr

/-- **A CIE does not depend on what the procedure info holds**, but for its `gp`, and for
the handler. -/
theorem parseCie_congr (hgp : pi.gp = pi'.gp) (base addr : Word) :
    SameButHandler (parseCie m pi base addr) (parseCie m pi' base addr) := by
  unfold parseCie
  refine SameButHandler.bind_same _ (fun cieEndAddr a => ?_)
  refine SameButHandler.bind_same _ (fun version a => ?_)
  split
  · exact Or.inr rfl
  · refine SameButHandler.bind_same _ (fun augstr a => ?_)
    refine SameButHandler.bind_same _ (fun codeAlign a => ?_)
    refine SameButHandler.bind_same _ (fun dataAlign a => ?_)
    refine SameButHandler.bind_same _ (fun retAddrColumn a => ?_)
    refine SameButHandler.bind (parseSizedAugmentation_congr hgp _ _ _) (fun dci handler a => ?_)
    exact Or.inl ⟨{ dci with cieInstrStart := a }, handler, a, rfl, rfl⟩

/-- The reads of a CIE in front of its augmentation, from the address `a` on. -/
structure CieReads (m : Mem) (base a cieEnd : Word) (version : Byte) (augstr : List Byte)
    (codeAlign dataAlign column a₁ a₂ a₃ a₄ a₅ a₆ : Word) : Prop where
  readHeader : parseCieHeader m base a = (.ok cieEnd, a₁)
  readVersion : dwarfReadu8 m a₁ = (.ok version, a₂)
  readString : readAugstr m (2 ^ 64) [] a₂ = (.ok augstr, a₃)
  readCodeAlign : dwarfReadUleb128 m a₃ = (.ok codeAlign, a₄)
  readDataAlign : dwarfReadSleb128 m a₄ = (.ok dataAlign, a₅)
  readColumn : readRetAddrColumn m version a₅ = (.ok column, a₆)

/-- **A CIE that is accepted** has been read field by field, and its instructions start where the
augmentation was left. -/
theorem parseCie_eq_ok {base a b : Word} {dci : CieInfo}
    (h : parseCie m pi base a = (.ok dci, b)) :
    ∃ cieEnd version augstr codeAlign dataAlign column a₁ a₂ a₃ a₄ a₅ a₆,
      CieReads m base a cieEnd version augstr codeAlign dataAlign column a₁ a₂ a₃ a₄ a₅ a₆ ∧
      ∃ dci', parseSizedAugmentation m pi augstr
          { CieInfo.zero with
            cieInstrEnd := cieEnd
            codeAlign := codeAlign
            dataAlign := dataAlign
            retAddrColumn := column
            fdeEncoding := dwEhPeUdata8
            lsdaEncoding := dwEhPeOmit } a₆ = (.ok dci', b) ∧
        dci = { dci' with cieInstrStart := b } := by
  unfold parseCie at h
  obtain ⟨cieEnd, a₁, hheader, h⟩ := Act.bind_eq_ok h
  obtain ⟨version, a₂, hversion, h⟩ := Act.bind_eq_ok h
  -- no other version is accepted
  split at h
  · cases h
  obtain ⟨augstr, a₃, haugstr, h⟩ := Act.bind_eq_ok h
  obtain ⟨codeAlign, a₄, hcode, h⟩ := Act.bind_eq_ok h
  obtain ⟨dataAlign, a₅, hdata, h⟩ := Act.bind_eq_ok h
  obtain ⟨column, a₆, hcolumn, h⟩ := Act.bind_eq_ok h
  obtain ⟨dci', a₇, hparse, h⟩ := Act.bind_eq_ok h
  cases h
  exact ⟨cieEnd, version, augstr, codeAlign, dataAlign, column, a₁, a₂, a₃, a₄, a₅, a₆,
    ⟨hheader, hversion, haugstr, hcode, hdata, hcolumn⟩, dci', hparse, rfl⟩

end Cie

/-! ### The FDE -/

/-- The code range in the procedure info. -/
def ProcInfo.range (pi : ProcInfo) : Word × Word := (pi.startIp, pi.endIp)

/-- What the procedure info says of a procedure: its code range, its LSDA and its handler. -/
def ProcInfo.procedure (pi : ProcInfo) : (Word × Word) × Word × Word :=
  (pi.range, pi.lsda, pi.handler)

/-- The procedure info with the code range and the handler of an FDE. -/
def withRange (pi : ProcInfo) (start range handler : Word) : ProcInfo :=
  { pi with startIp := start, endIp := start + range, handler := handler }

/-- The reads of an FDE after its header, from the address `addr` on. -/
structure FdeReads (m : Mem) (pi : ProcInfo) (dci : CieInfo) (addr start range augEnd lsda : Word)
    (a₁ a₂ a₃ a₄ : Word) : Prop where
  readStart : dwarfReadEncodedPointer m dci.fdeEncoding pi addr = (.ok start, a₁)
  readRange : dwarfReadEncodedPointer m (dci.fdeEncoding &&& dwEhPeFormatMask) pi a₁ = (.ok range, a₂)
  sized : dci.sizedAugmentation = true →
    ∃ size, dwarfReadUleb128 m a₂ = (.ok size, a₃) ∧ augEnd = a₃ + size
  unsized : dci.sizedAugmentation = false → a₃ = a₂ ∧ augEnd = 0
  readLsda : dwarfReadEncodedPointer m dci.lsdaEncoding (withRange pi start range dci.handler) a₃ =
    (.ok lsda, a₄)

section Fde

variable {m : Mem} {dci : CieInfo} {s t : FdeState}

theorem onAddr_of_ok {α : Type} {x : Reader α} {b : α} {a : Word} (h : x s.addr = (.ok b, a)) :
    onAddr x s = (.ok b, { s with addr := a }) := by
  unfold onAddr
  rw [Act.zoom_apply, h]

theorem onAddr_eq_ok {α : Type} {x : Reader α} {b : α} (h : onAddr x s = (.ok b, t)) :
    ∃ a, x s.addr = (.ok b, a) ∧ t = { s with addr := a } := Act.zoom_eq_ok h

/-- The reads of an FDE, and what they leave in the procedure info. -/
theorem fde_of_reads {start range augEnd lsda a₁ a₂ a₃ a₄ : Word}
    (h : FdeReads m s.pi dci s.addr start range augEnd lsda a₁ a₂ a₃ a₄) :
    fdeRange m dci s = (.ok (), ⟨a₂, s.addrp, withRange s.pi start range dci.handler, s.pool⟩) ∧
      fdeAugmentationEnd m dci ⟨a₂, s.addrp, withRange s.pi start range dci.handler, s.pool⟩ =
        (.ok augEnd, ⟨a₃, s.addrp, withRange s.pi start range dci.handler, s.pool⟩) ∧
      fdeLsda m dci ⟨a₃, s.addrp, withRange s.pi start range dci.handler, s.pool⟩ =
        (.ok (), ⟨a₄, s.addrp,
          { withRange s.pi start range dci.handler with lsda := lsda }, s.pool⟩) := by
  refine ⟨?_, ?_, ?_⟩
  · unfold fdeRange
    rw [Act.get_bind, Act.bind_of_ok (onAddr_of_ok h.readStart)]
    rw [Act.bind_of_ok (onAddr_of_ok (s := { s with addr := a₁ }) h.readRange)]
    rfl
  · unfold fdeAugmentationEnd
    by_cases hsized : dci.sizedAugmentation = true
    · obtain ⟨size, hread, rfl⟩ := h.sized hsized
      rw [if_pos hsized]
      rw [Act.bind_of_ok (onAddr_of_ok
        (s := ⟨a₂, s.addrp, withRange s.pi start range dci.handler, s.pool⟩) hread)]
      rfl
    · obtain ⟨rfl, rfl⟩ := h.unsized (Bool.eq_false_iff.mpr hsized)
      rw [if_neg hsized]
      rfl
  · unfold fdeLsda
    rw [Act.get_bind]
    rw [Act.bind_of_ok (onAddr_of_ok
      (s := ⟨a₃, s.addrp, withRange s.pi start range dci.handler, s.pool⟩) h.readLsda)]
    rfl

/-- **An FDE from its reads.** What is left to do is to make the unwind info. -/
theorem fdeBody_of_reads (need : Bool) (fdeEndAddr : Word) {base cieAddr a : Word}
    {start range augEnd lsda a₁ a₂ a₃ a₄ : Word}
    (hcie : parseCie m s.pi base cieAddr = (.ok dci, a))
    (h : FdeReads m s.pi dci s.addr start range augEnd lsda a₁ a₂ a₃ a₄) :
    fdeBody m need base fdeEndAddr cieAddr s =
      (if need then fdeUnwindInfo m dci fdeEndAddr augEnd else pure ())
        ⟨a₄, s.addrp, { withRange s.pi start range dci.handler with lsda := lsda }, s.pool⟩ := by
  obtain ⟨hrange, haug, hlsda⟩ := fde_of_reads h
  unfold fdeBody
  rw [Act.get_bind, hcie, Act.lift_ok_bind, Act.bind_of_ok hrange, Act.bind_of_ok haug,
    Act.bind_of_ok hlsda]

/-- **The reads of an FDE** that was decoded. -/
theorem fdeBody_reads {base fdeEndAddr cieAddr : Word}
    (h : fdeBody m false base fdeEndAddr cieAddr s = (.ok (), t)) :
    ∃ dci a start range augEnd lsda a₁ a₂ a₃ a₄,
      parseCie m s.pi base cieAddr = (.ok dci, a) ∧
        FdeReads m s.pi dci s.addr start range augEnd lsda a₁ a₂ a₃ a₄ := by
  unfold fdeBody at h
  rw [Act.get_bind] at h
  obtain ⟨dci, s₁, hcie, h⟩ := Act.bind_eq_ok h
  obtain ⟨hdci, rfl⟩ := Prod.mk.inj hcie
  obtain ⟨⟨⟩, s₂, hrange, h⟩ := Act.bind_eq_ok h
  obtain ⟨augEnd, s₃, haug, h⟩ := Act.bind_eq_ok h
  obtain ⟨⟨⟩, s₄, hlsda, -⟩ := Act.bind_eq_ok h
  unfold fdeRange at hrange
  rw [Act.get_bind] at hrange
  obtain ⟨start, t₁, hrun₁, hrange⟩ := Act.bind_eq_ok hrange
  obtain ⟨a₁, hstart, rfl⟩ := onAddr_eq_ok hrun₁
  obtain ⟨range, t₂, hrun₂, hrange⟩ := Act.bind_eq_ok hrange
  obtain ⟨a₂, hrange', rfl⟩ := onAddr_eq_ok hrun₂
  cases hrange
  -- the augmentation moves the address, and leaves the procedure info alone
  have haug' : ∃ a₃, s₃ = ⟨a₃, s.addrp, withRange s.pi start range dci.handler, s.pool⟩ ∧
      (dci.sizedAugmentation = true →
        ∃ size, dwarfReadUleb128 m a₂ = (.ok size, a₃) ∧ augEnd = a₃ + size) ∧
      (dci.sizedAugmentation = false → a₃ = a₂ ∧ augEnd = 0) := by
    unfold fdeAugmentationEnd at haug
    by_cases hsized : dci.sizedAugmentation = true
    · rw [if_pos hsized] at haug
      obtain ⟨size, t₃, hread, haug⟩ := Act.bind_eq_ok haug
      obtain ⟨a₃, hsize, rfl⟩ := onAddr_eq_ok hread
      cases haug
      exact ⟨a₃, rfl, fun _ => ⟨size, hsize, rfl⟩, fun hf => by rw [hsized] at hf; cases hf⟩
    · rw [if_neg hsized] at haug
      cases haug
      exact ⟨a₂, rfl, fun ht => absurd ht hsized, fun _ => ⟨rfl, rfl⟩⟩
  obtain ⟨a₃, rfl, hsized, hunsized⟩ := haug'
  unfold fdeLsda at hlsda
  rw [Act.get_bind] at hlsda
  obtain ⟨lsda, t₄, hrun₄, hend⟩ := Act.bind_eq_ok hlsda
  obtain ⟨a₄, hlsda', rfl⟩ := onAddr_eq_ok hrun₄
  exact ⟨dci, _, start, range, augEnd, lsda, a₁, a₂, a₃, a₄, Prod.ext hdci rfl,
    ⟨hstart, hrange', hsized, hunsized, hlsda'⟩⟩

/-- The reads of an FDE whose code pointers are not function-relative do not depend on
what the procedure info holds, but for its `gp`. -/
theorem FdeReads.congr {pi pi' : ProcInfo} {addr start range augEnd lsda a₁ a₂ a₃ a₄ : Word}
    (handler : Word) (hgp : pi.gp = pi'.gp)
    (hfun : dci.fdeEncoding &&& dwEhPeApplMask ≠ dwEhPeFuncrel)
    (h : FdeReads m pi dci addr start range augEnd lsda a₁ a₂ a₃ a₄) :
    FdeReads m pi' { dci with handler := handler } addr start range augEnd lsda a₁ a₂ a₃ a₄ where
  readStart := by
    rw [← dwarfReadEncodedPointer_congr _ _ hgp fun he => absurd he hfun]
    exact h.readStart
  readRange := by
    rw [← dwarfReadEncodedPointer_congr _ _ hgp fun he => absurd he ?_]
    · exact h.readRange
    · -- the mask leaves no application bits
      have hmask : ∀ e : Byte, e &&& dwEhPeFormatMask &&& dwEhPeApplMask ≠ dwEhPeFuncrel := by
        decide
      exact hmask _
  sized := h.sized
  unsized := h.unsized
  readLsda := by
    -- the start of the code range is written before this read
    refine Eq.trans (Eq.symm ?_) h.readLsda
    exact dwarfReadEncodedPointer_congr _ _ hgp fun _ => rfl

/-- The last part of an extraction always succeeds, and takes the object. -/
theorem fdeUnwindInfo_takes (dci : CieInfo) (fdeEndAddr augEndAddr : Word) (s : FdeState) :
    ∃ t, fdeUnwindInfo m dci fdeEndAddr augEndAddr s = (.ok (), t) ∧ t.pool = s.pool.alloc ∧
      ∃ dci', t.pi.unwindInfo = .cie dci' := by
  unfold fdeUnwindInfo
  rw [Act.modify_bind]
  unfold fdeAbiMarker
  split
  · exact ⟨_, rfl, rfl, _, rfl⟩
  · exact ⟨_, rfl, rfl, _, rfl⟩

theorem fdeUnwindInfo_keeps (dci : CieInfo) (fdeEnd augEnd : Word) :
    Act.Keeps (fun s => s.pi.procedure) (fdeUnwindInfo m dci fdeEnd augEnd) := by
  refine Act.Keeps.bind (Act.Keeps.modify fun _ => rfl) fun _ => Act.Keeps.bind ?_ fun dci' => ?_
  · unfold fdeAbiMarker
    split
    · exact Act.Keeps.bind (fun _ => rfl) fun _ => Act.Keeps.bind (fun _ => rfl) fun _ =>
        Act.Keeps.pure _
    · exact Act.Keeps.pure _
  · exact Act.Keeps.bind Act.Keeps.get fun _ => Act.Keeps.modify fun _ => rfl

/-- Asking for the unwind info as well changes neither the outcome nor the procedure. -/
theorem extract_true_of_false (h : dwarfExtractProcInfoFromFde m false 0 s = (.ok (), t)) :
    ∃ u, dwarfExtractProcInfoFromFde m true 0 s = (.ok (), u) ∧
      u.pi.procedure = t.pi.procedure := by
  unfold dwarfExtractProcInfoFromFde at h ⊢
  rw [Act.modify_bind] at h ⊢
  obtain ⟨⟨fdeEnd, o⟩, s₁, hhead, h⟩ := Act.bind_eq_ok h
  rw [Act.bind_of_ok hhead]
  cases o with
  | none => exact ⟨t, h, rfl⟩
  | some cieAddr =>
    change fdeBody m false 0 fdeEnd cieAddr s₁ = (.ok (), t) at h
    obtain ⟨dci, a, start, range, augEnd, lsda, a₁, a₂, a₃, a₄, hcie, hreads⟩ := fdeBody_reads h
    have hfalse := fdeBody_of_reads false fdeEnd hcie hreads
    have htrue := fdeBody_of_reads true fdeEnd hcie hreads
    obtain ⟨-, ht⟩ := Prod.mk.inj (h.symm.trans hfalse)
    -- the unwind info is made at the end, and that always succeeds
    obtain ⟨u, hrun, -⟩ := fdeUnwindInfo_takes (m := m) dci fdeEnd augEnd
      ⟨a₄, s₁.addrp, { withRange s₁.pi start range dci.handler with lsda := lsda }, s₁.pool⟩
    refine ⟨u, htrue.trans hrun, ((fdeUnwindInfo_keeps dci fdeEnd augEnd).run hrun).trans ?_⟩
    rw [ht]

end Fde

/-! ### Records

A record of an `.eh_frame` section starts with its length, in 32 bits, or in 64 bits after
the escape `0xffffffff`. The field after the length is `0` in a CIE, and in an FDE the
distance from the field back to the CIE. -/

/-- A record from `a` to `b`, with the address and the value of the field after its length,
and the address of what follows. The length does not wrap around the address space. -/
inductive RecordAt (m : Mem) (a b : Word) : Word → Word → Word → Prop
  | dwarf32 (hesc : load32 m a ≠ 0xffffffff) (hlen : 4 ≤ (load32 m a).toNat)
      (hend : b.toNat = a.toNat + 4 + (load32 m a).toNat) :
      RecordAt m a b (a + 4) ((load32 m (a + 4)).signExtend 64) (a + 4 + 4)
  | dwarf64 (hesc : load32 m a = 0xffffffff) (hlen : 8 ≤ (load64 m (a + 4)).toNat)
      (hend : b.toNat = a.toNat + 12 + (load64 m (a + 4)).toNat) :
      RecordAt m a b (a + 4 + 8) (load64 m (a + 4 + 8)) (a + 4 + 8 + 8)

section Records

variable {m : Mem} {a b cieOffsetAddr cieOffset body : Word}

/-- The end of a record, as the source computes it from a 32-bit length. -/
theorem end_of_length32 {len : BitVec 32} (h : b.toNat = a.toNat + 4 + len.toNat) :
    a + 4 + len.setWidth 64 = b := by
  apply BitVec.eq_of_toNat_eq
  rw [BitVec.toNat_add, BitVec.toNat_add, BitVec.toNat_setWidth]
  change ((a.toNat + 4) % 2 ^ 64 + _) % 2 ^ 64 = _
  have := b.isLt
  omega

/-- The end of a record, as the source computes it from a 64-bit length. -/
theorem end_of_length64 {len : Word} (h : b.toNat = a.toNat + 12 + len.toNat) :
    a + 4 + 8 + len = b := by
  apply BitVec.eq_of_toNat_eq
  rw [BitVec.toNat_add, BitVec.toNat_add, BitVec.toNat_add]
  change (((a.toNat + 4) % 2 ^ 64 + 8) % 2 ^ 64 + _) % 2 ^ 64 = _
  have := b.isLt
  omega

/-- A record has at least eight bytes. -/
theorem RecordAt.size_le (h : RecordAt m a b cieOffsetAddr cieOffset body) :
    a.toNat + 8 ≤ b.toNat := by
  cases h with
  | dwarf32 hesc hlen hend => omega
  | dwarf64 hesc hlen hend => omega

/-- **The header of a record.** The caller's address is set to the end of the record. -/
theorem fdeHeader_of_record (h : RecordAt m a b cieOffsetAddr cieOffset body) {s : FdeState}
    (hs : s.addr = a) :
    fdeHeader m 0 s =
      (.ok (b, if cieOffset = 0 then none else some (cieOffsetAddr - cieOffset)),
        { s with addr := body, addrp := b }) := by
  subst hs
  -- `is_cie_id` and the CIE address in the `.eh_frame` convention
  have hid : (if isCieId cieOffset ((0 : Word) ≠ 0) then none
      else some (cieAddrOf 0 cieOffsetAddr cieOffset)) =
      if cieOffset = 0 then none else some (cieOffsetAddr - cieOffset) := by
    unfold isCieId cieAddrOf
    simp
  unfold fdeHeader
  cases h with
  | dwarf32 hesc hlen hend =>
    have hpos : load32 m s.addr ≠ 0 := by
      intro h0
      rw [h0] at hlen
      exact absurd hlen (by decide)
    have hb := end_of_length32 hend
    rw [Act.bind_of_ok (onAddr_of_ok (x := dwarfReadu32 m) rfl), if_pos hesc, if_neg hpos,
      Act.get_bind, Act.modify_bind,
      Act.bind_of_ok (onAddr_of_ok (x := dwarfReads32 m) rfl)]
    simp only [hb, Act.pure_apply]
    rw [hid]
  | dwarf64 hesc hlen hend =>
    have hb := end_of_length64 hend
    rw [Act.bind_of_ok (onAddr_of_ok (x := dwarfReadu32 m) rfl), if_neg (not_not.mpr hesc),
      Act.bind_of_ok (onAddr_of_ok (x := dwarfReadu64 m) rfl),
      Act.get_bind, Act.modify_bind,
      Act.bind_of_ok (onAddr_of_ok (x := dwarfReads64 m) rfl)]
    simp only [hb, Act.pure_apply]
    rw [hid]

/-- A CIE is passed over. -/
theorem extractFde_of_cie (need : Bool) (h : RecordAt m a b cieOffsetAddr 0 body) {s : FdeState}
    (hs : s.addrp = a) :
    dwarfExtractProcInfoFromFde m need 0 s =
      (.ok (), { s with addr := body, addrp := b }) := by
  unfold dwarfExtractProcInfoFromFde
  rw [Act.modify_bind, Act.bind_of_ok (fdeHeader_of_record h (s := { s with addr := s.addrp }) hs)]
  rfl

/-- The rest of an FDE is decoded with the end of the record and the address of the CIE. -/
theorem extractFde_of_fde (need : Bool) (h : RecordAt m a b cieOffsetAddr cieOffset body)
    (hfde : cieOffset ≠ 0) {s : FdeState} (hs : s.addrp = a) :
    dwarfExtractProcInfoFromFde m need 0 s =
      fdeBody m need 0 b (cieOffsetAddr - cieOffset) { s with addr := body, addrp := b } := by
  unfold dwarfExtractProcInfoFromFde
  rw [Act.modify_bind, Act.bind_of_ok (fdeHeader_of_record h (s := { s with addr := s.addrp }) hs)]
  simp only [if_neg hfde]

end Records

end LibunwindKern
