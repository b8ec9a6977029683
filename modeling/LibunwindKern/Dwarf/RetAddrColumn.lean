import LibunwindKern.Dwarf.Ownership
import LibunwindKern.Dwarf.RegMap
import LibunwindKern.Dwarf.RowLookup

/-!
# The return-address column

A CIE names the column of the return address, by a byte in version 1 and by a ULEB128 number in
version 3. The number goes from `parse_cie` to the copy of the CIE data in the procedure info,
from there to the cursor when the row is computed, and `apply_reg_state` and `tdep_stash_frame`
use it as an index of `c->loc`. None of them compares it with the number of columns.

* `cieRetAddrColumn` is the column that the bytes of a CIE encode, and `parseCie_column` says that
  `parse_cie` takes it as it is.
* `InfoOf` is the unwind info of an FDE, and `fetchProcInfo_infoOf` says that a cursor has no other
  unwind info.
* `retAddrReads` are the indices. `ret_addr_column_in_range_iff` says when they are valid.
-/

namespace LibunwindKern

open CProg ByteMem Unw

/-! ### From the CIE to the procedure info -/

/-- The return-address column that a CIE encodes: the field behind the length, the id, the version,
the augmentation string and the two alignment factors. -/
def cieRetAddrColumn (m : Mem) (base : Word) : Reader Word := do
  let _ ← parseCieHeader m base
  let version ← dwarfReadu8 m
  let _ ← readAugstr m (2 ^ 64) []
  let _ ← dwarfReadUleb128 m
  let _ ← dwarfReadSleb128 m
  readRetAddrColumn m version

section Cie

variable {m : Mem} {pi : ProcInfo}

/-- The augmentation has no say in the column. -/
theorem parseAugmentation_column {cs : List Byte} {dci dci' : CieInfo} {a b : Word}
    (h : parseAugmentation m pi cs dci a = (.ok dci', b)) :
    dci'.retAddrColumn = dci.retAddrColumn := by
  induction cs generalizing dci a with
  | nil =>
    cases h
    rfl
  | cons c cs ih =>
    unfold parseAugmentation at h
    split_ifs at h
    · obtain ⟨ch, a', -, h⟩ := Act.bind_eq_ok h
      exact (ih h).trans rfl
    · obtain ⟨ch, a', -, h⟩ := Act.bind_eq_ok h
      exact (ih h).trans rfl
    · obtain ⟨ch, a', -, h⟩ := Act.bind_eq_ok h
      obtain ⟨handler, a'', -, h⟩ := Act.bind_eq_ok h
      exact (ih h).trans rfl
    · exact (ih h).trans rfl
    · cases h
      rfl
    · cases h

theorem parseSizedAugmentation_column {augstr : List Byte} {dci dci' : CieInfo} {a b : Word}
    (h : parseSizedAugmentation m pi augstr dci a = (.ok dci', b)) :
    dci'.retAddrColumn = dci.retAddrColumn := by
  unfold parseSizedAugmentation at h
  split_ifs at h
  · obtain ⟨size, a', -, h⟩ := Act.bind_eq_ok h
    exact (parseAugmentation_column h).trans rfl
  · exact parseAugmentation_column h

/-- **The column of a CIE** that is accepted is the one that its bytes encode. -/
theorem parseCie_column {base a b : Word} {dci : CieInfo}
    (h : parseCie m pi base a = (.ok dci, b)) :
    (cieRetAddrColumn m base a).1 = .ok dci.retAddrColumn := by
  obtain ⟨_, _, _, _, _, _, _, _, _, _, _, _, hreads, dci', haug, rfl⟩ := parseCie_eq_ok h
  unfold cieRetAddrColumn
  rw [Act.bind_of_ok hreads.readHeader, Act.bind_of_ok hreads.readVersion,
    Act.bind_of_ok hreads.readString, Act.bind_of_ok hreads.readCodeAlign,
    Act.bind_of_ok hreads.readDataAlign, hreads.readColumn]
  exact congrArg Res.ok (parseSizedAugmentation_column haug).symm

end Cie

/-- The unwind info of an FDE whose CIE is at `cieAddr`: what
`dwarf_extract_proc_info_from_fde` leaves in `pi->unwind_info`. -/
def InfoOf (m : Mem) (base cieAddr : Word) (info : UnwindInfo) : Prop :=
  ∃ f g fdeEnd, (fdeHeader m base { f with addr := f.addrp }).1 = .ok (fdeEnd, some cieAddr) ∧
    dwarfExtractProcInfoFromFde m true base f = (.ok (), g) ∧ g.pi.unwindInfo = info

section Fde

variable {m : Mem}

theorem fdeAbiMarker_column {dci dci' : CieInfo} {s t : FdeState}
    (h : fdeAbiMarker m dci s = (.ok dci', t)) : dci'.retAddrColumn = dci.retAddrColumn := by
  unfold fdeAbiMarker at h
  split_ifs at h
  · obtain ⟨abi, s₁, -, h⟩ := Act.bind_eq_ok h
    obtain ⟨tag, s₂, -, h⟩ := Act.bind_eq_ok h
    cases h
    rfl
  · cases h
    rfl

/-- The copy of the CIE data in the procedure info. -/
theorem fdeUnwindInfo_column {dci : CieInfo} {fdeEnd augEnd : Word} {s t : FdeState}
    (h : fdeUnwindInfo m dci fdeEnd augEnd s = (.ok (), t)) :
    ∃ dci', t.pi.unwindInfo = .cie dci' ∧ dci'.retAddrColumn = dci.retAddrColumn := by
  unfold fdeUnwindInfo at h
  rw [Act.modify_bind] at h
  obtain ⟨dci', s₁, hmarker, h⟩ := Act.bind_eq_ok h
  have hcolumn : dci'.retAddrColumn = dci.retAddrColumn := fdeAbiMarker_column hmarker
  cases h
  exact ⟨_, rfl, hcolumn⟩

/-- **From the CIE to the procedure info.** -/
theorem InfoOf.column {base cieAddr : Word} {info : UnwindInfo} (h : InfoOf m base cieAddr info) :
    ∃ dci, info = .cie dci ∧ (cieRetAddrColumn m base cieAddr).1 = .ok dci.retAddrColumn := by
  obtain ⟨f, g, fdeEnd, hhead, hrun, rfl⟩ := h
  unfold dwarfExtractProcInfoFromFde at hrun
  rw [Act.modify_bind] at hrun
  obtain ⟨h', s₁, hhead', hrun⟩ := Act.bind_eq_ok hrun
  rw [hhead'] at hhead
  cases Res.ok.inj hhead
  change fdeBody m true base fdeEnd cieAddr s₁ = (.ok (), g) at hrun
  unfold fdeBody at hrun
  rw [Act.get_bind] at hrun
  obtain ⟨dci, s₂, hcie, hrun⟩ := Act.bind_eq_ok hrun
  obtain ⟨hdci, rfl⟩ := Prod.mk.inj hcie
  obtain ⟨⟨⟩, s₃, -, hrun⟩ := Act.bind_eq_ok hrun
  obtain ⟨augEnd, s₄, -, hrun⟩ := Act.bind_eq_ok hrun
  obtain ⟨⟨⟩, s₅, -, hrun⟩ := Act.bind_eq_ok hrun
  obtain ⟨dci', hinfo, hcolumn⟩ := fdeUnwindInfo_column hrun
  refine ⟨dci', hinfo, ?_⟩
  rw [hcolumn]
  exact parseCie_column (Prod.ext hdci rfl)

end Fde

/-! ### From the search to the cursor

The searches write the unwind info of an FDE, or none. -/

/-- The unwind info is that of an FDE, if it is CIE data at all. -/
def FromFde (m : Mem) (info : UnwindInfo) : Prop :=
  ∀ dci, info = .cie dci → ∃ base cieAddr, InfoOf m base cieAddr info

section Search

variable {m : Mem} {ip : Word} {need : Bool}

/-- **One record.** -/
theorem extract_fromFde (base : Word) :
    Act.Preserves (fun s => FromFde m s.pi.unwindInfo)
      (dwarfExtractProcInfoFromFde m need base) := by
  intro s hs
  have htook := extract_took (m := m) need base s
  by_cases hyes : need = true ∧ (dwarfExtractProcInfoFromFde m need base s).1 = .ok () ∧
      isCieRecord m base s.addrp = false
  · obtain ⟨rfl, hok, hfde⟩ := hyes
    rcases hrun : dwarfExtractProcInfoFromFde m true base s with ⟨r, t⟩
    rw [hrun] at hok
    cases (show r = .ok () from hok)
    -- the header of the record names its CIE
    have hhead := hrun
    unfold dwarfExtractProcInfoFromFde at hhead
    rw [Act.modify_bind] at hhead
    obtain ⟨⟨fdeEnd, o⟩, u, hhead, -⟩ := Act.bind_eq_ok hhead
    cases o with
    | none =>
      have hcie : isCieRecord m base s.addrp = true := (fdeHeader_cie hhead).1 rfl
      rw [hcie] at hfde
      cases hfde
    | some cieAddr =>
      intro dci _
      exact ⟨base, cieAddr, s, t, fdeEnd, congrArg Prod.fst hhead, hrun, rfl⟩
  · show FromFde m (dwarfExtractProcInfoFromFde m need base s).2.pi.unwindInfo
    rw [(htook.no hyes).2]
    exact hs

/-- A call that writes no unwind info. -/
theorem fromFde_of_keeps {σ α : Type} {info : σ → UnwindInfo} {x : Act UnwError σ α}
    (h : Act.Keeps info x) : Act.Preserves (fun s => FromFde m (info s)) x :=
  h.preserves fun _ _ heq hs => heq ▸ hs

theorem linearSearch_fromFde (e : Word) (n : ℕ) :
    Act.Preserves (fun s => FromFde m s.pi.unwindInfo) (linearSearch m ip e need n) := by
  induction n with
  | zero => exact Act.Moves.fail _
  | succ n ih =>
    refine Act.Moves.bind Act.Moves.get fun s => ?_
    split
    · refine Act.Moves.bind (extract_fromFde 0).attempt fun ret => ?_
      split
      · exact ih
      · refine Act.Moves.bind Act.Moves.get fun s' => ?_
        split
        · split
          · refine Act.Moves.bind ?_ fun _ => extract_fromFde 0
            exact fromFde_of_keeps (Act.Keeps.modify fun _ => rfl)
          · exact Act.Moves.pure _
        · exact ih
    · exact Act.Moves.fail _

theorem searchTable_fromFde (format : InfoFormat) (table tableLen debugFrameBase segbase : Word) :
    Act.Preserves (fun p => FromFde m p.pi.unwindInfo)
      (searchTable m ip format table tableLen debugFrameBase segbase need) := by
  cases hlookup : unwLookup m table tableLen ((ip - segbase).setWidth 32) with
  | none =>
    unfold searchTable
    rw [hlookup]
    exact Act.Moves.fail _
  | some e =>
    rw [searchTable_eq hlookup]
    refine Act.Moves.bind (fun p hp => extract_fromFde debugFrameBase _ hp) fun _ => ?_
    exact (tableDone_keeps ip format segbase).preserves fun p q heq hp => by
      rwa [(Prod.mk.inj heq).1]

theorem dwarfSearchUnwindTable_fromFde (di : DynInfo) :
    Act.Preserves (fun p => FromFde m p.pi.unwindInfo)
      (dwarfSearchUnwindTable m ip di need) := by
  unfold dwarfSearchUnwindTable
  split
  · exact Act.Moves.lift _
  · split
    · exact Act.Moves.lift _
    · split
      · exact searchTable_fromFde _ _ _ _ _
      · exact searchTable_fromFde _ _ _ _ _
      · exact Act.Moves.lift _

/-- **The dynamic list.** Code that was generated at run time has unwind info of its own kind. -/
theorem localFindProcInfo_fromFde (dis : List DynInfo) :
    Act.Preserves (fun p => FromFde m p.pi.unwindInfo) (localFindProcInfo m ip need dis) := by
  induction dis with
  | nil => exact Act.Moves.fail _
  | cons di dis ih =>
    unfold localFindProcInfo
    split
    · unfold unwiExtractDynamicProcInfo
      refine Act.Moves.bind (fromFde_of_keeps (Act.Keeps.modify fun _ => rfl)) fun _ => ?_
      split
      · intro p _ dci hdci
        cases need <;> cases hdci
      · exact dwarfSearchUnwindTable_fromFde di
      · exact dwarfSearchUnwindTable_fromFde di
      · exact Act.Moves.fail _
    · exact ih

theorem dwarfCallback_fromFde (k : Kernel) (file : LinkerFile) :
    Act.Preserves (fun s => FromFde m s.pi.unwindInfo) (dwarfCallback k m ip need file) := by
  unfold dwarfCallback
  split
  · exact Act.Moves.pure _
  · split
    · exact Act.Moves.pure _
    · split
      · refine Act.Moves.bind (fromFde_of_keeps (Act.Keeps.modify fun _ => rfl)) fun _ => ?_
        exact Act.Moves.pure _
      · refine Act.Moves.bind (fromFde_of_keeps (Act.Keeps.modify fun _ => rfl)) fun _ => ?_
        refine Act.Moves.bind ?_ fun found => ?_
        · exact Act.Moves.attempt fun s hs => linearSearch_fromFde _ _ _ hs
        · split <;> exact Act.Moves.pure _

theorem foreach_fromFde (k : Kernel) (files : List LinkerFile) :
    Act.Preserves (fun s => FromFde m s.pi.unwindInfo)
      (linkerFileForeach (dwarfCallback k m ip need) files) := by
  induction files with
  | nil => exact Act.Moves.pure _
  | cons file files ih =>
    refine Act.Moves.bind (dwarfCallback_fromFde k file) fun ret => ?_
    split
    · exact Act.Moves.pure _
    · exact ih

/-- **The loaded files.** -/
theorem dwarfFindProcInfo_fromFde (k : Kernel) :
    Act.Preserves (fun p => FromFde m p.pi.unwindInfo) (dwarfFindProcInfo k m ip need) := by
  have hfiles : Act.Preserves (fun s : CbState => FromFde m s.pi.unwindInfo) (do
      let ret ← linkerFileForeach (dwarfCallback k m ip need) k.linkerFiles
      let t ← Act.get
      pure (ret, t.singleFde, t.di)) := by
    refine Act.Moves.bind (foreach_fromFde k _) fun ret => ?_
    exact Act.Moves.bind Act.Moves.get fun t => Act.Moves.pure _
  refine Act.Moves.bind (fun p hp => hfiles _ hp) fun r => ?_
  split
  · exact Act.Moves.fail _
  · split
    · exact Act.Moves.pure _
    · split
      · exact dwarfSearchUnwindTable_fromFde _
      · exact Act.Moves.fail _

end Search

/-- **The unwind info of a cursor** is that of an FDE, if it is CIE data at all. -/
theorem fetchProcInfo_infoOf {k : Kernel} {m : Mem} {ip : Word} {s t : St} {dci : CieInfo}
    (h : fetchProcInfo k m ip true s = (.ok (), t)) (hcie : t.c.pi.unwindInfo = .cie dci) :
    ∃ base cieAddr, InfoOf m base cieAddr t.c.pi.unwindInfo := by
  have hlist : FromFde m (dynamicSearch k m s ip true).2.pi.unwindInfo :=
    localFindProcInfo_fromFde k.dynInfoList _ fun _ hzero => by cases hzero
  cases FetchEnd.of_run (Or.inl rfl) h with
  | @dynamic p hd hf =>
    rw [hd] at hlist
    exact hlist dci hcie
  | @file p hd hs hf =>
    have hfile : FromFde m (fileSearch k m s ip true).2.pi.unwindInfo :=
      dwarfFindProcInfo_fromFde k _ hlist
    rw [hs] at hfile
    exact hfile dci hcie
  | stuck hok herr hs => exact absurd rfl (hok ())

/-! ### From the cursor to the save locations -/

section Reads

variable (v : Validator) (m : Mem) (fuel : ℕ) (rs : RegState) (s : St)

/-- The CFA of the row and the locations of its registers can be computed, so `apply_reg_state`
comes to the return address. -/
def ComesToRetAddr : Prop :=
  ∃ cfa t u, evalCfa v m fuel rs s = (.ok cfa, t) ∧
    applyRules v m fuel rs cfa (List.finRange dwarfNumPreservedRegs) t = (.ok (), u)

/-- The indices at which `apply_reg_state` reads `c->loc[c->ret_addr_column]`: for the return
address, and in `tdep_stash_frame` if the frame is a new one and frames are stashed. -/
def retAddrReads : List Word :=
  Res.after (evalCfa v m fuel rs s) fun cfa t =>
    Res.after (applyRules v m fuel rs cfa (List.finRange dwarfNumPreservedRegs) t) fun _ u =>
      u.c.retAddrColumn :: Res.after (readReturnAddress v m (withCfa u cfa)) fun ip w =>
        if (ip = s.c.ip ∧ cfa = s.c.cfa) ∨ w.c.stashFrames = false then []
        else [w.c.retAddrColumn]

variable {v m fuel rs s}

theorem retAddrColumn_blind : Blind fun s => s.c.retAddrColumn := ⟨fun _ _ => rfl, fun _ _ => rfl⟩

/-- **The index** is the column of the cursor, whenever there is a read. -/
theorem mem_retAddrReads {i : Word} :
    i ∈ retAddrReads v m fuel rs s ↔
      ComesToRetAddr v m fuel rs s ∧ i = s.c.retAddrColumn := by
  -- nothing on the way to the reads writes the column
  have hblind := retAddrColumn_blind
  have hcolumn : ∀ {cfa t u}, evalCfa v m fuel rs s = (.ok cfa, t) →
      applyRules v m fuel rs cfa (List.finRange dwarfNumPreservedRegs) t = (.ok (), u) →
      u.c.retAddrColumn = s.c.retAddrColumn := by
    intro cfa t u hcfa hrules
    have hu : u.c.retAddrColumn = t.c.retAddrColumn :=
      (applyRules_keeps v m fuel rs hblind cfa _).run hrules
    have ht : t.c.retAddrColumn = s.c.retAddrColumn :=
      (evalCfa_keeps v m fuel rs (f := fun s => s.c.retAddrColumn) hblind.lga).run hcfa
    exact hu.trans ht
  unfold retAddrReads
  simp only [Res.mem_after, List.mem_cons]
  constructor
  · rintro ⟨cfa, t, hcfa, ⟨⟩, u, hrules, rfl | ⟨ip, w, hread, hmem⟩⟩
    · exact ⟨⟨cfa, t, u, hcfa, hrules⟩, hcolumn hcfa hrules⟩
    · have hw : w.c.retAddrColumn = (withCfa u cfa).c.retAddrColumn :=
        (readReturnAddress_keeps (f := fun s => s.c.retAddrColumn) hblind.lga v m).run hread
      split_ifs at hmem
      · cases hmem
      · rw [List.mem_singleton.1 hmem]
        have hu := hcolumn hcfa hrules
        exact ⟨⟨cfa, t, u, hcfa, hrules⟩, hw.trans hu⟩
  · rintro ⟨⟨cfa, t, u, hcfa, hrules⟩, rfl⟩
    exact ⟨cfa, t, hcfa, (), u, hrules, Or.inl (hcolumn hcfa hrules).symm⟩

end Reads

/-- **The return-address column.** The index of every read is the column that the CIE encodes, so
the reads are valid if and only if that column is one of `c->loc`, or the row fails before the
return address is read. -/
theorem ret_addr_column_in_range_iff (v : Validator) (m : Mem) (fuel : ℕ) (ip base cieAddr : Word)
    (s t : St) (sr : StateRecord) (hinfo : InfoOf m base cieAddr s.c.pi.unwindInfo)
    (hrow : createStateRecordFor m fuel ip s = (.ok sr, t)) :
    ∃ column, (cieRetAddrColumn m base cieAddr).1 = .ok column ∧
      ((∀ i ∈ retAddrReads v m fuel sr.rsCurrent t, i.toNat < dwarfNumPreservedRegs) ↔
        (ComesToRetAddr v m fuel sr.rsCurrent t → column.toNat < dwarfNumPreservedRegs)) := by
  obtain ⟨dci, hdci, hcolumn⟩ := hinfo.column
  -- the row writes the column of the CIE to the cursor
  obtain ⟨dci', g, hcie, rfl⟩ := createStateRecordFor_left hrow
  cases hdci.symm.trans hcie
  refine ⟨dci.retAddrColumn, hcolumn, ?_⟩
  constructor
  · intro hall hcomes
    exact hall _ (mem_retAddrReads.2 ⟨hcomes, rfl⟩)
  · intro hlt i hi
    obtain ⟨hcomes, rfl⟩ := mem_retAddrReads.1 hi
    exact hlt hcomes

/-- The FDE of the procedure with two rows, before it is decoded. -/
def atFde : FdeState := ⟨0, 0x201a, ProcInfo.zero, ⟨0, 0⟩⟩

/-- The CIE of the procedure with two rows names column 16. -/
theorem ret_addr_column_two_rows :
    ∃ sr t, createStateRecordFor twoRowsMem 9 0x5012 (foundFrame twoRowsCie) = (.ok sr, t) ∧
      ∀ i ∈ retAddrReads msyncValidate twoRowsMem 9 sr.rsCurrent t,
        i.toNat < dwarfNumPreservedRegs := by
  have hinfo : InfoOf twoRowsMem 0 0x2008 (.cie twoRowsCie) :=
    ⟨atFde, (dwarfExtractProcInfoFromFde twoRowsMem true 0 atFde).2, 0x2035, by decide +kernel,
      Prod.ext (by decide +kernel) rfl, by decide +kernel⟩
  have hcolumn : (cieRetAddrColumn twoRowsMem 0 0x2008).1 = .ok 16 := by decide +kernel
  obtain ⟨sr, t, hrun, -⟩ := onFoundRow_eq onFoundRow_two_rows
  obtain ⟨column, hcolumn', hiff⟩ := ret_addr_column_in_range_iff msyncValidate twoRowsMem 9 0x5012
    0 0x2008 (foundFrame twoRowsCie) t sr hinfo hrun
  cases Res.ok.inj (hcolumn'.symm.trans hcolumn)
  exact ⟨sr, t, hrun, hiff.2 fun _ => by decide⟩

/-- The same procedure with column 17 in its CIE. -/
def column17Mem : Mem := Function.update twoRowsMem 0x2014 17

def column17Cie : CieInfo := { twoRowsCie with retAddrColumn := 17 }

theorem onFoundRow_column17 :
    onFoundRow column17Mem column17Cie (fun rs t =>
      (retAddrReads msyncValidate column17Mem 9 rs t,
        (applyRegState msyncValidate column17Mem 9 rs t).1)) = some ([17], .undefined) := by
  decide +kernel

/-- `parse_cie` accepts the column, and `apply_reg_state` reads behind the end of `c->loc`. -/
theorem ret_addr_column_17 :
    InfoOf column17Mem 0 0x2008 (.cie column17Cie) ∧
      ∃ sr t, createStateRecordFor column17Mem 9 0x5012 (foundFrame column17Cie) = (.ok sr, t) ∧
        (∃ i ∈ retAddrReads msyncValidate column17Mem 9 sr.rsCurrent t,
          ¬i.toNat < dwarfNumPreservedRegs) ∧
        (applyRegState msyncValidate column17Mem 9 sr.rsCurrent t).1 = .undefined := by
  obtain ⟨sr, t, hrun, hrow⟩ := onFoundRow_eq onFoundRow_column17
  obtain ⟨hreads, hundefined⟩ := Prod.mk.inj hrow
  refine ⟨⟨atFde, (dwarfExtractProcInfoFromFde column17Mem true 0 atFde).2, 0x2035,
    by decide +kernel, Prod.ext (by decide +kernel) rfl, by decide +kernel⟩, sr, t, hrun, ?_,
    hundefined⟩
  rw [hreads]
  exact ⟨17, List.mem_singleton_self _, by decide⟩

end LibunwindKern
