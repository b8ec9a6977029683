import LibunwindKern.Dwarf.Untouched

/-!
# The row of the call site

For a call frame `fetch_proc_info` looks up the address before the return address, so
that a call at the very end of a procedure is still found in it. The row that is applied
should be the row at that address too: an instruction that takes effect at the return
address belongs to the code after the call. `findSaveLocsAtCallSite` is
`uncached_dwarf_find_save_locs` with that address handed on to the CFI program.

The source hands on the return address itself. The two run the same instructions until
the location passes the call site (`Act.loop_of_weaker`), and the source goes on when the
location is then exactly the return address. `findSaveLocs_at_call_site_iff` says that
this is the only difference. The addresses of the instructions that were executed are
part of the state, so the equality of the two runs is also one of what they execute.
-/

namespace LibunwindKern

open CProg ByteMem Unw

/-- The reference: the address that selects the FDE is also the address up to which its
instructions are executed. -/
def findSaveLocsAtCallSite (k : Kernel) (v : Validator) (m : Mem) (fuel : ℕ) : Unw Unit := do
  let s ← Act.get
  fetchProcInfo k m s.c.ip true
  let sr ← createStateRecordFor m fuel (lookupIp s.c s.c.ip)
  applyRegState v m fuel sr.rsCurrent
  putUnwindInfo

/-- The state in which the instructions of an FDE are started, when those of its CIE have
run. -/
def fdeStart (pi : ProcInfo) (dci : CieInfo) (w : RowState) : CfiState :=
  CfiState.init pi dci.fdeInstrStart { w with sr := w.sr.setInitial }

/-- A row of the FDE starts exactly at `ip`: its instructions, run up to the address
before, stop at the location `ip` with instructions left. -/
def RowStartsAt (m : Mem) (pi : ProcInfo) (dci : CieInfo) (fuel : ℕ) (ip : Word) (s : RowState) :
    Prop :=
  ∃ w u, runCfiProgram m pi dci fuel (BitVec.allOnes 64) dci.cieInstrStart dci.cieInstrEnd s =
      (.ok (), w) ∧
    cfiLoop m pi dci fuel (ip - 1) dci.fdeInstrEnd (fdeStart pi dci w) = (.ok (), u) ∧
    u.currIp = ip ∧ u.addr < dci.fdeInstrEnd

/-! ### The executed instructions -/

section Fetched

variable (m : Mem) (pi : ProcInfo) (dci : CieInfo)

/-- Executing an instruction fetches no other. -/
theorem execCfa_keeps_fetched (op : DwCfa) : Act.Keeps CfiState.fetched (execCfa m pi dci op) := by
  have hclosed : CfaClosed m pi dci fun _ x => Act.Keeps CfiState.fetched x :=
    { pure := fun _ => Act.Keeps.pure _
      get := Act.Keeps.get
      bind := fun hx hf => Act.Keeps.bind hx hf
      read := fun _ _ => rfl
      modify := fun hf => Act.Keeps.modify hf
      einval := Act.Keeps.fail _
      ebadreg := Act.Keeps.fail _ }
  exact hclosed.execCfa op

/-- A turn of the loop fetches one instruction. -/
theorem cfiTurn_fetched (s : CfiState) :
    (cfiTurn m pi dci s).2.fetched = s.fetched ++ [s.addr] := by
  unfold cfiTurn
  rw [Act.modify_bind]
  refine Act.Keeps.bind (p := CfiState.fetched) (x := Cfi.onAddr (dwarfReadu8 m)) (fun _ => rfl)
    (fun op => ?_)
    { s with fetched := s.fetched ++ [s.addr] }
  cases DwCfa.ofByte op with
  | none => exact Act.Keeps.pure _
  | some cfa => exact execCfa_keeps_fetched m pi dci cfa

theorem cfiTurn_length_le (s : CfiState) :
    s.fetched.length ≤ (cfiTurn m pi dci s).2.fetched.length := by
  rw [cfiTurn_fetched, List.length_append]
  exact Nat.le_add_right _ _

/-- A run that goes on fetches more. -/
theorem cfiTurn_bind_length_lt (ip endAddr : Word) (fuel : ℕ) (s : CfiState) :
    s.fetched.length <
      ((cfiTurn m pi dci >>= fun _ => cfiLoop m pi dci fuel ip endAddr) s).2.fetched.length := by
  have hturn := cfiTurn_fetched m pi dci s
  rcases hrun : cfiTurn m pi dci s with ⟨r, t⟩
  rw [hrun] at hturn
  have hlt : s.fetched.length < t.fetched.length := by
    rw [hturn, List.length_append]
    exact Nat.lt_succ_self _
  obtain ⟨⟨⟩, rfl⟩ | hr := r.ok_or_ne
  · rw [Act.bind_of_ok hrun]
    exact Nat.lt_of_lt_of_le hlt
      (Act.loop_measure_le (fun s => s.fetched.length) (cfiTurn_length_le m pi dci) fuel t)
  · rw [Act.bind_of_not_ok hrun hr]
    exact hlt

end Fetched

/-! ### The two runs of an FDE's instructions -/

section Rows

variable {m : Mem} {pi : ProcInfo} {dci : CieInfo} {fuel : ℕ} {ip : Word}

/-- The location before `ip` ends the loop no later than `ip` does. -/
theorem cfiGoesOn_of_pred (hip : ip ≠ 0) (endAddr : Word) (s : CfiState)
    (h : cfiGoesOn (ip - 1) endAddr s = true) : cfiGoesOn ip endAddr s = true := by
  unfold cfiGoesOn at h ⊢
  rw [Bool.and_eq_true, decide_eq_true_eq, decide_eq_true_eq] at h ⊢
  refine ⟨?_, h.2⟩
  have hle := h.1
  bv_omega

/-- Unless a row starts at the return address, the two loops are one. -/
theorem cfiLoop_pred_of_not (hip : ip ≠ 0) (endAddr : Word) (s : CfiState)
    (h : ¬∃ u, cfiLoop m pi dci fuel (ip - 1) endAddr s = (.ok (), u) ∧ u.currIp = ip ∧
      u.addr < endAddr) :
    cfiLoop m pi dci fuel ip endAddr s = cfiLoop m pi dci fuel (ip - 1) endAddr s := by
  obtain ⟨heq, -⟩ | ⟨u, k, hu, hgoes, -⟩ :=
    Act.loop_of_weaker (cfiTurn m pi dci) (cfiGoesOn_of_pred hip endAddr) fuel s
  · exact heq
  · -- the location is past the address before `ip`, and not past `ip`
    have hend := (Act.loop_inv (fun _ => True) (fun _ _ _ _ _ => trivial) fuel s u trivial hu).2
    unfold cfiGoesOn at hend hgoes
    rw [Bool.and_eq_true, decide_eq_true_eq, decide_eq_true_eq] at hgoes
    rw [Bool.and_eq_false_iff, decide_eq_false_iff_not, decide_eq_false_iff_not] at hend
    obtain ⟨hle, haddr⟩ := hgoes
    have hgt := hend.resolve_right (not_not.mpr haddr)
    exact absurd ⟨u, hu, by bv_omega, haddr⟩ h

/-- When a row starts at the return address, the run up to it fetches more
instructions. -/
theorem cfiLoop_pred_fetched (hip : ip ≠ 0) {endAddr : Word} {s u : CfiState}
    (hu : cfiLoop m pi dci fuel (ip - 1) endAddr s = (.ok (), u)) (hcurr : u.currIp = ip)
    (haddr : u.addr < endAddr) :
    (cfiLoop m pi dci fuel ip endAddr s).2.fetched ≠ u.fetched := by
  obtain ⟨-, hstop⟩ | ⟨u', k, hu', -, hmore⟩ :=
    Act.loop_of_weaker (cfiTurn m pi dci) (cfiGoesOn_of_pred hip endAddr) fuel s
  · have hfalse := hstop u hu
    unfold cfiGoesOn at hfalse
    rw [hcurr, Bool.and_eq_false_iff, decide_eq_false_iff_not, decide_eq_false_iff_not] at hfalse
    exact absurd (BitVec.le_refl ip) (hfalse.resolve_right (not_not.mpr haddr))
  · obtain ⟨-, rfl⟩ := Prod.mk.inj (hu'.symm.trans hu)
    have hlt := cfiTurn_bind_length_lt m pi dci ip endAddr k u'
    change cfiLoop m pi dci fuel ip endAddr s = _ at hmore
    unfold cfiLoop at hlt
    rw [← hmore] at hlt
    intro heq
    rw [heq] at hlt
    exact Nat.lt_irrefl _ hlt

theorem parseFdePrograms_of_not (hip : ip ≠ 0) {s : RowState}
    (h : ¬RowStartsAt m pi dci fuel ip s) :
    parseFdePrograms m pi dci fuel ip s = parseFdePrograms m pi dci fuel (ip - 1) s := by
  unfold parseFdePrograms
  rcases hcie : runCfiProgram m pi dci fuel (BitVec.allOnes 64) dci.cieInstrStart dci.cieInstrEnd s
    with ⟨r, w⟩
  obtain ⟨⟨⟩, rfl⟩ | hr := r.ok_or_ne
  · rw [Act.bind_of_ok hcie, Act.bind_of_ok hcie, Act.modify_bind, Act.modify_bind]
    have hloop : cfiLoop m pi dci fuel ip dci.fdeInstrEnd (fdeStart pi dci w) =
        cfiLoop m pi dci fuel (ip - 1) dci.fdeInstrEnd (fdeStart pi dci w) := by
      refine cfiLoop_pred_of_not hip _ _ ?_
      rintro ⟨u, hu, hcurr, haddr⟩
      exact h ⟨w, u, hcie, hu, hcurr, haddr⟩
    unfold fdeStart at hloop
    unfold runCfiProgram
    rw [Act.zoom_apply, Act.zoom_apply, hloop]
  · rw [Act.bind_of_not_ok hcie hr, Act.bind_of_not_ok hcie hr]

theorem parseFdePrograms_fetched (hip : ip ≠ 0) {s : RowState}
    (h : RowStartsAt m pi dci fuel ip s) :
    (parseFdePrograms m pi dci fuel ip s).2.fetched ≠
      (parseFdePrograms m pi dci fuel (ip - 1) s).2.fetched := by
  obtain ⟨w, u, hcie, hu, hcurr, haddr⟩ := h
  have hne := cfiLoop_pred_fetched hip hu hcurr haddr
  unfold parseFdePrograms
  rw [Act.bind_of_ok hcie, Act.bind_of_ok hcie, Act.modify_bind, Act.modify_bind]
  change (cfiLoop m pi dci fuel ip dci.fdeInstrEnd (fdeStart pi dci w)).2.fetched ≠
    (cfiLoop m pi dci fuel (ip - 1) dci.fdeInstrEnd (fdeStart pi dci w)).2.fetched
  rw [hu]
  exact hne

end Rows

/-! ### The rest of the step executes no instruction -/

section Rest

variable (v : Validator) (m : Mem) (fuel : ℕ)

/-- Applying a row and returning the unwind info. -/
def applyAndPut (sr : StateRecord) : Unw Unit := do
  applyRegState v m fuel sr.rsCurrent
  putUnwindInfo

theorem applyAndPut_keeps_fetched (sr : StateRecord) :
    Act.Keeps St.fetched (applyAndPut v m fuel sr) := by
  refine Act.Keeps.bind (fun s => congrArg Prod.snd (applyRegState_reframes v m fuel _ s).aside)
    (fun _ => ?_)
  exact putUnwindInfo_keeps fun _ => rfl

end Rest

/-! ### The step -/

section Step

variable {k : Kernel} {v : Validator} {m : Mem} {fuel : ℕ} {s t : St} {dci : CieInfo}

theorem updateUsePrevInstr_keeps_piValid (need : Bool) :
    Act.Keeps (fun s : St => s.c.piValid) (updateUsePrevInstr need) := by
  refine Act.Keeps.bind Act.Keeps.get (fun s => ?_)
  split
  · exact Act.Keeps.modify fun _ => rfl
  · exact Act.Keeps.pure _

/-- A search that succeeds leaves a valid procedure info. -/
theorem fetchDone_piValid {need dynamic : Bool} {ret : Except UnwError Unit}
    (h : fetchDone need dynamic ret s = (.ok (), t)) : t.c.piValid = true := by
  unfold fetchDone at h
  rw [Act.get_bind] at h
  split at h
  · cases h
  · rw [setCursor_bind] at h
    obtain ⟨⟨⟩, u, hu, h⟩ := Act.bind_eq_ok h
    have hvalid := updateUsePrevInstr_keeps_piValid need
      { s with c := { s.c with piValid := true, piIsDynamic := dynamic } }
    rw [hu] at hvalid
    cases ret with
    | ok _ =>
      cases h
      exact hvalid
    | error e => cases h

theorem fetchProcInfo_piValid {ip : Word} (h : fetchProcInfo k m ip true s = (.ok (), t)) :
    t.c.piValid = true := by
  unfold fetchProcInfo at h
  rw [Act.get_bind, if_neg (fun hc => hc.2 rfl), setCursor_bind] at h
  obtain ⟨ret, u, -, h⟩ := Act.bind_eq_ok h
  split at h
  · obtain ⟨⟨⟩, w, -, h⟩ := Act.bind_eq_ok h
    exact fetchDone_piValid h
  · exact fetchDone_piValid h

/-- The row state in which the instructions of the CIE are started. -/
def rowStart (t : St) : RowState := ⟨StateRecord.init, t.regStatePool, t.fetched⟩

theorem createStateRecordFor_eq (hvalid : t.c.piValid = true)
    (hformat : t.c.pi.format = .table ∨ t.c.pi.format = .remoteTable) (ip : Word) :
    createStateRecordFor m fuel ip t = parseFde m fuel ip t := by
  unfold createStateRecordFor
  rw [Act.get_bind, if_pos hvalid]
  obtain hf | hf := hformat
  · rw [hf]
  · rw [hf]

/-- The programs of the CIE and the FDE decide what `parse_fde` does. -/
theorem parseFde_congr (hdci : t.c.pi.unwindInfo = .cie dci) {ip ip' : Word}
    (h : parseFdePrograms m t.c.pi dci fuel ip (rowStart t) =
      parseFdePrograms m t.c.pi dci fuel ip' (rowStart t)) :
    parseFde m fuel ip t = parseFde m fuel ip' t := by
  unfold parseFde
  rw [Act.get_bind, Act.get_bind, hdci]
  simp only [setCursor_bind]
  rw [Act.zoom_apply, Act.zoom_apply]
  have hrun := Act.bind_congr_left (fun _ => Act.get >>= fun w : RowState => pure w.sr) h
  unfold rowStart at hrun
  rw [hrun]

theorem parseFde_fetched (hdci : t.c.pi.unwindInfo = .cie dci) (ip : Word) :
    (parseFde m fuel ip t).2.fetched =
      (parseFdePrograms m t.c.pi dci fuel ip (rowStart t)).2.fetched := by
  have hrest : ∀ _ : Unit, Act.Keeps RowState.fetched
      (Act.get >>= fun w => pure w.sr : Act UnwError RowState StateRecord) :=
    fun _ => Act.Keeps.bind Act.Keeps.get fun _ => Act.Keeps.pure _
  unfold parseFde
  rw [Act.get_bind, hdci]
  simp only [setCursor_bind]
  rw [Act.zoom_apply]
  exact Act.Keeps.bind_snd hrest (parseFdePrograms m t.c.pi dci fuel ip) (rowStart t)

/-- **When the row applied is the row of the call site.** For an FDE that covers the
looked-up address, `uncached_dwarf_find_save_locs` executes the instructions up to that
address and applies their row, unless the frame is a call frame and a row starts exactly
at its return address. -/
theorem findSaveLocs_at_call_site_iff (k : Kernel) (v : Validator) (m : Mem) (fuel : ℕ) (s t : St)
    (dci : CieInfo) (hfetch : fetchProcInfo k m s.c.ip true s = (.ok (), t))
    (hdci : t.c.pi.unwindInfo = .cie dci)
    (hformat : t.c.pi.format = .table ∨ t.c.pi.format = .remoteTable)
    (hcover : t.c.pi.startIp ≤ lookupIp s.c s.c.ip ∧ lookupIp s.c s.c.ip < t.c.pi.endIp) :
    uncachedDwarfFindSaveLocs k v m fuel s = findSaveLocsAtCallSite k v m fuel s ↔
      ¬(s.c.usePrevInstr = true ∧ RowStartsAt m t.c.pi dci fuel s.c.ip (rowStart t)) := by
  have hip : t.c.ip = s.c.ip := by
    have hframe := fetchProcInfo_keeps k m s.c.ip true s
    rw [hfetch] at hframe
    exact congrArg Prod.fst hframe
  have hvalid := fetchProcInfo_piValid hfetch
  have hleft : uncachedDwarfFindSaveLocs k v m fuel s =
      (parseFde m fuel s.c.ip >>= applyAndPut v m fuel) t := by
    unfold uncachedDwarfFindSaveLocs
    rw [Act.get_bind, Act.bind_of_ok hfetch, Act.get_bind, hip]
    exact Act.bind_congr_left (applyAndPut v m fuel) (createStateRecordFor_eq hvalid hformat _)
  have hright : findSaveLocsAtCallSite k v m fuel s =
      (parseFde m fuel (lookupIp s.c s.c.ip) >>= applyAndPut v m fuel) t := by
    unfold findSaveLocsAtCallSite
    rw [Act.get_bind, Act.bind_of_ok hfetch]
    exact Act.bind_congr_left (applyAndPut v m fuel) (createStateRecordFor_eq hvalid hformat _)
  rw [hleft, hright]
  cases hprev : s.c.usePrevInstr with
  | false =>
    -- the two addresses are the same
    have hlookup : lookupIp s.c s.c.ip = s.c.ip := by
      unfold lookupIp
      rw [hprev]
      rfl
    rw [hlookup]
    exact iff_of_true rfl fun h => Bool.false_ne_true h.1
  | true =>
    have hlookup : lookupIp s.c s.c.ip = s.c.ip - 1 := by
      unfold lookupIp
      rw [hprev]
      rfl
    have hne : s.c.ip ≠ 0 := by
      intro hzero
      have hlt := hcover.2
      rw [hlookup, hzero] at hlt
      bv_omega
    rw [hlookup]
    by_cases hrow : RowStartsAt m t.c.pi dci fuel s.c.ip (rowStart t)
    · refine iff_of_false (fun heq => ?_) (not_not.mpr ⟨rfl, hrow⟩)
      have hfetched := congrArg (fun r => r.2.fetched) heq
      simp only [Act.Keeps.bind_snd (applyAndPut_keeps_fetched v m fuel), parseFde_fetched hdci]
        at hfetched
      exact parseFdePrograms_fetched hne hrow hfetched
    · refine iff_of_true ?_ fun h => hrow h.2
      exact Act.bind_congr_left _ (parseFde_congr hdci (parseFdePrograms_of_not hne hrow))

end Step

/-! ### A procedure with two rows -/

/-- A search table at `0x2000` with one entry, a CIE at `0x2008` and an FDE at `0x201a`.
The FDE covers the code from `0x5000` to `0x5100`. Its CFA is `RSP` + 8 up to `0x5010`,
and `RSP` + 16 from there on. -/
def twoRowsMem : Mem := fun a =>
  ([0x00, 0x50, 0x00, 0x00, 0x1a, 0x20, 0x00, 0x00,
    -- the CIE: length, id, version, augmentation, factors 1 and -8, column 16
    0x0e, 0x00, 0x00, 0x00, 0x00, 0x00, 0x00, 0x00, 0x01, 0x00, 0x01, 0x78, 0x10,
    -- def_cfa RSP 8, offset RIP -8
    0x0c, 0x07, 0x08, 0x90, 0x01,
    -- the FDE: length, distance to the CIE, start, range
    0x17, 0x00, 0x00, 0x00, 0x16, 0x00, 0x00, 0x00,
    0x00, 0x50, 0x00, 0x00, 0x00, 0x00, 0x00, 0x00,
    0x00, 0x01, 0x00, 0x00, 0x00, 0x00, 0x00, 0x00,
    -- advance_loc 16, def_cfa_offset 16
    0x50, 0x0e, 0x10] : List Byte).getD (a - 0x2000).toNat 0

/-- A system in which that table is registered. -/
def twoRowsKernel : Kernel where
  linkerFiles := []
  linkerDdbSearchSymbol _ := none
  linkerDdbSymbolValues _ := none
  memValidateFunc _ _ := true
  dynInfoList := [⟨0x5000, 0x5100, 0, .remoteTable 0 1 0x2000⟩]

/-- A call frame of the procedure, with this return address. -/
def callFrame (ip : Word) : St where
  c :=
    { cfa := 0x7000
      ip := ip
      argsSize := 0
      retAddrColumn := 16
      ehArgs := fun _ => 0
      ehValidMask := 0
      loc := fun _ => 0
      stashFrames := false
      usePrevInstr := true
      piValid := false
      piIsDynamic := false
      pi := ProcInfo.zero
      frameInfo := ⟨0, .other, false, false, 0, 0, 0⟩
      sigcontextFormat := .none
      sigcontextAddr := 0
      validate := true
      uc := 0x40000 }
  lga := Lga.empty
  ciePool := ⟨0, 0⟩
  regStatePool := ⟨0, 0⟩
  fetched := []

/-- What the search finds for that frame. -/
def twoRowsCie : CieInfo :=
  { CieInfo.zero with
    cieInstrStart := 0x2015
    cieInstrEnd := 0x201a
    fdeInstrStart := 0x2032
    fdeInstrEnd := 0x2035
    codeAlign := 1
    dataAlign := -8
    retAddrColumn := 16
    fdeEncoding := dwEhPeUdata8
    lsdaEncoding := dwEhPeOmit }

/-- A return address inside the second row. -/
theorem findSaveLocs_inside_row :
    uncachedDwarfFindSaveLocs twoRowsKernel msyncValidate twoRowsMem 9 (callFrame 0x5012) =
      findSaveLocsAtCallSite twoRowsKernel msyncValidate twoRowsMem 9 (callFrame 0x5012) := by
  refine (findSaveLocs_at_call_site_iff twoRowsKernel msyncValidate twoRowsMem 9 (callFrame 0x5012)
    (fetchProcInfo twoRowsKernel twoRowsMem 0x5012 true (callFrame 0x5012)).2 twoRowsCie
    (Prod.ext (by decide +kernel) rfl) (by decide +kernel) (by decide +kernel)
    (by decide +kernel)).mpr ?_
  rintro ⟨-, w, u, hcie, hu, hcurr, -⟩
  have hw := congrArg Prod.snd hcie
  subst hw
  have hu' := congrArg Prod.snd hu
  subst hu'
  exact absurd hcurr (by decide +kernel)

/-- A return address at which the second row starts: the source executes the instruction
that takes effect there, and the CFA is off by 8. -/
theorem findSaveLocs_past_call :
    (uncachedDwarfFindSaveLocs twoRowsKernel msyncValidate twoRowsMem 9
        (callFrame 0x5010)).2.c.cfa = 0x7010 ∧
      (findSaveLocsAtCallSite twoRowsKernel msyncValidate twoRowsMem 9
        (callFrame 0x5010)).2.c.cfa = 0x7008 ∧
      uncachedDwarfFindSaveLocs twoRowsKernel msyncValidate twoRowsMem 9 (callFrame 0x5010) ≠
        findSaveLocsAtCallSite twoRowsKernel msyncValidate twoRowsMem 9 (callFrame 0x5010) := by
  have hleft : (uncachedDwarfFindSaveLocs twoRowsKernel msyncValidate twoRowsMem 9
      (callFrame 0x5010)).2.c.cfa = 0x7010 := by decide +kernel
  have hright : (findSaveLocsAtCallSite twoRowsKernel msyncValidate twoRowsMem 9
      (callFrame 0x5010)).2.c.cfa = 0x7008 := by decide +kernel
  refine ⟨hleft, hright, fun heq => ?_⟩
  rw [heq, hright] at hleft
  exact absurd hleft (by decide)

end LibunwindKern
