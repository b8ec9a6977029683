import LibunwindKern.Dwarf.Fde

/-!
# Finding the unwind info of an address

The model of `Gfind_proc_info-lsb.c`, `Gdyn-extract.c`, `Gfind_dynamic_proc_info.c`
and `Gput_dynamic_unwind_info.c`.

The searches write the procedure info and take unwind info from a pool. Both are in
`PiState`. `dwarf_callback` also writes the `dwarf_callback_data` it is given. Its
fields `single_fde` and `di` are part of `CbState`, with `none` for the format `-1`
that `dwarf_find_proc_info` initialises `di` with.

`linker_file_foreach` is the kernel's: it calls the predicate on each file in order,
stops at the first non-zero result and returns it.
-/

namespace LibunwindKern

open CProg ByteMem

/-- What a search for unwind info writes. -/
structure PiState where
  pi : ProcInfo
  pool : Pool
  deriving DecidableEq, Repr

/-! ### Linear search -/

/-- `linear_search`, over the records still allowed by `fde_count`. The address
variable is `FdeState.addrp`. -/
def linearSearch (m : Mem) (ip ehFrameEnd : Word) (needUnwindInfo : Bool) :
    ℕ → Act UnwError FdeState Unit
  | 0 => Act.fail .enoinfo
  | n + 1 => do
    let s ← Act.get
    if s.addrp < ehFrameEnd then do
      let ret ← Act.attempt (dwarfExtractProcInfoFromFde m false 0)
      match ret with
      | .error _ => linearSearch m ip ehFrameEnd needUnwindInfo n
      | .ok () => do
        let s' ← Act.get
        if s'.pi.startIp ≤ ip ∧ ip < s'.pi.endIp then
          if needUnwindInfo then do
            Act.modify fun t => { t with addrp := s.addrp }
            dwarfExtractProcInfoFromFde m needUnwindInfo 0
          else
            pure ()
        else
          linearSearch m ip ehFrameEnd needUnwindInfo n
    else
      Act.fail .enoinfo

/-! ### Table search -/

/-- The binary search of `unw_lookup`. The source has no bound on the loop, and `fuel`
turns are enough when `hi - lo ≤ fuel`. -/
def unwLookupLoop (m : Mem) (table : Word) (relIp : BitVec 32) : ℕ → ℕ → ℕ → ℕ
  | 0, _, hi => hi
  | fuel + 1, lo, hi =>
    if lo < hi then
      if relIp.slt (load32 m (table + BitVec.ofNat 64 (8 * ((lo + hi) / 2)))) then
        unwLookupLoop m table relIp fuel lo ((lo + hi) / 2)
      else
        unwLookupLoop m table relIp fuel ((lo + hi) / 2 + 1) hi
    else hi

/-- `unw_lookup`: the address of the entry it returns. -/
def unwLookup (m : Mem) (table tableSize : Word) (relIp : BitVec 32) : Option Word :=
  let tableLen := tableSize.toNat / 8
  let hi := unwLookupLoop m table relIp tableLen 0 tableLen
  if hi = 0 then none else some (table + BitVec.ofNat 64 (8 * (hi - 1)))

/-- Run `dwarf_extract_proc_info_from_fde` on an address of its own. -/
def extractAt (m : Mem) (needUnwindInfo : Bool) (base fdeAddr : Word) : Act UnwError PiState Unit :=
  Act.zoom (fun s => ⟨fdeAddr, fdeAddr, s.pi, s.pool⟩) (fun t _ => ⟨t.pi, t.pool⟩)
    (dwarfExtractProcInfoFromFde m needUnwindInfo base)

/-- The part of `dwarf_search_unwind_table` after the table and its base are known. -/
def searchTable (m : Mem) (ip : Word) (format : InfoFormat)
    (table tableLen debugFrameBase segbase : Word) (needUnwindInfo : Bool) :
    Act UnwError PiState Unit :=
  match unwLookup m table tableLen ((ip - segbase).setWidth 32) with
  | none => Act.fail .enoinfo
  | some e => do
    let fdeOffset : Word := (load32 m (e + 4)).signExtend 64
    extractAt m needUnwindInfo debugFrameBase
      (if debugFrameBase ≠ 0 then fdeOffset + debugFrameBase else fdeOffset + segbase)
    if format = .table then
      Act.modify fun s =>
        { s with pi :=
          { s.pi with
            startIp := s.pi.startIp + segbase
            endIp := s.pi.endIp + segbase
            flags := unwPiFlagDebugFrame } }
    else
      pure ()
    let s ← Act.get
    if ip < s.pi.startIp ∨ s.pi.endIp ≤ ip then Act.fail .enoinfo else pure ()

/-- `dwarf_search_unwind_table`. -/
def dwarfSearchUnwindTable (m : Mem) (ip : Word) (di : DynInfo) (needUnwindInfo : Bool) :
    Act UnwError PiState Unit :=
  if di.format ≠ .remoteTable ∧ di.format ≠ .table then
    Act.lift .panic
  else if ¬(di.startIp ≤ ip ∧ ip < di.endIp) then
    Act.lift .panic
  else
    match di.u with
    | .remoteTable segbase tableLen tableData =>
      searchTable m ip .remoteTable tableData (tableLen * 8) 0 segbase needUnwindInfo
    | .table segbase (some fdesc) =>
      searchTable m ip .table fdesc.index (fdesc.indexSize * 8) fdesc.debugFrame segbase
        needUnwindInfo
    | _ => Act.lift .undefined

/-! ### The loaded files -/

/-- `strings_equal`. -/
def stringsEqual : Option String → Option String → Bool
  | none, none => true
  | some s, some t => s == t
  | _, _ => false

/-- `find_eh_frame_section`. -/
def findEhFrameSection (file : LinkerFile) : Option Progent :=
  if stringsEqual (some "kernel") file.filename then none
  else file.progtab.find? fun progent => stringsEqual progent.name (some ".eh_frame")

/-- What `dwarf_callback` writes: the procedure info, the pool, and the out fields of
`struct dwarf_callback_data`. -/
structure CbState where
  pi : ProcInfo
  pool : Pool
  singleFde : Bool
  di : Option DynInfo
  deriving DecidableEq, Repr

/-- `fde_count` as `dwarf_callback` computes it. -/
def fdeCount (ehFrameStart ehFrameEnd : Word) : ℕ := (ehFrameEnd - ehFrameStart).toNat / 8

/-- `linear_search` as `dwarf_callback` calls it. -/
def searchSection (m : Mem) (ip : Word) (needUnwindInfo : Bool) (sect : Progent) :
    Act UnwError CbState Unit :=
  Act.zoom (fun s => ⟨sect.addr, sect.addr, s.pi, s.pool⟩)
    (fun t s => { s with pi := t.pi, pool := t.pool })
    (linearSearch m ip (sect.addr + sect.size) needUnwindInfo
      (fdeCount sect.addr (sect.addr + sect.size)))

/-- The symbol that covers `ip`, if both symbol queries succeed. -/
def symbolAt (k : Kernel) (ip : Word) : Option SymVal :=
  (k.linkerDdbSearchSymbol ip).bind k.linkerDdbSymbolValues

/-- What `dwarf_callback` writes before it searches a section for the symbol
`values`. `single_fde` is set here, before the result of the search is known. -/
def startSearch (values : SymVal) (s : CbState) : CbState :=
  { s with
    pi := { s.pi with gp := 0, format := .table }
    di := some ⟨values.value, values.value + values.size, 0, .table 0 none⟩
    singleFde := true }

/-- `dwarf_callback`. -/
def dwarfCallback (k : Kernel) (m : Mem) (ip : Word) (needUnwindInfo : Bool) (file : LinkerFile) :
    Act UnwError CbState ℕ :=
  if ip < file.address ∨ file.address + file.size < ip then
    pure 0
  else
    match symbolAt k ip with
    | none => pure 0
    | some values =>
      match findEhFrameSection file with
      | none => do
        Act.modify fun s => { s with pi := { s.pi with gp := 0 } }
        pure 0
      | some sect => do
        Act.modify (startSearch values)
        let found ← Act.attempt (searchSection m ip needUnwindInfo sect)
        match found with
        | .ok () => pure 1
        | .error _ => pure 0

/-- `linker_file_foreach`. -/
def linkerFileForeach {σ : Type} (predicate : LinkerFile → Act UnwError σ ℕ) :
    List LinkerFile → Act UnwError σ ℕ
  | [] => pure 0
  | file :: files => do
    let ret ← predicate file
    if ret ≠ 0 then pure ret else linkerFileForeach predicate files

/-- `dwarf_find_proc_info`. The result `0` is `ok`. Nothing writes `di_debug`, whose
format stays `-1`, so its table is never searched. -/
def dwarfFindProcInfo (k : Kernel) (m : Mem) (ip : Word) (needUnwindInfo : Bool) :
    Act UnwError PiState Unit := do
  let r ← Act.zoom (fun s => (⟨s.pi, s.pool, false, none⟩ : CbState)) (fun t _ => ⟨t.pi, t.pool⟩)
    (do
      let ret ← linkerFileForeach (dwarfCallback k m ip needUnwindInfo) k.linkerFiles
      let t ← Act.get
      pure (ret, t.singleFde, t.di))
  if r.1 > 0 then
    Act.fail .enoinfo
  else if r.2.1 then
    pure () -- already got the result in *pi
  else
    match r.2.2 with
    | some di => dwarfSearchUnwindTable m ip di needUnwindInfo
    | none => Act.fail .enoinfo

/-! ### Dynamically registered unwind info -/

/-- `unwi_extract_dynamic_proc_info`. -/
def unwiExtractDynamicProcInfo (m : Mem) (ip : Word) (di : DynInfo) (needUnwindInfo : Bool) :
    Act UnwError PiState Unit := do
  Act.modify fun s =>
    { s with pi :=
      { s.pi with startIp := di.startIp, endIp := di.endIp, gp := di.gp, format := di.format } }
  match di.u with
  | .dynamic handler flags pad0 =>
    Act.modify fun s =>
      { s with pi :=
        { s.pi with
          handler := handler
          lsda := 0
          flags := flags.setWidth 64
          unwindInfoSize := 0
          unwindInfo := if needUnwindInfo then .dynamic pad0 else .null } }
  | .table .. => dwarfSearchUnwindTable m ip di needUnwindInfo
  | .remoteTable .. => dwarfSearchUnwindTable m ip di needUnwindInfo
  | .armExidx => Act.fail .einval

/-- `local_find_proc_info`, over the entries still to look at. -/
def localFindProcInfo (m : Mem) (ip : Word) (needUnwindInfo : Bool) :
    List DynInfo → Act UnwError PiState Unit
  | [] => Act.fail .enoinfo
  | di :: dis =>
    if di.startIp ≤ ip ∧ ip < di.endIp then
      unwiExtractDynamicProcInfo m ip di needUnwindInfo
    else
      localFindProcInfo m ip needUnwindInfo dis

/-- `unwi_find_dynamic_proc_info`. -/
def unwiFindDynamicProcInfo (k : Kernel) (m : Mem) (ip : Word) (needUnwindInfo : Bool) :
    Act UnwError PiState Unit :=
  localFindProcInfo m ip needUnwindInfo k.dynInfoList

end LibunwindKern
