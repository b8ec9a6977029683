import LibunwindKern.Dwarf.Reader

/-!
# CIE and FDE records

The model of `Gfde.c`. `parseCie` reads a CIE from an address of its own.
`dwarfExtractProcInfoFromFde` works on the state `FdeState`: its local `addr`, and
what it has pointers to, namely the address variable `*addrp` of the caller, the
procedure info `*pi` and the pool the unwind info is taken from. These keep what
was written to them when the function returns an error, and `linear_search` goes
on after such an error, so the order of the writes is the one of the source.
-/

namespace LibunwindKern

open CProg ByteMem

/-- `is_cie_id`. -/
def isCieId (val : Word) (isDebugFrame : Bool) : Bool :=
  if isDebugFrame then val = 0xffffffff ∨ val = 0xffffffffffffffff else val = 0

/-! ### The CIE -/

/-- The length and the id of a CIE: the address of its end. -/
def parseCieHeader (m : Mem) (base : Word) : Reader Word := do
  let u32val ← dwarfReadu32 m
  if u32val ≠ 0xffffffff then do
    -- the CIE is in the 32-bit DWARF format
    let addr ← Act.get
    let cieId ← dwarfReadu32 m
    if cieId ≠ (if base ≠ 0 then 0xffffffff else 0) then
      Act.fail .einval
    else
      pure (addr + u32val.setWidth 64)
  else do
    -- the CIE is in the 64-bit DWARF format
    let len ← dwarfReadu64 m
    let addr ← Act.get
    let cieId ← dwarfReadu64 m
    if cieId ≠ (if base ≠ 0 then 0xffffffffffffffff else 0) then
      Act.fail .einval
    else
      pure (addr + len)

/-- The loop that reads the augmentation string. Only its first four characters are
kept, because `augstr` has room for four and a terminator. -/
def readAugstr (m : Mem) : ℕ → List Byte → Reader (List Byte)
  | 0, _ => Act.lift .diverge
  | fuel + 1, augstr => do
    let ch ← dwarfReadu8 m
    if ch = 0 then
      pure augstr
    else
      readAugstr m fuel (if augstr.length < 4 then augstr ++ [ch] else augstr)

/-- The loop over the characters of the augmentation string. -/
def parseAugmentation (m : Mem) (pi : ProcInfo) : List Byte → CieInfo → Reader CieInfo
  | [], dci => pure dci
  | c :: cs, dci =>
    if c = 0x4c then do
      -- 'L': the LSDA pointer-encoding format
      let ch ← dwarfReadu8 m
      parseAugmentation m pi cs { dci with lsdaEncoding := ch }
    else if c = 0x52 then do
      -- 'R': the FDE pointer-encoding format
      let fdeEncoding ← dwarfReadu8 m
      parseAugmentation m pi cs { dci with fdeEncoding := fdeEncoding }
    else if c = 0x50 then do
      -- 'P': the personality-routine pointer-encoding format, and the pointer
      let handlerEncoding ← dwarfReadu8 m
      let handler ← dwarfReadEncodedPointer m handlerEncoding pi
      parseAugmentation m pi cs { dci with handler := handler }
    else if c = 0x53 then
      -- 'S': this is a signal frame
      parseAugmentation m pi cs { dci with signalFrame := true, haveAbiMarker := true }
    else if dci.sizedAugmentation then
      pure dci
    else
      Act.fail .einval

/-- The return-address column: a byte in version 1, a ULEB128 number in version 3. -/
def readRetAddrColumn (m : Mem) (version : Byte) : Reader Word :=
  if version = 1 then do
    let ch ← dwarfReadu8 m
    pure (ch.setWidth 64)
  else
    dwarfReadUleb128 m

/-- The augmentation of a CIE, after its fixed fields. The size of a sized
augmentation is read and not used. -/
def parseSizedAugmentation (m : Mem) (pi : ProcInfo) (augstr : List Byte) (dci : CieInfo) :
    Reader CieInfo :=
  if augstr.head? = some 0x7a then do
    let _augSize ← dwarfReadUleb128 m
    parseAugmentation m pi augstr.tail { dci with sizedAugmentation := true }
  else
    parseAugmentation m pi augstr dci

/-- `parse_cie`, for a `dci` that was zeroed by the caller. -/
def parseCie (m : Mem) (pi : ProcInfo) (base : Word) : Reader CieInfo := do
  let cieEndAddr ← parseCieHeader m base
  let version ← dwarfReadu8 m
  if version ≠ 1 ∧ version ≠ 3 then
    Act.fail .ebadversion
  else do
    let augstr ← readAugstr m (2 ^ 64) []
    let codeAlign ← dwarfReadUleb128 m
    let dataAlign ← dwarfReadSleb128 m
    let retAddrColumn ← readRetAddrColumn m version
    let dci ← parseSizedAugmentation m pi augstr
      { CieInfo.zero with
        cieInstrEnd := cieEndAddr
        codeAlign := codeAlign
        dataAlign := dataAlign
        retAddrColumn := retAddrColumn
        fdeEncoding := dwEhPeUdata8
        lsdaEncoding := dwEhPeOmit }
    let addr ← Act.get
    pure { dci with cieInstrStart := addr }

/-! ### The FDE -/

/-- The variables of `dwarf_extract_proc_info_from_fde` that outlive an error, and its
local address. -/
structure FdeState where
  addr : Word
  addrp : Word
  pi : ProcInfo
  pool : Pool
  deriving DecidableEq, Repr

/-- Read at the local address. -/
def onAddr {α : Type} (x : Reader α) : Act UnwError FdeState α :=
  Act.zoom FdeState.addr (fun a s => { s with addr := a }) x

/-- The CIE address that goes with a `cie_offset`. -/
def cieAddrOf (base cieOffsetAddr cieOffset : Word) : Word :=
  if base ≠ 0 then base + cieOffset else cieOffsetAddr - cieOffset

/-- The length and the CIE pointer of a record: the address of its end, and the
address of its CIE unless the record is a CIE itself. -/
def fdeHeader (m : Mem) (base : Word) : Act UnwError FdeState (Word × Option Word) := do
  let u32val ← onAddr (dwarfReadu32 m)
  if u32val ≠ 0xffffffff then
    if u32val = 0 then
      -- an FDE with a 0 length indicates the end of the FDE-table
      Act.fail .enoinfo
    else do
      let s ← Act.get
      Act.modify fun s => { s with addrp := s.addr + u32val.setWidth 64 }
      let cieOffset ← onAddr (dwarfReads32 m)
      pure (s.addr + u32val.setWidth 64,
        if isCieId cieOffset (base ≠ 0) then none else some (cieAddrOf base s.addr cieOffset))
  else do
    let u64val ← onAddr (dwarfReadu64 m)
    let s ← Act.get
    Act.modify fun s => { s with addrp := s.addr + u64val }
    let cieOffset ← onAddr (dwarfReads64 m)
    pure (s.addr + u64val,
      if isCieId cieOffset (base ≠ 0) then none else some (cieAddrOf base s.addr cieOffset))

/-- The start and the range of the code an FDE covers. -/
def fdeRange (m : Mem) (dci : CieInfo) : Act UnwError FdeState Unit := do
  let s ← Act.get
  let startIp ← onAddr (dwarfReadEncodedPointer m dci.fdeEncoding s.pi)
  -- the range has the same format, but it is always an absolute value
  let ipRange ← onAddr (dwarfReadEncodedPointer m (dci.fdeEncoding &&& dwEhPeFormatMask) s.pi)
  Act.modify fun s =>
    { s with
      pi := { s.pi with startIp := startIp, endIp := startIp + ipRange, handler := dci.handler } }

/-- The size of the augmentation of an FDE: the address where it ends, `0` for an
augmentation without a size. -/
def fdeAugmentationEnd (m : Mem) (dci : CieInfo) : Act UnwError FdeState Word :=
  if dci.sizedAugmentation then do
    let augSize ← onAddr (dwarfReadUleb128 m)
    let s ← Act.get
    pure (s.addr + augSize)
  else
    pure 0

/-- The LSDA pointer of an FDE. It is read after `pi->start_ip` was written. -/
def fdeLsda (m : Mem) (dci : CieInfo) : Act UnwError FdeState Unit := do
  let s ← Act.get
  let lsda ← onAddr (dwarfReadEncodedPointer m dci.lsdaEncoding s.pi)
  Act.modify fun s => { s with pi := { s.pi with lsda := lsda } }

/-- The ABI marker of an FDE. -/
def fdeAbiMarker (m : Mem) (dci : CieInfo) : Act UnwError FdeState CieInfo :=
  if dci.haveAbiMarker then do
    let abi ← onAddr (dwarfReadu16 m)
    let tag ← onAddr (dwarfReadu16 m)
    pure { dci with abi := abi, tag := tag }
  else
    pure dci

/-- The unwind info of an FDE: a copy of the CIE data, completed with the range of the
FDE's own instructions. -/
def fdeUnwindInfo (m : Mem) (dci : CieInfo) (fdeEndAddr augEndAddr : Word) :
    Act UnwError FdeState Unit := do
  Act.modify fun s =>
    { s with
      pi := { s.pi with format := .table, unwindInfoSize := sizeofCieInfo }
      pool := s.pool.alloc }
  let dci ← fdeAbiMarker m dci
  let s ← Act.get
  let dci := { dci with
    fdeInstrStart := if dci.sizedAugmentation then augEndAddr else s.addr
    fdeInstrEnd := fdeEndAddr }
  Act.modify fun s => { s with pi := { s.pi with unwindInfo := .cie dci } }

/-- The part of `dwarf_extract_proc_info_from_fde` after the header of an FDE. -/
def fdeBody (m : Mem) (needUnwindInfo : Bool) (base fdeEndAddr cieAddr : Word) :
    Act UnwError FdeState Unit := do
  let s ← Act.get
  let dci ← Act.lift (parseCie m s.pi base cieAddr).1
  fdeRange m dci
  let augEndAddr ← fdeAugmentationEnd m dci
  fdeLsda m dci
  if needUnwindInfo then
    fdeUnwindInfo m dci fdeEndAddr augEndAddr
  else
    pure ()

/-- `dwarf_extract_proc_info_from_fde`. -/
def dwarfExtractProcInfoFromFde (m : Mem) (needUnwindInfo : Bool) (base : Word) :
    Act UnwError FdeState Unit := do
  Act.modify fun s => { s with addr := s.addrp }
  let h ← fdeHeader m base
  match h.2 with
  | none => pure () -- ignore CIEs (happens during linear searches)
  | some cieAddr => fdeBody m needUnwindInfo base h.1 cieAddr

end LibunwindKern
