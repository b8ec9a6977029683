import LibunwindKern.Lib.Res
import LibunwindKern.Lib.ByteMem

/-!
# The data of the unwinder

The records of `libunwind-common.h`, `libunwind-dynamic.h`, `dwarf.h` and the
x86-64 `libunwind_i.h` that the modelled functions read or write, in the local-only
build (`UNW_LOCAL_ONLY`). A location (`dwarf_loc_t`) is then a plain address, with
`0` for "no location".

* Error codes are the enumeration of `libunwind-common.h`. A C function that
  returns a negated code returns `Res.err`.
* A memory pool is the number of objects taken from it and returned to it.
* `UnwindInfo` is the pointer `unw_proc_info_t.unwind_info`. For a table it points
  to a private copy of the CIE data, and for a dynamically registered procedure to
  the list entry itself.
* `Kernel` is what the library asks the rest of the system for: the loaded files,
  the symbol queries, the page validator, and the list of dynamic unwind info.
-/

namespace LibunwindKern

open CProg ByteMem

/-- `unw_error_t`. -/
inductive UnwError where
  | eunspec
  | enomem
  | ebadreg
  | ereadonlyreg
  | estopunwind
  | einvalidip
  | ebadframe
  | einval
  | ebadversion
  | enoinfo
  deriving DecidableEq, Repr

/-- `DWARF_NUM_PRESERVED_REGS`. -/
abbrev dwarfNumPreservedRegs : ℕ := 17

/-- A memory pool (`struct mempool`): how many objects were taken from it and how
many were returned to it. -/
structure Pool where
  allocs : ℕ
  frees : ℕ
  deriving DecidableEq, Repr

/-- `mempool_alloc`, which never returns `NULL`. -/
def Pool.alloc (p : Pool) : Pool := { p with allocs := p.allocs + 1 }

/-- `mempool_free`. -/
def Pool.free (p : Pool) : Pool := { p with frees := p.frees + 1 }

/-! ### Procedure information -/

/-- `dwarf_cie_info_t`. -/
structure CieInfo where
  cieInstrStart : Word
  cieInstrEnd : Word
  fdeInstrStart : Word
  fdeInstrEnd : Word
  codeAlign : Word
  dataAlign : Word
  retAddrColumn : Word
  handler : Word
  abi : BitVec 16
  tag : BitVec 16
  fdeEncoding : Byte
  lsdaEncoding : Byte
  sizedAugmentation : Bool
  haveAbiMarker : Bool
  signalFrame : Bool
  deriving DecidableEq, Repr

/-- A zeroed `dwarf_cie_info_t`. -/
def CieInfo.zero : CieInfo := ⟨0, 0, 0, 0, 0, 0, 0, 0, 0, 0, 0, 0, false, false, false⟩

/-- `unw_dyn_info_format_t`. -/
inductive InfoFormat where
  | dynamic
  | table
  | remoteTable
  | armExidx
  deriving DecidableEq, Repr

/-- What `unw_proc_info_t.unwind_info` points to. -/
inductive UnwindInfo where
  | null
  /-- A private copy of the data of a CIE and an FDE. -/
  | cie (dci : CieInfo)
  /-- An entry of the dynamic-info list. `pad0` is its padding word, which holds the
  bytes where a `dwarf_cie_info_t` has its flags. -/
  | dynamic (pad0 : BitVec 32)
  deriving DecidableEq, Repr

/-- `unw_proc_info_t`. -/
structure ProcInfo where
  startIp : Word
  endIp : Word
  lsda : Word
  handler : Word
  gp : Word
  flags : Word
  format : InfoFormat
  unwindInfoSize : ℕ
  unwindInfo : UnwindInfo
  deriving DecidableEq, Repr

/-- A zeroed `unw_proc_info_t`. -/
def ProcInfo.zero : ProcInfo := ⟨0, 0, 0, 0, 0, 0, .dynamic, 0, .null⟩

/-- `UNW_PI_FLAG_DEBUG_FRAME`. -/
def unwPiFlagDebugFrame : Word := 32

/-- `sizeof (struct dwarf_cie_info)`. -/
def sizeofCieInfo : ℕ := 72

/-! ### Dynamically registered unwind info -/

/-- `struct unw_debug_frame_list`, the fields the search of a table uses. -/
structure DebugFrame where
  debugFrame : Word
  index : Word
  indexSize : Word
  deriving DecidableEq, Repr

/-- The format of an `unw_dyn_info_t` and the member of its union that goes with
it. The `table_data` of a table may be `NULL`. -/
inductive DynUnion where
  | dynamic (handler : Word) (flags : BitVec 32) (pad0 : BitVec 32)
  | table (segbase : Word) (tableData : Option DebugFrame)
  | remoteTable (segbase tableLen tableData : Word)
  | armExidx
  deriving DecidableEq, Repr

/-- `unw_dyn_info_t`, less the links of the list it is in. -/
structure DynInfo where
  startIp : Word
  endIp : Word
  gp : Word
  u : DynUnion
  deriving DecidableEq, Repr

/-- `unw_dyn_info_t.format`. -/
def DynInfo.format (di : DynInfo) : InfoFormat :=
  match di.u with
  | .dynamic .. => .dynamic
  | .table .. => .table
  | .remoteTable .. => .remoteTable
  | .armExidx => .armExidx

/-! ### The system around the library -/

/-- `Elf_progent`: a loaded section. A name may be `NULL`. -/
structure Progent where
  addr : Word
  size : Word
  name : Option String
  deriving DecidableEq, Repr

/-- A loaded file: the `linker_file` and `elf_file` fields that are read. -/
structure LinkerFile where
  filename : Option String
  address : Word
  size : Word
  progtab : List Progent
  deriving DecidableEq, Repr

/-- `linker_symval_t`. -/
structure SymVal where
  name : Word
  value : Word
  size : Word
  deriving DecidableEq, Repr

/-- What the library asks the rest of the system for. A failed query is `none`. -/
structure Kernel where
  linkerFiles : List LinkerFile
  linkerDdbSearchSymbol : Word → Option Word
  linkerDdbSymbolValues : Word → Option SymVal
  /-- `mem_validate_func`: whether the pages from an address on are good. -/
  memValidateFunc : Word → Word → Bool
  dynInfoList : List DynInfo

/-! ### The cursor -/

/-- `unw_tdep_frame_type_t`. -/
inductive FrameType where
  | standard
  | sigreturn
  | other
  | guessed
  deriving DecidableEq, Repr

/-- `unw_tdep_frame_t`, with the widths of its bit-fields. -/
structure FrameInfo where
  virtualAddress : Word
  frameType : FrameType
  lastFrame : Bool
  cfaRegRsp : Bool
  cfaRegOffset : BitVec 30
  rbpCfaOffset : BitVec 15
  rspCfaOffset : BitVec 15
  deriving DecidableEq, Repr

/-- `sigcontext_format`. -/
inductive SigcontextFormat where
  | none
  | linuxRtSigframe
  | freebsdSigframe
  | freebsdSyscall
  deriving DecidableEq, Repr

/-- `struct cursor`, with the `struct dwarf_cursor` it starts with. -/
structure Cursor where
  cfa : Word
  ip : Word
  argsSize : Word
  retAddrColumn : Word
  ehArgs : Fin 2 → Word
  ehValidMask : BitVec 32
  loc : Fin dwarfNumPreservedRegs → Word
  stashFrames : Bool
  usePrevInstr : Bool
  piValid : Bool
  piIsDynamic : Bool
  pi : ProcInfo
  frameInfo : FrameInfo
  sigcontextFormat : SigcontextFormat
  sigcontextAddr : Word
  validate : Bool
  -- the address of the saved context
  uc : Word

end LibunwindKern
