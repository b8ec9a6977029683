import LibunwindKern.Dwarf.Types
import Mathlib.Logic.Function.Basic

/-!
# Memory and register access

The accessors of `Ginit.c`, `dwarf_get` of the x86-64 `libunwind_i.h`,
`tdep_access_reg` (`Gregs.c`) and `unw_get_reg` (`Gget_reg.c`), for reading, and
`x86_64_r_uc_addr` (`Gos-freebsd.c`), the slots of a saved context.

A read changes nothing but the cache of validated pages, so the state of a read is
`Lga` (`last_good_addr` and `lga_victim`) and the memory is a parameter. The page
validator is a parameter too. The one that `tdep_init_mem_validate` installs in the
kernel is `msyncValidate`, which accepts everything.
-/

namespace LibunwindKern

open CProg ByteMem

/-- A page validator: whether the bytes from an address on, of the given number, can
be read. -/
abbrev Validator := Word → Word → Bool

/-- `msync_validate`. -/
def msyncValidate : Validator := fun _ _ => true

/-- The cache of validated pages. -/
structure Lga where
  lastGoodAddr : Fin 4 → Word
  victim : Fin 4

/-- An empty cache. -/
def Lga.empty : Lga := ⟨fun _ => 0, 0⟩

/-- `PAGE_START`. -/
def pageStart (a : Word) : Word := a &&& ~~~(4095#64)

/-- The last loop of `validate_mem`: the page goes to the first free slot from the
victim on, and replaces the victim when no slot is free. -/
def Lga.insertFrom (page : Word) : ℕ → Fin 4 → Lga → Lga
  | 0, victim, g =>
    { lastGoodAddr := Function.update g.lastGoodAddr victim page, victim := victim + 1 }
  | n + 1, victim, g =>
    if g.lastGoodAddr victim = 0 then
      { g with lastGoodAddr := Function.update g.lastGoodAddr victim page }
    else
      Lga.insertFrom page n (victim + 1) g

/-- `validate_mem`: whether the word at `addr` may be read. -/
def validateMem (v : Validator) (addr : Word) (g : Lga) : Bool × Lga :=
  let len : Word := if pageStart (addr + 7) = pageStart addr then 4096 else 8192
  let page := pageStart addr
  if page = 0 then (false, g)
  else if ∃ i, g.lastGoodAddr i = page then (true, g)
  else if v page len then (true, Lga.insertFrom page 4 g.victim g)
  else (false, g)

/-- `access_mem`, reading. The `-1` it returns for a bad address is `-UNW_EUNSPEC`. -/
def accessMem (v : Validator) (m : Mem) (validate : Bool) (addr : Word) : Act UnwError Lga Word :=
  fun g =>
    if validate then
      (if (validateMem v addr g).1 then .ok (load64 m addr) else .err .eunspec,
        (validateMem v addr g).2)
    else (.ok (load64 m addr), g)

/-- `dwarf_get`. -/
def dwarfGet (v : Validator) (m : Mem) (c : Cursor) (loc : Word) : Act UnwError Lga Word :=
  if loc = 0 then Act.fail .ebadreg else accessMem v m c.validate loc

theorem accessMem_of_not_validate (v : Validator) (m : Mem) (addr : Word) (g : Lga) :
    accessMem v m false addr g = (.ok (load64 m addr), g) := rfl

theorem accessMem_of_validate (v : Validator) (m : Mem) (addr : Word) (g : Lga) :
    accessMem v m true addr g =
      (if (validateMem v addr g).1 then .ok (load64 m addr) else .err .eunspec,
        (validateMem v addr g).2) := rfl

theorem dwarfGet_null (v : Validator) (m : Mem) (c : Cursor) (g : Lga) :
    dwarfGet v m c 0 g = (.err .ebadreg, g) := rfl

theorem dwarfGet_of_ne (v : Validator) (m : Mem) (c : Cursor) {loc : Word} (h : loc ≠ 0) :
    dwarfGet v m c loc = accessMem v m c.validate loc := if_neg h

/-- The installed validator accepts every page but the first. -/
theorem validateMem_msync (addr : Word) (g : Lga) :
    (validateMem msyncValidate addr g).1 = decide (pageStart addr ≠ 0) := by
  unfold validateMem msyncValidate
  by_cases hpage : pageStart addr = 0
  · simp only [hpage, if_true]
    rfl
  · simp only [hpage, if_false, if_true, ne_eq, not_false_eq_true, decide_true]
    split_ifs <;> rfl

/-! ### Registers

The register numbers of `libunwind-x86_64.h` and the DWARF columns of `unwind_i.h`
are the same numbers. -/

abbrev RAX : Fin dwarfNumPreservedRegs := 0
abbrev RDX : Fin dwarfNumPreservedRegs := 1
abbrev RCX : Fin dwarfNumPreservedRegs := 2
abbrev RBX : Fin dwarfNumPreservedRegs := 3
abbrev RSI : Fin dwarfNumPreservedRegs := 4
abbrev RDI : Fin dwarfNumPreservedRegs := 5
abbrev RBP : Fin dwarfNumPreservedRegs := 6
abbrev RSP : Fin dwarfNumPreservedRegs := 7
abbrev R8 : Fin dwarfNumPreservedRegs := 8
abbrev R9 : Fin dwarfNumPreservedRegs := 9
abbrev R10 : Fin dwarfNumPreservedRegs := 10
abbrev R11 : Fin dwarfNumPreservedRegs := 11
abbrev R12 : Fin dwarfNumPreservedRegs := 12
abbrev R13 : Fin dwarfNumPreservedRegs := 13
abbrev R14 : Fin dwarfNumPreservedRegs := 14
abbrev R15 : Fin dwarfNumPreservedRegs := 15
abbrev RIP : Fin dwarfNumPreservedRegs := 16

/-- `tdep_access_reg`, reading. Registers 17 (`UNW_X86_64_CFA`) and `RSP` are the CFA,
and `RAX` and `RDX` may have been set as arguments of a handler. -/
def tdepAccessReg (v : Validator) (m : Mem) (c : Cursor) (reg : ℕ) : Act UnwError Lga Word :=
  if reg = 17 ∨ reg = 7 then pure c.cfa
  else if h : reg < 2 then
    if c.ehValidMask.getLsbD reg then pure (c.ehArgs ⟨reg, h⟩)
    else dwarfGet v m c (c.loc ⟨reg, Nat.lt_trans h (by decide)⟩)
  else if h : reg < dwarfNumPreservedRegs then dwarfGet v m c (c.loc ⟨reg, h⟩)
  else Act.fail .ebadreg

/-- `unw_get_reg`. -/
def unwGetReg (v : Validator) (m : Mem) (c : Cursor) (regnum : ℕ) : Act UnwError Lga Word :=
  if regnum = 16 then pure c.ip else tdepAccessReg v m c regnum

/-- The offset of a register in a saved context (`ucontext_i.h`, FreeBSD). -/
def ucOffset (reg : Fin dwarfNumPreservedRegs) : Word :=
  [0x48, 0x28, 0x30, 0x50, 0x20, 0x18, 0x58, 0xc8, 0x38, 0x40, 0x60, 0x68, 0x70, 0x78, 0x80,
    0x88, 0xb0].get reg

/-- `x86_64_r_uc_addr`: the slot of a register in the saved context at `uc`, for the
registers that have one. -/
def x86_64RUcAddr (uc : Word) (reg : ℕ) : Option Word :=
  if h : reg < dwarfNumPreservedRegs then some (uc + ucOffset ⟨reg, h⟩) else none

end LibunwindKern
