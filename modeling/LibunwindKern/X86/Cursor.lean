import LibunwindKern.X86.Step

/-!
# The calls on a cursor

The model of `unw_init_local` (`Ginit_local.c`) with `common_init` (`init.h`), of
`unw_get_proc_info` (`Gget_proc_info.c`) and of `unw_set_reg` (`Gset_reg.c`) with the writing
half of `tdep_access_reg` (`Gregs.c`). `unw_step` and `unw_get_reg` are in the modules before.

`unw_init_local` does not write every field of the cursor. The ones it leaves (`eh_valid_mask`,
`eh_args`, `frame_info` and `pi` among them) hold whatever was there before. The one-time setup
of the library (`tdep_init`) is not part of the model.
-/

namespace LibunwindKern

open CProg ByteMem Unw

section

variable (v : Validator) (m : Mem)

/-- `common_init`. -/
def commonInit (usePrevInstr : Bool) : Unw Unit := do
  setCursor fun c => { c with loc := fun reg => c.uc + ucOffset reg }
  let ip ← read fun c => dwarfGet v m c (c.loc RIP)
  setCursor fun c => { c with ip := ip }
  let cfa ← read fun c => dwarfGet v m c (regLoc c 7)
  setCursor fun c =>
    { c with
      cfa := cfa
      sigcontextFormat := .none
      sigcontextAddr := 0
      argsSize := 0
      retAddrColumn := 16
      stashFrames := false
      usePrevInstr := usePrevInstr
      piValid := false
      piIsDynamic := false }

/-- `unw_init_local`, for the saved context at `uc`. -/
def unwInitLocal (uc : Word) : Unw Unit := do
  setCursor fun c => { c with uc := uc, validate := false }
  commonInit v m true

end

/-- `dwarf_make_proc_info`. -/
def dwarfMakeProcInfo (k : Kernel) (m : Mem) : Unw Unit := do
  let s ← Act.get
  fetchProcInfo k m s.c.ip false

/-- `unw_get_proc_info`. A procedure without unwind info is reported as one byte. -/
def unwGetProcInfo (k : Kernel) (m : Mem) : Unw ProcInfo := do
  let ret ← Act.attempt (dwarfMakeProcInfo k m)
  let s ← Act.get
  match ret with
  | .ok () => pure s.c.pi
  | .error _ => pure { ProcInfo.zero with startIp := s.c.ip, endIp := s.c.ip + 1 }

/-- A cursor in use, and the memory it works on. -/
structure Session where
  st : St
  mem : Mem

/-- A call that does not write memory. -/
def Session.onCursor {α : Type} (x : Mem → Unw α) : Act UnwError Session α := do
  let w ← Act.get
  Act.zoom Session.st (fun s w => { w with st := s }) (x w.mem)

/-- `dwarf_put`. -/
def dwarfPut (loc val : Word) : Act UnwError Session Unit :=
  if loc = 0 then Act.fail .ebadreg
  else Act.modify fun w => { w with mem := store64 w.mem loc val }

/-- Change the cursor of a session. -/
def Session.setCursor (f : Cursor → Cursor) : Act UnwError Session Unit :=
  Act.modify fun w => { w with st := { w.st with c := f w.st.c } }

/-- `tdep_access_reg`, writing. The arguments of a handler are kept in the cursor. -/
def tdepAccessRegWrite (reg : ℕ) (val : Word) : Act UnwError Session Unit := do
  let w ← Act.get
  if reg = 16 then do
    -- also update the RIP cache
    Session.setCursor fun c => { c with ip := val }
    dwarfPut (w.st.c.loc RIP) val
  else if reg = 17 ∨ reg = 7 then
    Act.fail .ereadonlyreg
  else if h : reg < 2 then
    Session.setCursor fun c =>
      { c with
        ehArgs := Function.update c.ehArgs ⟨reg, h⟩ val
        ehValidMask := c.ehValidMask ||| (1 <<< reg) }
  else if h : reg < dwarfNumPreservedRegs then
    dwarfPut (w.st.c.loc ⟨reg, h⟩) val
  else
    Act.fail .ebadreg

/-- `unw_set_reg`. -/
def unwSetReg (regnum : ℕ) (val : Word) : Act UnwError Session Unit :=
  tdepAccessRegWrite regnum val

/-! ### The cursor after `unw_init_local` -/

theorem unwInitLocal_flags {v : Validator} {m : Mem} {uc : Word} {s t : St}
    (h : unwInitLocal v m uc s = (.ok (), t)) :
    t.c.usePrevInstr = true ∧ t.c.piValid = false := by
  unfold unwInitLocal commonInit at h
  obtain ⟨⟨⟩, s₁, -, h⟩ := Act.bind_eq_ok h
  obtain ⟨⟨⟩, s₂, -, h⟩ := Act.bind_eq_ok h
  obtain ⟨ip, s₃, -, h⟩ := Act.bind_eq_ok h
  obtain ⟨⟨⟩, s₄, -, h⟩ := Act.bind_eq_ok h
  obtain ⟨cfa, s₅, -, h⟩ := Act.bind_eq_ok h
  cases h
  exact ⟨rfl, rfl⟩

end LibunwindKern
