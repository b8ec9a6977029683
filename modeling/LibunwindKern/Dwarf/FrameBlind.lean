import LibunwindKern.Dwarf.ExprCommands
import LibunwindKern.Dwarf.Parser

/-!
# What applying a row sees

`apply_reg_state` reads and writes the frame in the cursor (`FramePart`), and it reads registers.
The rest of the state may hold anything. `FrameBlind` says of a part of the state, given by the
function that writes it, that it is neither in the frame nor seen when a register is read, and
`applyFrame_ignores` is the rule for such a part.

An expression sees the cursor through the registers that it reads (`dwarfEvalExpr_congr`).
-/

namespace LibunwindKern

open CProg ByteMem Unw

/-! ### Expressions -/

section Expr

variable {v : Validator} {m : Mem} {c c' : Cursor}

/-- The commands of an expression see the registers of the cursor only. -/
theorem execCmd_congr (h : unwGetReg v m c' = unwGetReg v m c) {β : Type} (cmd : ExprCmd β) :
    execCmd v m c' cmd = execCmd v m c cmd := by
  cases cmd with
  | getReg regnum =>
    show Eval.onLga (unwGetReg v m c' regnum) = Eval.onLga (unwGetReg v m c regnum)
    rw [h]
  | _ => rfl

theorem execOp_congr (h : unwGetReg v m c' = unwGetReg v m c) (op : DwOp) :
    execOp v m c' op = execOp v m c op := by
  have hcmd : @execCmd v m c' = @execCmd v m c := by
    funext β cmd
    exact execCmd_congr h cmd
  funext s
  rw [← opProgram_run, ← opProgram_run, hcmd]

/-- **An expression** has the same value for cursors with the same CFA and the same registers. -/
theorem dwarfEvalExpr_congr (hcfa : c'.cfa = c.cfa) (h : unwGetReg v m c' = unwGetReg v m c) :
    dwarfEvalExpr v m c' = dwarfEvalExpr v m c := by
  have hturn : evalTurn v m c' = evalTurn v m c := by
    funext endAddr
    unfold evalTurn
    simp only [execOp_congr h]
  funext fuel addr len
  unfold dwarfEvalExpr evalExpr
  rw [hcfa, hturn]

end Expr

/-! ### The frame -/

/-- The frame in the cursor, and the cache of the pages that reading memory goes through. -/
structure FramePart where
  ip : Word
  cfa : Word
  loc : Fin dwarfNumPreservedRegs → Word
  retAddrColumn : Word
  validate : Bool
  uc : Word
  sigcontextFormat : SigcontextFormat
  sigcontextAddr : Word
  lga : Lga

def framePart (s : St) : FramePart :=
  ⟨s.c.ip, s.c.cfa, s.c.loc, s.c.retAddrColumn, s.c.validate, s.c.uc, s.c.sigcontextFormat,
    s.c.sigcontextAddr, s.lga⟩

def St.withFramePart (s : St) (p : FramePart) : St :=
  { s with
    c := { s.c with
      ip := p.ip, cfa := p.cfa, loc := p.loc, retAddrColumn := p.retAddrColumn
      validate := p.validate, uc := p.uc, sigcontextFormat := p.sigcontextFormat
      sigcontextAddr := p.sigcontextAddr }
    lga := p.lga }

/-- What `put` writes is not in the frame, and not seen when a register is read. -/
structure FrameBlind {τ : Type} (put : τ → St → St) : Prop where
  commutes : ∀ g s p, put g (s.withFramePart p) = (put g s).withFramePart p
  getReg : ∀ g s v m reg, tdepAccessReg v m (put g s).c reg = tdepAccessReg v m s.c reg
  stashFrames : ∀ g s, (put g s).c.stashFrames = s.c.stashFrames

section Frame

variable {τ : Type} {put : τ → St → St} {α : Type}

/-- The frame is the same with `put` and without. -/
theorem FrameBlind.same (h : FrameBlind put) (g : τ) (s : St) :
    framePart (put g s) = framePart s := by
  have hself : put g s = (put g s).withFramePart (framePart s) := h.commutes g s (framePart s)
  rw [hself]
  rfl

theorem FrameBlind.ip (h : FrameBlind put) (g : τ) (s : St) : (put g s).c.ip = s.c.ip :=
  congrArg FramePart.ip (h.same g s)

theorem FrameBlind.cfa (h : FrameBlind put) (g : τ) (s : St) : (put g s).c.cfa = s.c.cfa :=
  congrArg FramePart.cfa (h.same g s)

theorem FrameBlind.loc (h : FrameBlind put) (g : τ) (s : St) : (put g s).c.loc = s.c.loc :=
  congrArg FramePart.loc (h.same g s)

theorem FrameBlind.retAddrColumn (h : FrameBlind put) (g : τ) (s : St) :
    (put g s).c.retAddrColumn = s.c.retAddrColumn :=
  congrArg FramePart.retAddrColumn (h.same g s)

theorem FrameBlind.validate (h : FrameBlind put) (g : τ) (s : St) :
    (put g s).c.validate = s.c.validate :=
  congrArg FramePart.validate (h.same g s)

theorem FrameBlind.uc (h : FrameBlind put) (g : τ) (s : St) : (put g s).c.uc = s.c.uc :=
  congrArg FramePart.uc (h.same g s)

theorem FrameBlind.sigcontextFormat (h : FrameBlind put) (g : τ) (s : St) :
    (put g s).c.sigcontextFormat = s.c.sigcontextFormat :=
  congrArg FramePart.sigcontextFormat (h.same g s)

theorem FrameBlind.lga (h : FrameBlind put) (g : τ) (s : St) : (put g s).lga = s.lga :=
  congrArg FramePart.lga (h.same g s)

theorem FrameBlind.regLoc (h : FrameBlind put) (g : τ) (s : St) :
    regLoc (put g s).c = regLoc s.c := by
  funext reg
  unfold LibunwindKern.regLoc
  rw [h.uc]

theorem FrameBlind.unwGetReg (h : FrameBlind put) (g : τ) (s : St) (v : Validator) (m : Mem) :
    unwGetReg v m (put g s).c = unwGetReg v m s.c := by
  funext reg
  unfold LibunwindKern.unwGetReg
  rw [h.ip, h.getReg]

theorem FrameBlind.dwarfGet (h : FrameBlind put) (g : τ) (s : St) (v : Validator) (m : Mem) :
    dwarfGet v m (put g s).c = dwarfGet v m s.c := by
  funext loc
  unfold LibunwindKern.dwarfGet
  rw [h.validate]

/-- A write to the frame that sees the frame only. -/
theorem FrameBlind.modify (h : FrameBlind put) (f : FramePart → FramePart) :
    Act.Ignores put (Act.modify fun s => s.withFramePart (f (framePart s)) : Unw Unit) := by
  refine Act.Ignores.modify fun s g => ⟨g, ?_⟩
  rw [h.same]
  exact (h.commutes g s _).symm

theorem FrameBlind.withLga (h : FrameBlind put) (g : τ) (s : St) (lga : Lga) :
    { put g s with lga := lga } = put g { s with lga := lga } := by
  calc { put g s with lga := lga }
      = (put g s).withFramePart { framePart (put g s) with lga := lga } := rfl
    _ = (put g s).withFramePart { framePart s with lga := lga } := by rw [h.same]
    _ = put g { s with lga := lga } := (h.commutes g s _).symm

/-- A read that sees the same in both cursors. -/
theorem FrameBlind.read (h : FrameBlind put) {x : Cursor → Act UnwError Lga α}
    (hx : ∀ g s, x (put g s).c = x s.c) : Act.Ignores put (Unw.read x) := by
  intro s g
  rw [read_eq, read_eq, hx, h.lga]
  exact ⟨rfl, g, h.withLga g s _⟩

theorem FrameBlind.setLoc (h : FrameBlind put) (i : Fin dwarfNumPreservedRegs) (loc : Word) :
    Act.Ignores put (Unw.setLoc i loc) :=
  h.modify fun p => { p with loc := Function.update p.loc i loc }

end Frame

/-! ### Applying a row -/

section Apply

variable {τ : Type} {put : τ → St → St} (h : FrameBlind put)
variable (v : Validator) (m : Mem) (fuel : ℕ) (rs : RegState)
include h

theorem evalLocationExpr_blind (addr : Word) :
    Act.Ignores put (evalLocationExpr v m fuel addr) := by
  have heval : ∀ addr len, Act.Ignores put (read fun c => dwarfEvalExpr v m c fuel addr len) :=
    fun addr len => h.read fun g s => by
      rw [dwarfEvalExpr_congr (h.cfa g s) (h.unwGetReg g s v m)]
  refine Act.Ignores.get_bind (fun s g => ?_) fun s => ?_
  · rw [h.regLoc]
  · split
    · refine (heval _ _).bind fun r => ?_
      split
      · exact (Act.Ignores.lift _).bind fun _ => Act.Ignores.pure _
      · exact Act.Ignores.pure _
    · exact Act.Ignores.lift _

theorem evalCfa_blind : Act.Ignores put (evalCfa v m fuel rs) := by
  refine Act.Ignores.get_bind (fun s g => ?_) fun s => ?_
  · rw [h.cfa]
  · split
    · -- a register and an offset; `RSP` is the old CFA if it has no location
      split
      · exact Act.Ignores.pure _
      · refine (Act.Ignores.lift _).bind fun regnum => ?_
        exact Act.Ignores.bind (h.read fun g s => by rw [h.unwGetReg]) fun _ => Act.Ignores.pure _
    · -- an expression
      refine (evalLocationExpr_blind h v m fuel _).bind fun cfaLoc => ?_
      split
      · exact Act.Ignores.fail _
      · exact Act.Ignores.pure _
    · exact Act.Ignores.lift _

theorem applyRule_blind (cfa : Word) (i : Fin dwarfNumPreservedRegs) :
    Act.Ignores put (applyRule v m fuel rs cfa i) := by
  refine Act.Ignores.get_bind (fun s g => ?_) fun s => ?_
  · rw [h.regLoc]
  · split
    · -- one case for each kind of rule
      exact h.setLoc _ _
    · exact Act.Ignores.pure _
    · exact h.setLoc _ _
    · exact (Act.Ignores.lift _).bind fun _ => h.setLoc _ _
    · exact (evalLocationExpr_blind h v m fuel _).bind fun _ => h.setLoc _ _

theorem applyRules_blind (cfa : Word) (is : List (Fin dwarfNumPreservedRegs)) :
    Act.Ignores put (applyRules v m fuel rs cfa is) := by
  induction is with
  | nil => exact Act.Ignores.pure _
  | cons i is ih => exact (applyRule_blind h v m fuel rs cfa i).bind fun _ => ih

theorem readReturnAddress_blind : Act.Ignores put (readReturnAddress v m) := by
  refine Act.Ignores.get_bind (fun s g => ?_) fun s => ?_
  · simp only [h.retAddrColumn, h.loc]
  · split
    · split
      · exact Act.Ignores.pure _
      · exact h.read fun g s => by rw [h.dwarfGet]
    · exact Act.Ignores.lift _

/-- **Applying a row** does not depend on what is not seen, up to the summary of the frame, which
has a part of its own. -/
theorem applyRegState_blind
    (hfinish : ∀ prevIp prevCfa, Act.Ignores put (finishFrame rs prevIp prevCfa)) :
    Act.Ignores put (applyRegState v m fuel rs) := by
  refine Act.Ignores.get_bind (fun s g => ?_) fun s => ?_
  · rw [h.ip, h.cfa]
  refine (evalCfa_blind h v m fuel rs).bind fun cfa => ?_
  refine (applyRules_blind h v m fuel rs cfa _).bind fun _ => ?_
  refine Act.Ignores.bind (h.modify fun p => { p with cfa := cfa }) fun _ => ?_
  refine (readReturnAddress_blind h v m).bind fun ip => ?_
  exact Act.Ignores.bind (h.modify fun p => { p with ip := ip }) fun _ => hfinish s.c.ip s.c.cfa

end Apply

end LibunwindKern
