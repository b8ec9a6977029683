import LibunwindKern.Lib.ByteMem
import Mathlib.Logic.Function.Basic

/-!
# Straight-line machine code

The few instructions that routines which save and restore a register file are written in, over
an arbitrary type of registers. `sp` is the stack pointer, and `pc` is where the machine goes on
after a `ret`: nothing else writes it, so a routine is the list of its instructions up to the
`ret` it ends with. Flags are not part of the machine, since none of the instructions reads them.

* `storeAll` is the memory after a block of stores at fixed offsets of one base address.
  `load64_storeAll` reads a slot back and `storeAll_of_disjoint` leaves another word alone.
* `run_stores` and `run_loads` are the rules for such a block of stores and for the block of
  loads that reads it back.
-/

namespace StraightLine

open ByteMem

/-- An instruction, with the operands in the order of the assembler: source first. -/
inductive Instr (ρ : Type) where
  /-- `movq src, dst`. -/
  | mov (src dst : ρ)
  /-- `movq disp(base), dst`. -/
  | load (disp : Word) (base dst : ρ)
  /-- `movq src, disp(base)`. -/
  | store (src : ρ) (disp : Word) (base : ρ)
  /-- `leaq disp(base), dst`. -/
  | lea (disp : Word) (base dst : ρ)
  /-- `xorq src, dst`. -/
  | xor (src dst : ρ)
  /-- `pushq src`. -/
  | push (src : ρ)
  /-- `retq`. -/
  | ret
  deriving DecidableEq, Repr

/-- The registers and the memory. -/
structure Cpu (ρ : Type) where
  reg : ρ → Word
  mem : Mem

section

variable {ρ : Type} [DecidableEq ρ] (sp pc : ρ)

/-- The machine after one instruction. -/
def exec : Instr ρ → Cpu ρ → Cpu ρ
  | .mov src dst, s => { s with reg := Function.update s.reg dst (s.reg src) }
  | .load disp base dst, s =>
    { s with reg := Function.update s.reg dst (load64 s.mem (s.reg base + disp)) }
  | .store src disp base, s => { s with mem := store64 s.mem (s.reg base + disp) (s.reg src) }
  | .lea disp base dst, s => { s with reg := Function.update s.reg dst (s.reg base + disp) }
  | .xor src dst, s => { s with reg := Function.update s.reg dst (s.reg dst ^^^ s.reg src) }
  | .push src, s =>
    { reg := Function.update s.reg sp (s.reg sp - 8)
      mem := store64 s.mem (s.reg sp - 8) (s.reg src) }
  | .ret, s =>
    { s with
      reg := Function.update (Function.update s.reg pc (load64 s.mem (s.reg sp))) sp (s.reg sp + 8) }

/-- The machine after a list of instructions. -/
def run (code : List (Instr ρ)) (s : Cpu ρ) : Cpu ρ := code.foldl (fun s i => exec sp pc i s) s

variable {sp pc}

@[simp] theorem run_nil (s : Cpu ρ) : run sp pc [] s = s := rfl

theorem run_cons (i : Instr ρ) (code : List (Instr ρ)) (s : Cpu ρ) :
    run sp pc (i :: code) s = run sp pc code (exec sp pc i s) := rfl

theorem run_append (code code' : List (Instr ρ)) (s : Cpu ρ) :
    run sp pc (code ++ code') s = run sp pc code' (run sp pc code s) :=
  List.foldl_append

end

/-! ### Saving registers -/

section Save

variable {ρ : Type} {off : ρ → Word} {val : ρ → Word}

/-- The memory after these registers were stored, each at its offset from `a`. -/
def storeAll (a : Word) (off val : ρ → Word) (rs : List ρ) (m : Mem) : Mem :=
  rs.foldl (fun m r => store64 m (a + off r) (val r)) m

theorem storeAll_cons (a : Word) (off val : ρ → Word) (r : ρ) (rs : List ρ) (m : Mem) :
    storeAll a off val (r :: rs) m = storeAll a off val rs (store64 m (a + off r) (val r)) := rfl

/-- The slots share no byte. -/
def Apart (off : ρ → Word) : Prop := ∀ r r', r ≠ r' → Disjoint64 (off r) (off r')

theorem Disjoint64.symm {a b : Word} (h : Disjoint64 a b) : Disjoint64 b a := ⟨h.2, h.1⟩

theorem disjoint64_add_left {a b c : Word} : Disjoint64 (a + b) (a + c) ↔ Disjoint64 b c := by
  unfold Disjoint64
  rw [add_sub_add_left_eq_sub, add_sub_add_left_eq_sub]

/-- A word that shares no byte with a slot is left alone. -/
theorem storeAll_of_disjoint {a x : Word} {rs : List ρ} {m : Mem}
    (h : ∀ r ∈ rs, Disjoint64 (a + off r) x) :
    load64 (storeAll a off val rs m) x = load64 m x := by
  induction rs generalizing m with
  | nil => rfl
  | cons r rs ih =>
    rw [storeAll_cons, ih fun r' hr' => h r' (List.mem_cons_of_mem _ hr'),
      load64_store64_of_disjoint (h r List.mem_cons_self)]

/-- A slot holds the register that was stored in it. -/
theorem load64_storeAll (hoff : Apart off) {a : Word} {rs : List ρ} {m : Mem} {r : ρ}
    (hr : r ∈ rs) : load64 (storeAll a off val rs m) (a + off r) = val r := by
  induction rs generalizing m with
  | nil => exact absurd hr List.not_mem_nil
  | cons r' rs ih =>
    rw [storeAll_cons]
    by_cases hlater : r ∈ rs
    · exact ih hlater
    · -- the last store into the slot of `r` is the one at the head
      have heq : r = r' := (List.mem_cons.mp hr).resolve_right hlater
      subst heq
      rw [storeAll_of_disjoint fun r'' hr'' =>
        disjoint64_add_left.mpr (hoff r'' r fun h => hlater (h ▸ hr''))]
      exact load64_store64_self _ _ _

variable [DecidableEq ρ] {sp pc : ρ}

/-- **A block of stores** writes the slots and keeps the registers. -/
theorem run_stores (off : ρ → Word) (base : ρ) (rs : List ρ) (s : Cpu ρ) :
    run sp pc (rs.map fun r => .store r (off r) base) s =
      { s with mem := storeAll (s.reg base) off s.reg rs s.mem } := by
  induction rs generalizing s with
  | nil => rfl
  | cons r rs ih =>
    rw [List.map_cons, run_cons, ih]
    rfl

/-- **A block of loads** that keeps its base reads the registers back. -/
theorem run_loads (off : ρ → Word) {base : ρ} {rs : List ρ} (hbase : base ∉ rs) (s : Cpu ρ) :
    run sp pc (rs.map fun r => .load (off r) base r) s =
      { s with reg := fun r => if r ∈ rs then load64 s.mem (s.reg base + off r) else s.reg r } := by
  induction rs generalizing s with
  | nil => rfl
  | cons r rs ih =>
    rw [List.mem_cons, not_or] at hbase
    rw [List.map_cons, run_cons, ih hbase.2]
    show (⟨_, s.mem⟩ : Cpu ρ) = ⟨_, s.mem⟩
    refine congrArg (Cpu.mk · s.mem) (funext fun r' => ?_)
    show (if r' ∈ rs then load64 s.mem (Function.update s.reg r _ base + off r')
      else Function.update s.reg r (load64 s.mem (s.reg base + off r)) r') = _
    rw [Function.update_of_ne hbase.1]
    by_cases hmem : r' ∈ rs
    · rw [if_pos hmem, if_pos (List.mem_cons_of_mem _ hmem)]
    · rw [if_neg hmem]
      by_cases heq : r' = r
      · rw [heq, Function.update_self, if_pos List.mem_cons_self]
      · rw [Function.update_of_ne heq, if_neg fun h => (List.mem_cons.mp h).elim heq hmem]

end Save

end StraightLine
