import LibunwindKern.Lib.ByteMem
import Mathlib.Data.List.Perm.Basic

/-!
# Extents and linked lists of extents

An `Extent` is a range of addresses, kept as numbers so that it does not wrap. Objects of
one size `n` are named by their addresses: `ApartBy n` says that two of them share no
byte.

`Chain m head l` says that the words `l` are linked in memory. `head` is the address of
the first one, the word at each of them is the address of the next, and the last word is
zero. The first word of an object is its link, so a chain survives every store that is
apart from its objects (`Chain.store`), and an object is put in front by one store
(`Chain.cons_store`).
-/

namespace ByteMem

/-! ### Extents -/

/-- A range of addresses. -/
structure Extent where
  base : ℕ
  size : ℕ
  deriving DecidableEq, Repr

/-- The first address past the range. -/
def Extent.fin (x : Extent) : ℕ := x.base + x.size

/-- Two ranges have no address in common. -/
def Extent.Apart (x y : Extent) : Prop := x.fin ≤ y.base ∨ y.fin ≤ x.base

/-- The range lies inside another one. -/
def Extent.Inside (x y : Extent) : Prop := y.base ≤ x.base ∧ x.fin ≤ y.fin

instance (x y : Extent) : Decidable (x.Apart y) := inferInstanceAs (Decidable (_ ∨ _))

instance (x y : Extent) : Decidable (x.Inside y) := inferInstanceAs (Decidable (_ ∧ _))

theorem Extent.Apart.symm {x y : Extent} (h : x.Apart y) : y.Apart x := Or.symm h

/-- Ranges inside two ranges that are apart are apart. -/
theorem Extent.Apart.mono {x y x' y' : Extent} (h : x.Apart y) (hx : x'.Inside x)
    (hy : y'.Inside y) : x'.Apart y' := by
  obtain ⟨hx₁, hx₂⟩ := hx
  obtain ⟨hy₁, hy₂⟩ := hy
  rcases h with h | h
  · exact Or.inl (by omega)
  · exact Or.inr (by omega)

/-- The `n` bytes of an object. -/
def extentAt (n : ℕ) (o : Word) : Extent := ⟨o.toNat, n⟩

/-- Two objects of `n` bytes share no byte. -/
def ApartBy (n : ℕ) (o o' : Word) : Prop := (extentAt n o).Apart (extentAt n o')

instance (n : ℕ) (o o' : Word) : Decidable (ApartBy n o o') :=
  inferInstanceAs (Decidable (Extent.Apart _ _))

theorem ApartBy.symm {n : ℕ} {o o' : Word} (h : ApartBy n o o') : ApartBy n o' o :=
  Extent.Apart.symm h

/-- No object is apart from itself. -/
theorem not_apartBy_self {n : ℕ} (hn : 0 < n) (o : Word) : ¬ ApartBy n o o := by
  unfold ApartBy Extent.Apart Extent.fin extentAt
  dsimp only
  omega

/-- The first words of two objects that are apart share no byte. -/
theorem ApartBy.disjoint64 {n : ℕ} {o o' : Word} (h : ApartBy n o o') (hn : 8 ≤ n)
    (ho : (extentAt n o).fin ≤ 2 ^ 64) (ho' : (extentAt n o').fin ≤ 2 ^ 64) :
    Disjoint64 o o' := by
  unfold ApartBy Extent.Apart at h
  unfold Extent.fin extentAt at *
  dsimp only at *
  constructor
  · rw [BitVec.toNat_sub]
    omega
  · rw [BitVec.toNat_sub]
    omega

/-! ### Linked lists -/

/-- The words `l` are linked from `head` on, with a zero link at the end. -/
def Chain (m : Mem) : Word → List Word → Prop
  | head, [] => head = 0
  | head, o :: l => head = o ∧ o ≠ 0 ∧ Chain m (load64 m o) l

/-- A memory and a head determine what is linked. -/
theorem Chain.unique {m : Mem} {head : Word} {l l' : List Word} (h : Chain m head l)
    (h' : Chain m head l') : l = l' := by
  induction l generalizing head l' with
  | nil =>
    cases l' with
    | nil => rfl
    | cons o l' =>
      obtain ⟨rfl, ho, -⟩ := h'
      exact absurd h ho
  | cons o l ih =>
    obtain ⟨rfl, ho, hl⟩ := h
    cases l' with
    | nil => exact absurd h' ho
    | cons o' l' =>
      obtain ⟨rfl, -, hl'⟩ := h'
      rw [ih hl hl']

/-- A chain survives every change that leaves its links alone. -/
theorem Chain.frame {m m' : Mem} {head : Word} {l : List Word} (h : Chain m head l)
    (hl : ∀ o ∈ l, load64 m' o = load64 m o) : Chain m' head l := by
  induction l generalizing head with
  | nil => exact h
  | cons o l ih =>
    obtain ⟨rfl, ho, hrest⟩ := h
    refine ⟨rfl, ho, ?_⟩
    rw [hl head List.mem_cons_self]
    exact ih hrest fun o' ho' => hl o' (List.mem_cons_of_mem _ ho')

/-- A chain survives a store that is apart from its objects. -/
theorem Chain.store {m : Mem} {head a v : Word} {l : List Word} (h : Chain m head l)
    (ha : ∀ o ∈ l, Disjoint64 a o) : Chain (store64 m a v) head l :=
  h.frame fun o ho => load64_store64_of_disjoint (ha o ho)

/-- One store puts an object in front of a chain. -/
theorem Chain.cons_store {m : Mem} {head o : Word} {l : List Word} (h : Chain m head l)
    (ho : o ≠ 0) (ha : ∀ o' ∈ l, Disjoint64 o o') : Chain (store64 m o head) o (o :: l) := by
  refine ⟨rfl, ho, ?_⟩
  rw [load64_store64_self]
  exact h.store ha

end ByteMem
