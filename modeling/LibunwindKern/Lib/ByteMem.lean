import Mathlib.Data.BitVec
import Mathlib.Tactic.Common

/-!
# Byte-addressed memory

Memory is a total function from 64-bit addresses to bytes, and an address wraps
at `2 ^ 64`. Multi-byte loads are little-endian: `loadNat m a n` is the number
whose base-256 digits are the `n` bytes from `a` on, lowest first, and the
fixed-width loads are that number cut to their width.

`BytesAt m a bs` says that the bytes `bs` stand in `m` from `a` on, and `past a n`
is the address behind `n` bytes.

The store lemmas come in the two usual forms, the word that was written
(`load64_store64_self`) and a word the store does not touch
(`load64_store64_of_disjoint`).
-/

namespace ByteMem

/-- A byte of memory. -/
abbrev Byte := BitVec 8

/-- A 64-bit word, also an address. -/
abbrev Word := BitVec 64

/-- The contents of memory. -/
abbrev Mem := Word → Byte

/-! ### Little-endian numbers -/

/-- The number with the given base-256 digits, lowest first. -/
def leNat : List Byte → ℕ
  | [] => 0
  | b :: bs => b.toNat + 256 * leNat bs

/-- The `n` lowest base-256 digits of a number, lowest first. -/
def leBytes : ℕ → ℕ → List Byte
  | 0, _ => []
  | n + 1, v => BitVec.ofNat 8 v :: leBytes n (v / 256)

@[simp] theorem length_leBytes (n v : ℕ) : (leBytes n v).length = n := by
  induction n generalizing v with
  | zero => rfl
  | succ n ih => simp [leBytes, ih]

theorem leNat_leBytes (n v : ℕ) : leNat (leBytes n v) = v % 256 ^ n := by
  induction n generalizing v with
  | zero => simp [leBytes, leNat, Nat.mod_one]
  | succ n ih =>
    rw [leBytes, leNat, ih, BitVec.toNat_ofNat, Nat.pow_succ' (n := n), Nat.mod_mul (a := 256)]

/-! ### Loads -/

/-- The little-endian number in the `n` bytes from `a` on. -/
def loadNat (m : Mem) : Word → ℕ → ℕ
  | _, 0 => 0
  | a, n + 1 => (m a).toNat + 256 * loadNat m (a + 1) n

/-- The 16-bit word at `a`. -/
def load16 (m : Mem) (a : Word) : BitVec 16 := BitVec.ofNat 16 (loadNat m a 2)

/-- The 32-bit word at `a`. -/
def load32 (m : Mem) (a : Word) : BitVec 32 := BitVec.ofNat 32 (loadNat m a 4)

/-- The 64-bit word at `a`. -/
def load64 (m : Mem) (a : Word) : Word := BitVec.ofNat 64 (loadNat m a 8)

/-- Two memories that agree on the bytes read give the same number. -/
theorem loadNat_congr {m m' : Mem} {a : Word} {n : ℕ}
    (h : ∀ d, d < n → m (a + BitVec.ofNat 64 d) = m' (a + BitVec.ofNat 64 d)) :
    loadNat m a n = loadNat m' a n := by
  induction n generalizing a with
  | zero => rfl
  | succ n ih =>
    have h0 := h 0 (by omega)
    rw [BitVec.add_zero] at h0
    rw [loadNat, loadNat, h0, ih]
    intro d hd
    have hd' := h (d + 1) (by omega)
    rwa [Nat.add_comm d 1, BitVec.ofNat_add, ← BitVec.add_assoc] at hd'

theorem loadNat_lt (m : Mem) (a : Word) (n : ℕ) : loadNat m a n < 256 ^ n := by
  induction n generalizing a with
  | zero => exact Nat.one_pos
  | succ n ih =>
    have hbyte := (m a).isLt
    have hrest := ih (a + 1)
    rw [loadNat, Nat.pow_succ']
    omega

/-- The low bytes of a wider load. -/
theorem loadNat_add_mod (m : Mem) (a : Word) (n k : ℕ) :
    loadNat m a (n + k) % 256 ^ n = loadNat m a n := by
  induction n generalizing a with
  | zero => exact Nat.mod_one _
  | succ n ih =>
    have hbyte : (m a).toNat < 256 := (m a).isLt
    rw [Nat.add_right_comm, loadNat, loadNat, Nat.pow_succ', Nat.mod_mul,
      Nat.add_mul_mod_self_left, Nat.mod_eq_of_lt hbyte, Nat.add_mul_div_left _ _ (by decide),
      Nat.div_eq_of_lt hbyte, Nat.zero_add, ih]

theorem toNat_load64 (m : Mem) (a : Word) : (load64 m a).toNat = loadNat m a 8 := by
  rw [load64, BitVec.toNat_ofNat]
  exact Nat.mod_eq_of_lt (loadNat_lt m a 8)

theorem toNat_load32 (m : Mem) (a : Word) : (load32 m a).toNat = loadNat m a 4 := by
  rw [load32, BitVec.toNat_ofNat]
  exact Nat.mod_eq_of_lt (loadNat_lt m a 4)

theorem toNat_load16 (m : Mem) (a : Word) : (load16 m a).toNat = loadNat m a 2 := by
  rw [load16, BitVec.toNat_ofNat]
  exact Nat.mod_eq_of_lt (loadNat_lt m a 2)

/-! ### Bytes in memory -/

/-- The bytes `bs` stand in memory from `a` on. -/
def BytesAt (m : Mem) : Word → List Byte → Prop
  | _, [] => True
  | a, b :: bs => m a = b ∧ BytesAt m (a + 1) bs

instance BytesAt.decidable (m : Mem) : ∀ (a : Word) (bs : List Byte), Decidable (BytesAt m a bs)
  | _, [] => .isTrue trivial
  | a, b :: bs =>
    have := BytesAt.decidable m (a + 1) bs
    inferInstanceAs (Decidable (m a = b ∧ BytesAt m (a + 1) bs))

/-- The address just past `n` bytes. -/
def past (a : Word) (n : ℕ) : Word := a + BitVec.ofNat 64 n

@[simp] theorem past_zero (a : Word) : past a 0 = a := by
  unfold past; rw [BitVec.add_zero]

theorem past_past (a : Word) (n k : ℕ) : past (past a n) k = past a (n + k) := by
  unfold past; rw [BitVec.ofNat_add, BitVec.add_assoc]

theorem past_succ (a : Word) (n : ℕ) : past (a + 1) n = past a (n + 1) := by
  rw [Nat.add_comm, ← past_past]; rfl

/-- Inside the address space an address past a record is a plain sum. -/
theorem toNat_past {a : Word} {n : ℕ} (h : a.toNat + n < 2 ^ 64) :
    (past a n).toNat = a.toNat + n := by
  unfold past
  rw [BitVec.toNat_add, BitVec.toNat_ofNat]
  omega

/-- A load of a field that stands in memory is the field's number. -/
theorem loadNat_of_bytesAt {m : Mem} {a : Word} {bs : List Byte} (h : BytesAt m a bs) :
    loadNat m a bs.length = leNat bs := by
  induction bs generalizing a with
  | nil => rfl
  | cons b bs ih =>
    rw [List.length_cons, loadNat, leNat, ih h.2, h.1]

/-- The load of an encoded number is the number, cut to the field's width. -/
theorem loadNat_leBytes {m : Mem} {a : Word} {n v : ℕ} (h : BytesAt m a (leBytes n v)) :
    loadNat m a n = v % 256 ^ n := by
  have := loadNat_of_bytesAt h
  rwa [length_leBytes, leNat_leBytes] at this

theorem bytesAt_append {m : Mem} {a : Word} {bs cs : List Byte} :
    BytesAt m a (bs ++ cs) ↔ BytesAt m a bs ∧ BytesAt m (past a bs.length) cs := by
  induction bs generalizing a with
  | nil =>
    rw [List.nil_append, List.length_nil, past_zero]
    exact ⟨fun h => ⟨trivial, h⟩, And.right⟩
  | cons b bs ih =>
    rw [List.cons_append, List.length_cons, ← past_succ, BytesAt, BytesAt, ih, and_assoc]

/-! ### Stores -/

/-- The `i`-th byte of a word, lowest first. -/
def byteOf (v : Word) (i : ℕ) : Byte := BitVec.ofNat 8 (v.toNat / 256 ^ i)

/-- Write a 64-bit word at `a`. -/
def store64 (m : Mem) (a : Word) (v : Word) : Mem := fun x =>
  if (x - a).toNat < 8 then byteOf v (x - a).toNat else m x

private theorem add_ofNat_sub_self (a : Word) {d : ℕ} (h : d < 2 ^ 64) :
    (a + BitVec.ofNat 64 d - a).toNat = d := by
  rw [BitVec.add_comm, BitVec.add_sub_cancel, BitVec.toNat_ofNat, Nat.mod_eq_of_lt h]

/-- The digits of a word make up the word. -/
private theorem loadNat_byteOf {m : Mem} {a v : Word} (k n : ℕ)
    (h : ∀ d, d < n → m (a + BitVec.ofNat 64 d) = byteOf v (k + d)) :
    loadNat m a n = v.toNat / 256 ^ k % 256 ^ n := by
  induction n generalizing a k with
  | zero => simp [loadNat, Nat.mod_one]
  | succ n ih =>
    have h0 := h 0 (by omega)
    rw [BitVec.add_zero, Nat.add_zero] at h0
    have hrest := ih (a := a + 1) (k + 1) (by
      intro d hd
      have hd' := h (d + 1) (by omega)
      rw [Nat.add_comm d 1, BitVec.ofNat_add, ← BitVec.add_assoc, ← Nat.add_assoc] at hd'
      exact hd')
    rw [loadNat, h0, hrest, byteOf, BitVec.toNat_ofNat, Nat.pow_succ' (n := n), Nat.mod_mul,
      Nat.div_div_eq_div_mul, ← Nat.pow_succ]

/-- A word that was just written is read back. -/
theorem load64_store64_self (m : Mem) (a v : Word) : load64 (store64 m a v) a = v := by
  have h := loadNat_byteOf (m := store64 m a v) (a := a) (v := v) 0 8 (by
    intro d hd
    unfold store64
    rw [add_ofNat_sub_self a (by omega), if_pos hd, Nat.zero_add])
  unfold load64
  rw [h, Nat.pow_zero, Nat.div_one]
  apply BitVec.eq_of_toNat_eq
  rw [BitVec.toNat_ofNat]
  have := v.isLt
  omega

/-- Two 8-byte words that share no byte. -/
def Disjoint64 (a b : Word) : Prop := 8 ≤ (a - b).toNat ∧ 8 ≤ (b - a).toNat

instance (a b : Word) : Decidable (Disjoint64 a b) :=
  inferInstanceAs (Decidable (_ ∧ _))

/-- A store leaves a word alone that it shares no byte with. -/
theorem load64_store64_of_disjoint {m : Mem} {a b v : Word} (h : Disjoint64 a b) :
    load64 (store64 m a v) b = load64 m b := by
  unfold load64
  rw [loadNat_congr]
  intro d hd
  unfold store64
  rw [if_neg]
  obtain ⟨h₁, h₂⟩ := h
  rw [BitVec.toNat_sub] at *
  rw [BitVec.toNat_add, BitVec.toNat_ofNat]
  have ha := a.isLt
  have hb := b.isLt
  omega

/-! ### Rounding -/

/-- Clearing the low bits rounds down to a multiple of a power of two. -/
theorem toNat_and_not_low (x : Word) (k : ℕ) :
    (x &&& ~~~(BitVec.ofNat 64 (2 ^ k - 1))).toNat = x.toNat / 2 ^ k * 2 ^ k := by
  have hshift : x &&& ~~~(BitVec.ofNat 64 (2 ^ k - 1)) = (x >>> k) <<< k := by
    apply BitVec.eq_of_getLsbD_eq
    intro i hi
    rw [BitVec.getLsbD_and, BitVec.getLsbD_not, BitVec.getLsbD_ofNat,
      Nat.testBit_two_pow_sub_one, BitVec.getLsbD_shiftLeft, BitVec.getLsbD_ushiftRight]
    by_cases hik : i < k
    · simp [hik]
    · simp [hik, hi, Nat.add_sub_cancel' (Nat.le_of_not_lt hik)]
  have hx := x.isLt
  have hle : x.toNat / 2 ^ k * 2 ^ k ≤ x.toNat := Nat.div_mul_le_self _ _
  rw [hshift, BitVec.toNat_shiftLeft, BitVec.toNat_ushiftRight, Nat.shiftLeft_eq,
    Nat.shiftRight_eq_div_pow, Nat.mod_eq_of_lt (by omega)]

/-- A number that fits in fewer bits is the sign extension of its low bits. -/
theorem signExtend_setWidth_of_fits {w : ℕ} (hw : w ≤ 64) {x : Word} (hlow : -2 ^ w ≤ 2 * x.toInt)
    (hhigh : 2 * x.toInt < 2 ^ w) : (x.setWidth w).signExtend 64 = x := by
  have hdvd : 2 ^ w ∣ 2 ^ 64 := Nat.pow_dvd_pow 2 hw
  apply BitVec.eq_of_toInt_eq
  calc ((x.setWidth w).signExtend 64).toInt
      = (x.setWidth w).toInt := BitVec.toInt_signExtend_of_le hw
    _ = (x.toNat : ℤ).bmod (2 ^ w) := BitVec.toInt_setWidth x
    _ = ((x.toNat : ℤ).bmod (2 ^ 64)).bmod (2 ^ w) := (Int.bmod_bmod_of_dvd hdvd).symm
    _ = x.toInt.bmod (2 ^ w) := by rw [BitVec.toInt_eq_toNat_bmod]
    _ = x.toInt := by
      apply Int.bmod_eq_of_le_mul_two
      · push_cast
        omega
      · push_cast
        omega

end ByteMem
