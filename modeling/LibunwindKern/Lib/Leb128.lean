import LibunwindKern.Lib.ByteMem
import Mathlib.Tactic.Positivity

/-!
# Little-endian base 128

An encoding is a non-empty list of bytes. Every byte but the last has its top bit
set, and the low seven bits of the bytes are the base-128 digits of the number,
lowest first. `Groups bs n b` says that `bs` is such a list, with number `n` and
last byte `b`. An unsigned value is the number itself (`ULeb`). A signed value is
the number read in two's complement over `7 * bs.length` bits (`SLeb`), so that
bit 6 of the last byte is the sign. Padded encodings are encodings.

The decoders of C code accumulate the groups with shifts and bitwise or in a
64-bit word. `accumulate` is one turn of that loop, and the two lemmas about it
say that it adds the next digit, as long as the group starts inside the word.
-/

namespace Leb128

open ByteMem

/-- The bytes `bs` are the base-128 groups of `n`, and `b` is the last of them. -/
inductive Groups : List Byte → ℕ → Byte → Prop
  | last (b : Byte) (h : b.toNat < 128) : Groups [b] b.toNat b
  | more (b : Byte) {bs : List Byte} {n : ℕ} {l : Byte} (h : 128 ≤ b.toNat) (hs : Groups bs n l) :
      Groups (b :: bs) (b.toNat - 128 + 128 * n) l

/-- `bs` is an unsigned encoding of `n`. -/
def ULeb (bs : List Byte) (n : ℕ) : Prop := ∃ b, Groups bs n b

/-- `bs` is a signed encoding of `z`. -/
def SLeb (bs : List Byte) (z : ℤ) : Prop :=
  ∃ n b, Groups bs n b ∧ z = if b.toNat < 64 then (n : ℤ) else (n : ℤ) - 128 ^ bs.length

theorem Groups.length_pos {bs : List Byte} {n : ℕ} {b : Byte} (h : Groups bs n b) :
    0 < bs.length := by
  cases h with
  | last => exact Nat.one_pos
  | more => exact Nat.succ_pos _

theorem Groups.last_lt {bs : List Byte} {n : ℕ} {b : Byte} (h : Groups bs n b) :
    b.toNat < 128 := by
  induction h with
  | last _ h => exact h
  | more _ _ _ ih => exact ih

theorem Groups.lt {bs : List Byte} {n : ℕ} {b : Byte} (h : Groups bs n b) :
    n < 128 ^ bs.length := by
  induction h with
  | last b h => simpa using h
  | @more b bs n l h _ ih =>
    have hb : b.toNat < 256 := b.isLt
    rw [List.length_cons, Nat.pow_succ']
    omega

/-! ### One turn of a decoder -/

/-- Add the low seven bits of a byte to a value, at a shift count. The processor
takes the count modulo 64. -/
def accumulate (val shift : Word) (byte : Byte) : Word :=
  val ||| ((byte.setWidth 64 &&& 0x7f#64) <<< (shift.toNat % 64))

private theorem toNat_group (byte : Byte) :
    (byte.setWidth 64 &&& 0x7f#64).toNat = byte.toNat % 128 := by
  rw [BitVec.toNat_and, BitVec.toNat_setWidth]
  have hb : byte.toNat < 256 := byte.isLt
  rw [Nat.mod_eq_of_lt (by omega)]
  exact Nat.and_two_pow_sub_one_eq_mod byte.toNat 7

/-- The bitwise or of a value with a multiple of a power of two above it is their
sum. -/
private theorem or_mul_two_pow {v s g : ℕ} (h : v < 2 ^ s) : v ||| 2 ^ s * g = v + 2 ^ s * g := by
  rw [Nat.or_comm, ← Nat.two_pow_add_eq_or_of_lt h, Nat.add_comm]

private theorem mul_two_pow_mod {s g : ℕ} (h : s ≤ 64) :
    g * 2 ^ s % 2 ^ 64 = 2 ^ s * (g % 2 ^ (64 - s)) := by
  have h64 : 2 ^ 64 = 2 ^ s * 2 ^ (64 - s) := by
    rw [← Nat.pow_add, Nat.add_sub_cancel' h]
  rw [h64, Nat.mul_comm g, Nat.mul_mod_mul_left]

/-- **One turn.** A group that starts inside the word is added to the value, modulo
`2 ^ 64`. -/
theorem accumulate_toNat {val shift : Word} (byte : Byte) (hs : shift.toNat < 64)
    (hv : val.toNat < 2 ^ shift.toNat) :
    (accumulate val shift byte).toNat =
      (val.toNat + 2 ^ shift.toNat * (byte.toNat % 128)) % 2 ^ 64 := by
  have hsh : ((byte.setWidth 64 &&& 0x7f#64) <<< shift.toNat).toNat =
      2 ^ shift.toNat * (byte.toNat % 128 % 2 ^ (64 - shift.toNat)) := by
    rw [BitVec.toNat_shiftLeft, toNat_group, Nat.shiftLeft_eq, mul_two_pow_mod (by omega)]
  have hsum := mul_two_pow_mod (s := shift.toNat) (g := byte.toNat % 128) (by omega)
  unfold accumulate
  rw [Nat.mod_eq_of_lt hs, BitVec.toNat_or, hsh, or_mul_two_pow hv, ← hsum,
    Nat.mul_comm (2 ^ shift.toNat), Nat.add_mod]
  -- the sum stays inside the word, because it is a word
  have hlt := (accumulate val shift byte).isLt
  unfold accumulate at hlt
  rw [Nat.mod_eq_of_lt hs, BitVec.toNat_or, hsh, or_mul_two_pow hv, ← hsum] at hlt
  rw [Nat.mod_eq_of_lt val.isLt, Nat.mod_eq_of_lt hlt]

/-- The value stays below the next shift count. -/
theorem accumulate_lt {val shift : Word} (byte : Byte) (hs : shift.toNat < 64)
    (hv : val.toNat < 2 ^ shift.toNat) :
    (accumulate val shift byte).toNat < 2 ^ (shift.toNat + 7) := by
  rw [accumulate_toNat byte hs hv]
  refine Nat.lt_of_le_of_lt (Nat.mod_le _ _) ?_
  have hg : byte.toNat % 128 ≤ 127 := by omega
  have hmul := Nat.mul_le_mul_left (2 ^ shift.toNat) hg
  have hpow : 2 ^ (shift.toNat + 7) = 2 ^ shift.toNat * 128 := Nat.pow_add 2 shift.toNat 7
  omega

/-! ### Sign extension -/

private theorem toNat_ones_shift {s : ℕ} (hs : s < 64) :
    (BitVec.allOnes 64 <<< s).toNat = 2 ^ s * (2 ^ (64 - s) - 1) := by
  have hmod : (2 ^ 64 - 1) % 2 ^ (64 - s) = 2 ^ (64 - s) - 1 := by
    have h64 : 2 ^ 64 - 1 = 2 ^ (64 - s) - 1 + 2 ^ (64 - s) * (2 ^ s - 1) := by
      have hpos : 0 < 2 ^ s := Nat.two_pow_pos s
      have hsplit : 2 ^ 64 = 2 ^ (64 - s) * 2 ^ s := by
        rw [← Nat.pow_add, Nat.sub_add_cancel (Nat.le_of_lt hs)]
      have hpos' : 0 < 2 ^ (64 - s) := Nat.two_pow_pos _
      have hle : 2 ^ (64 - s) * 1 ≤ 2 ^ (64 - s) * 2 ^ s := Nat.mul_le_mul_left _ hpos
      rw [hsplit, Nat.mul_sub]
      omega
    rw [h64, Nat.add_mul_mod_self_left, Nat.mod_eq_of_lt]
    have := Nat.two_pow_pos (64 - s)
    omega
  rw [BitVec.toNat_shiftLeft, BitVec.toNat_allOnes, Nat.shiftLeft_eq,
    mul_two_pow_mod (Nat.le_of_lt hs), hmod]

/-- **Sign extension.** Setting every bit from `s` on subtracts `2 ^ s`, modulo
`2 ^ 64`. -/
theorem or_ones_eq (val : Word) {s : ℕ} (hs : s < 64) (hv : val.toNat < 2 ^ s) :
    val ||| (BitVec.allOnes 64 <<< s) = BitVec.ofInt 64 ((val.toNat : ℤ) - 2 ^ s) := by
  have hsplit : 2 ^ s * 2 ^ (64 - s) = 2 ^ 64 := by
    rw [← Nat.pow_add, Nat.add_sub_cancel' (Nat.le_of_lt hs)]
  have hle : 2 ^ s ≤ 2 ^ 64 := Nat.pow_le_pow_right (by decide) (Nat.le_of_lt hs)
  have hnat : (val ||| (BitVec.allOnes 64 <<< s)).toNat = val.toNat + (2 ^ 64 - 2 ^ s) := by
    rw [BitVec.toNat_or, toNat_ones_shift hs, or_mul_two_pow hv, Nat.mul_sub, hsplit, Nat.mul_one]
  have hcast : ((2 : ℤ) ^ s) = ((2 ^ s : ℕ) : ℤ) := by rw [Nat.cast_pow]; rfl
  apply BitVec.eq_of_toNat_eq
  rw [hnat, hcast, BitVec.toNat_ofInt]
  omega

/-! ### Canonical encodings

The shortest encodings. The first argument bounds the number of bytes after the first. -/

/-- The shortest unsigned encoding. -/
def ulebBytes : ℕ → ℕ → List Byte
  | 0, n => [BitVec.ofNat 8 n]
  | k + 1, n =>
    if n < 128 then [BitVec.ofNat 8 n]
    else BitVec.ofNat 8 (128 + n % 128) :: ulebBytes k (n / 128)

/-- The shortest signed encoding. -/
def slebBytes : ℕ → ℤ → List Byte
  | 0, z => [BitVec.ofInt 8 (z % 128)]
  | k + 1, z =>
    if -64 ≤ z ∧ z < 64 then [BitVec.ofInt 8 (z % 128)]
    else BitVec.ofInt 8 (128 + z % 128) :: slebBytes k (z / 128)

theorem ulebBytes_length_le (k n : ℕ) : (ulebBytes k n).length ≤ k + 1 := by
  induction k generalizing n with
  | zero => exact Nat.le_refl _
  | succ k ih =>
    rw [ulebBytes]
    split
    · exact Nat.succ_le_succ (Nat.zero_le _)
    · exact Nat.succ_le_succ (ih _)

theorem slebBytes_length_le (k : ℕ) (z : ℤ) : (slebBytes k z).length ≤ k + 1 := by
  induction k generalizing z with
  | zero => exact Nat.le_refl _
  | succ k ih =>
    rw [slebBytes]
    split
    · exact Nat.succ_le_succ (Nat.zero_le _)
    · exact Nat.succ_le_succ (ih _)

private theorem toNat_ofNat_byte {n : ℕ} (h : n < 256) : (BitVec.ofNat 8 n).toNat = n := by
  rw [BitVec.toNat_ofNat, Nat.mod_eq_of_lt h]

private theorem toNat_ofInt_byte {z : ℤ} (h0 : 0 ≤ z) (h : z < 256) :
    ((BitVec.ofInt 8 z).toNat : ℤ) = z := by
  rw [BitVec.toNat_ofInt]
  omega

/-- The shortest unsigned encoding is an encoding. -/
theorem uleb_ulebBytes {k n : ℕ} (h : n < 128 ^ (k + 1)) : ULeb (ulebBytes k n) n := by
  have hone : ∀ n : ℕ, n < 128 → ULeb [BitVec.ofNat 8 n] n := by
    intro n hn
    have hb : (BitVec.ofNat 8 n).toNat = n := toNat_ofNat_byte (by omega)
    exact ⟨_, by simpa only [hb] using Groups.last (BitVec.ofNat 8 n) (by omega)⟩
  induction k generalizing n with
  | zero => exact hone n (by simpa using h)
  | succ k ih =>
    rw [ulebBytes]
    split
    · next hn => exact hone n hn
    · have hb : (BitVec.ofNat 8 (128 + n % 128)).toNat = 128 + n % 128 :=
        toNat_ofNat_byte (by omega)
      have hdiv : n / 128 < 128 ^ (k + 1) := by
        rw [Nat.pow_succ'] at h
        exact Nat.div_lt_of_lt_mul h
      obtain ⟨l, hl⟩ := ih hdiv
      have hmore := Groups.more (BitVec.ofNat 8 (128 + n % 128)) (by omega) hl
      have hn : 128 + n % 128 - 128 + 128 * (n / 128) = n := by omega
      rw [hb, hn] at hmore
      exact ⟨l, hmore⟩

/-- The shortest signed encoding is an encoding. -/
theorem sleb_slebBytes {k : ℕ} {z : ℤ} (h₁ : -64 * 128 ^ k ≤ z) (h₂ : z < 64 * 128 ^ k) :
    SLeb (slebBytes k z) z := by
  have hone : ∀ z : ℤ, -64 ≤ z → z < 64 → SLeb [BitVec.ofInt 8 (z % 128)] z := by
    intro z hz₁ hz₂
    have hb : ((BitVec.ofInt 8 (z % 128)).toNat : ℤ) = z % 128 :=
      toNat_ofInt_byte (by omega) (by omega)
    refine ⟨_, _, Groups.last (BitVec.ofInt 8 (z % 128)) (by omega), ?_⟩
    rw [hb, List.length_singleton]
    split <;> omega
  induction k generalizing z with
  | zero => exact hone z (by simpa using h₁) (by simpa using h₂)
  | succ k ih =>
    rw [slebBytes]
    split
    · next hz => exact hone z hz.1 hz.2
    · -- the low seven bits go first, and the sign is in the groups behind them
      rw [pow_succ] at h₁ h₂
      obtain ⟨n, l, hl, hz⟩ := ih (z := z / 128) (by omega) (by omega)
      have hb : ((BitVec.ofInt 8 (128 + z % 128)).toNat : ℤ) = 128 + z % 128 :=
        toNat_ofInt_byte (by omega) (by omega)
      refine ⟨_, l, Groups.more (BitVec.ofInt 8 (128 + z % 128)) (by omega) hl, ?_⟩
      have hdigit : (((BitVec.ofInt 8 (128 + z % 128)).toNat - 128 + 128 * n : ℕ) : ℤ) =
          z % 128 + 128 * n := by omega
      rw [hdigit, List.length_cons, pow_succ]
      split
      · next hlt =>
        rw [if_pos hlt] at hz
        omega
      · next hlt =>
        rw [if_neg hlt] at hz
        omega

/-- A value of few bits has a short encoding. -/
theorem slebBytes_length_le_of_bounds {j k : ℕ} {z : ℤ} (h₁ : -64 * 128 ^ j ≤ z)
    (h₂ : z < 64 * 128 ^ j) : (slebBytes k z).length ≤ j + 1 := by
  induction k generalizing z j with
  | zero => exact Nat.succ_le_succ (Nat.zero_le _)
  | succ k ih =>
    rw [slebBytes]
    split
    · exact Nat.succ_le_succ (Nat.zero_le _)
    · next hz =>
      cases j with
      | zero => exact absurd ⟨by simpa using h₁, by simpa using h₂⟩ hz
      | succ j =>
        rw [pow_succ] at h₁ h₂
        exact Nat.succ_le_succ (ih (j := j) (by omega) (by omega))

/-- The last group is the highest digit. -/
theorem Groups.last_le {bs : List Byte} {n : ℕ} {b : Byte} (h : Groups bs n b) :
    b.toNat * 128 ^ (bs.length - 1) ≤ n := by
  induction h with
  | last b h => simp
  | @more b bs n l h hs ih =>
    have hpos := hs.length_pos
    have hpow : 128 ^ ((b :: bs).length - 1) = 128 ^ (bs.length - 1) * 128 := by
      rw [List.length_cons, Nat.add_sub_cancel, ← Nat.pow_succ]
      congr 1
      omega
    rw [hpow, ← Nat.mul_assoc]
    omega

/-- An encoding has room for its value. -/
theorem SLeb.ge {bs : List Byte} {z : ℤ} (h : SLeb bs z) : -64 * 128 ^ (bs.length - 1) ≤ z := by
  obtain ⟨n, b, hg, hz⟩ := h
  have hlast := hg.last_le
  have hpos := hg.length_pos
  have hpow : (128 : ℤ) ^ bs.length = 128 ^ (bs.length - 1) * 128 := by
    rw [← pow_succ]
    congr 1
    omega
  have hge : (0 : ℤ) ≤ 128 ^ (bs.length - 1) := by positivity
  rw [hz]
  split
  · omega
  · next hb =>
    have hmul : 64 * 128 ^ (bs.length - 1) ≤ b.toNat * 128 ^ (bs.length - 1) :=
      Nat.mul_le_mul_right _ (by omega)
    have hcast : (64 * 128 ^ (bs.length - 1) : ℤ) ≤ n := by exact_mod_cast Nat.le_trans hmul hlast
    rw [hpow]
    omega

end Leb128
