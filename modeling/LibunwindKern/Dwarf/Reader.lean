import LibunwindKern.Dwarf.Types
import LibunwindKern.Lib.Leb128

/-!
# Reading DWARF data

The readers of `dwarf_i.h`. The state of a reader is the address variable it is
given a pointer to. In the local-only build a read is a plain load, so the
fixed-width readers never fail.

`dwarfReadUleb128` and `dwarfReadSleb128` share the loop `readLebGroups`. The loop
has no bound in the source. Addresses wrap, so a loop that has read every address
reads on for ever, and `2 ^ 64` turns are enough to see whether it ends.

* `readLebGroups_of_groups` is the loop invariant: at most ten groups are added up
  modulo `2 ^ 64`.
* `dwarfReadUleb128_of_uleb` and `dwarfReadSleb128_of_sleb` are the two readers on
  an encoding of at most ten bytes.
-/

namespace LibunwindKern

open CProg ByteMem Leb128

/-- A reader: its state is the address variable. -/
abbrev Reader (α : Type) : Type := Act UnwError Word α

section

variable (m : Mem)

/-- `dwarf_readu8`. -/
def dwarfReadu8 : Reader Byte := fun addr => (.ok (m addr), addr + 1)

/-- `dwarf_readu16`. -/
def dwarfReadu16 : Reader (BitVec 16) := fun addr => (.ok (load16 m addr), addr + 2)

/-- `dwarf_readu32`. -/
def dwarfReadu32 : Reader (BitVec 32) := fun addr => (.ok (load32 m addr), addr + 4)

/-- `dwarf_readu64`. -/
def dwarfReadu64 : Reader Word := fun addr => (.ok (load64 m addr), addr + 8)

/-- `dwarf_reads16`, extended to the word it is assigned to. -/
def dwarfReads16 : Reader Word := fun addr => (.ok ((load16 m addr).signExtend 64), addr + 2)

/-- `dwarf_reads32`, extended to the word it is assigned to. -/
def dwarfReads32 : Reader Word := fun addr => (.ok ((load32 m addr).signExtend 64), addr + 4)

/-- `dwarf_reads64`. -/
def dwarfReads64 : Reader Word := fun addr => (.ok (load64 m addr), addr + 8)

/-- `dwarf_readw`: addresses are 8 bytes wide. -/
def dwarfReadw : Reader Word := dwarfReadu64 m

/-- The `do` loop of `dwarf_read_uleb128` and `dwarf_read_sleb128`: the value, the
shift count and the last byte. -/
def readLebGroups : ℕ → Word → Word → Reader (Word × Word × Byte)
  | 0, _, _ => Act.lift .diverge
  | fuel + 1, val, shift => do
    let byte ← dwarfReadu8 m
    if byte &&& 0x80 ≠ 0 then
      readLebGroups fuel (accumulate val shift byte) (shift + 7)
    else
      pure (accumulate val shift byte, shift + 7, byte)

/-- `dwarf_read_uleb128`. -/
def dwarfReadUleb128 : Reader Word := do
  let r ← readLebGroups m (2 ^ 64) 0 0
  pure r.1

/-- `dwarf_read_sleb128`. -/
def dwarfReadSleb128 : Reader Word := do
  let r ← readLebGroups m (2 ^ 64) 0 0
  -- sign-extend negative value
  if r.2.1 < 64 ∧ r.2.2 &&& 0x40 ≠ 0 then
    pure (r.1 ||| (BitVec.allOnes 64 <<< r.2.1.toNat))
  else
    pure r.1

end

/-! ### The LEB128 readers on encodings -/

variable {m : Mem}

/-- A byte below 128 ends an encoding. -/
theorem and_0x80_of_lt {b : Byte} (h : b.toNat < 128) : b &&& 0x80 = 0 := by
  revert h; revert b; decide

theorem and_0x80_of_le {b : Byte} (h : 128 ≤ b.toNat) : b &&& 0x80 ≠ 0 := by
  revert h; revert b; decide

/-- A turn of the loop that is the last one, -/
theorem readLebGroups_last (fuel : ℕ) (val shift : Word) {addr : Word}
    (h : m addr &&& 0x80 = 0) :
    readLebGroups m (fuel + 1) val shift addr =
      (.ok (accumulate val shift (m addr), shift + 7, m addr), addr + 1) := by
  unfold readLebGroups
  show (if m addr &&& 0x80 ≠ 0 then readLebGroups m fuel (accumulate val shift (m addr)) _
    else _ : Reader (Word × Word × Byte)) (addr + 1) = _
  rw [if_neg (not_not_intro h)]
  rfl

/-- and one that is not. -/
theorem readLebGroups_more (fuel : ℕ) (val shift : Word) {addr : Word}
    (h : m addr &&& 0x80 ≠ 0) :
    readLebGroups m (fuel + 1) val shift addr =
      readLebGroups m fuel (accumulate val shift (m addr)) (shift + 7) (addr + 1) := by
  show (if m addr &&& 0x80 ≠ 0 then readLebGroups m fuel (accumulate val shift (m addr)) _
    else _ : Reader (Word × Word × Byte)) (addr + 1) = _
  rw [if_pos h]

private theorem and_0x40_iff {b : Byte} (h : b.toNat < 128) : b &&& 0x40 ≠ 0 ↔ ¬b.toNat < 64 := by
  revert h; revert b; decide

/-- **The loop of the readers.** From a shift count inside the word, the loop adds the
groups of an encoding to the value, modulo `2 ^ 64`. The invariant is that the value
is below the shift count's power of two, so that the bitwise or is a sum. -/
theorem readLebGroups_of_groups {bs : List Byte} {n : ℕ} {b : Byte} (hg : Groups bs n b) :
    ∀ (fuel : ℕ) (addr val shift : Word), bs.length ≤ fuel → BytesAt m addr bs →
      shift.toNat + 7 * bs.length ≤ 70 → val.toNat < 2 ^ shift.toNat →
      readLebGroups m fuel val shift addr =
        (.ok (BitVec.ofNat 64 (val.toNat + 2 ^ shift.toNat * n),
          shift + BitVec.ofNat 64 (7 * bs.length), b), past addr bs.length) := by
  induction hg with
  | last b h =>
    intro fuel addr val shift hfuel hbytes hshift hval
    obtain ⟨fuel, rfl⟩ := Nat.exists_eq_succ_of_ne_zero (Nat.ne_of_gt hfuel)
    have hs : shift.toNat < 64 := by
      rw [List.length_singleton] at hshift
      omega
    have hb : m addr = b := hbytes.1
    have hacc : accumulate val shift b = BitVec.ofNat 64 (val.toNat + 2 ^ shift.toNat * b.toNat) := by
      apply BitVec.eq_of_toNat_eq
      rw [accumulate_toNat b hs hval, BitVec.toNat_ofNat, Nat.mod_eq_of_lt h]
    rw [readLebGroups_last fuel val shift (hb ▸ and_0x80_of_lt h), hb, hacc]
    rfl
  | @more b bs n l h hg ih =>
    intro fuel addr val shift hfuel hbytes hshift hval
    obtain ⟨fuel, rfl⟩ := Nat.exists_eq_succ_of_ne_zero (Nat.ne_of_gt (Nat.zero_lt_of_lt hfuel))
    have hpos := hg.length_pos
    rw [List.length_cons] at hshift hfuel ⊢
    have hs : shift.toNat < 64 := by omega
    have hb : m addr = b := hbytes.1
    have hsh : (shift + 7).toNat = shift.toNat + 7 := by
      rw [BitVec.toNat_add]
      change (shift.toNat + 7) % 2 ^ 64 = _
      omega
    have hlt := accumulate_lt b hs hval
    rw [readLebGroups_more fuel val shift (hb ▸ and_0x80_of_le h), hb,
      ih fuel (addr + 1) (accumulate val shift b) (shift + 7) (by omega) hbytes.2
        (by rw [hsh]; omega) (by rw [hsh]; exact hlt)]
    -- the digit of this byte and the digits of the rest make up the number
    have hval' : BitVec.ofNat 64 ((accumulate val shift b).toNat + 2 ^ (shift + 7).toNat * n) =
        BitVec.ofNat 64 (val.toNat + 2 ^ shift.toNat * (b.toNat - 128 + 128 * n)) := by
      have hdigit : b.toNat % 128 = b.toNat - 128 := by
        have := b.isLt
        omega
      have hpow : 2 ^ (shift.toNat + 7) * n = 2 ^ shift.toNat * (128 * n) := by
        rw [Nat.pow_add, Nat.mul_assoc]
      apply BitVec.eq_of_toNat_eq
      rw [BitVec.toNat_ofNat, BitVec.toNat_ofNat, accumulate_toNat b hs hval, hsh, hpow, hdigit,
        Nat.mod_add_mod, Nat.mul_add, Nat.add_assoc]
    have hshift' : shift + 7 + BitVec.ofNat 64 (7 * bs.length) =
        shift + BitVec.ofNat 64 (7 * (bs.length + 1)) := by
      rw [Nat.mul_add, Nat.add_comm (7 * bs.length), BitVec.ofNat_add, BitVec.add_assoc]
      rfl
    rw [hval', hshift', past_succ]

/-- The loop as the readers enter it. -/
theorem readLebGroups_zero {bs : List Byte} {n : ℕ} {b : Byte} {addr : Word}
    (hg : Groups bs n b) (hlen : bs.length ≤ 10) (hbytes : BytesAt m addr bs) :
    readLebGroups m (2 ^ 64) 0 0 addr =
      (.ok (BitVec.ofNat 64 n, BitVec.ofNat 64 (7 * bs.length), b), past addr bs.length) := by
  have h0 : (0 : Word).toNat = 0 := rfl
  have hrun := readLebGroups_of_groups hg (2 ^ 64) addr 0 0 (by omega) hbytes
    (by rw [h0]; omega) (by decide)
  rw [hrun, h0, Nat.pow_zero, Nat.one_mul, Nat.zero_add]
  congr 4
  exact BitVec.zero_add _

/-- **Reading an unsigned encoding** of at most ten bytes gives the number modulo
`2 ^ 64`, and the address just past the encoding. -/
theorem dwarfReadUleb128_of_uleb {bs : List Byte} {n : ℕ} {addr : Word} (h : ULeb bs n)
    (hlen : bs.length ≤ 10) (hbytes : BytesAt m addr bs) :
    dwarfReadUleb128 m addr = (.ok (BitVec.ofNat 64 n), past addr bs.length) := by
  obtain ⟨b, hg⟩ := h
  unfold dwarfReadUleb128
  rw [Act.bind_of_ok (readLebGroups_zero hg hlen hbytes)]
  rfl

/-- **Reading a signed encoding** of at most ten bytes gives the value in two's
complement. Nine bytes or less are sign-extended by the reader, and ten bytes
fill the word. -/
theorem dwarfReadSleb128_of_sleb {bs : List Byte} {z : ℤ} {addr : Word} (h : SLeb bs z)
    (hlen : bs.length ≤ 10) (hbytes : BytesAt m addr bs) :
    dwarfReadSleb128 m addr = (.ok (BitVec.ofInt 64 z), past addr bs.length) := by
  obtain ⟨n, b, hg, rfl⟩ := h
  have hlt := hg.lt
  have hpow : 128 ^ bs.length = 2 ^ (7 * bs.length) := Nat.pow_mul 2 7 bs.length ▸ rfl
  have hshift : (BitVec.ofNat 64 (7 * bs.length)).toNat = 7 * bs.length := by
    rw [BitVec.toNat_ofNat]
    omega
  unfold dwarfReadSleb128
  rw [Act.bind_of_ok (readLebGroups_zero hg hlen hbytes)]
  simp only
  by_cases hb : b.toNat < 64
  · -- a non-negative value is the number itself
    rw [if_neg (fun h => (and_0x40_iff hg.last_lt).mp h.2 hb), if_pos hb]
    rw [BitVec.ofInt_natCast]
    rfl
  · rw [if_neg hb]
    by_cases hnine : bs.length ≤ 9
    · have hs : 7 * bs.length < 64 := by omega
      have hn : n < 2 ^ 64 := by
        rw [hpow] at hlt
        exact Nat.lt_trans hlt (Nat.pow_lt_pow_right (by decide) hs)
      have hlt64 : BitVec.ofNat 64 (7 * bs.length) < (64 : Word) := by
        rw [BitVec.lt_def, hshift]
        exact hs
      rw [if_pos ⟨hlt64, (and_0x40_iff hg.last_lt).mpr hb⟩, hshift]
      have hval : (BitVec.ofNat 64 n).toNat = n := by
        rw [BitVec.toNat_ofNat, Nat.mod_eq_of_lt hn]
      have hor := or_ones_eq (BitVec.ofNat 64 n) hs (by rw [hval, ← hpow]; exact hlt)
      have hpowz : (128 : ℤ) ^ bs.length = 2 ^ (7 * bs.length) := by
        rw [pow_mul]
        rfl
      rw [hor, hval, hpowz]
      rfl
    · -- the tenth group reaches past the word, which cuts the sign off
      have hten : bs.length = 10 := by omega
      rw [if_neg]
      · have hcut : BitVec.ofNat 64 n = BitVec.ofInt 64 ((n : ℤ) - 128 ^ bs.length) := by
          rw [hten]
          apply BitVec.eq_of_toNat_eq
          rw [BitVec.toNat_ofNat, BitVec.toNat_ofInt]
          omega
        rw [hcut]
        rfl
      · intro h
        have hlt64 := BitVec.lt_def.mp h.1
        rw [hshift, hten] at hlt64
        exact absurd hlt64 (by decide)

/-! ### Pointer encodings -/

def dwEhPeFormatMask : Byte := 0x0f
def dwEhPeApplMask : Byte := 0x70
def dwEhPeIndirect : Byte := 0x80
def dwEhPeOmit : Byte := 0xff
def dwEhPePtr : Byte := 0x00
def dwEhPeUleb128 : Byte := 0x01
def dwEhPeUdata2 : Byte := 0x02
def dwEhPeUdata4 : Byte := 0x03
def dwEhPeUdata8 : Byte := 0x04
def dwEhPeSleb128 : Byte := 0x09
def dwEhPeSdata2 : Byte := 0x0a
def dwEhPeSdata4 : Byte := 0x0b
def dwEhPeSdata8 : Byte := 0x0c
def dwEhPeAbsptr : Byte := 0x00
def dwEhPePcrel : Byte := 0x10
def dwEhPeDatarel : Byte := 0x30
def dwEhPeFuncrel : Byte := 0x40
def dwEhPeAligned : Byte := 0x50

/-- The `switch` over the format of an encoded value. `DW_EH_PE_sleb128` is read with
the unsigned reader. -/
def readEncodedFormat (m : Mem) (format : Byte) : Reader Word :=
  if format = dwEhPePtr then dwarfReadw m
  else if format = dwEhPeUleb128 then dwarfReadUleb128 m
  else if format = dwEhPeUdata2 then do
    let uval16 ← dwarfReadu16 m
    pure (uval16.setWidth 64)
  else if format = dwEhPeUdata4 then do
    let uval32 ← dwarfReadu32 m
    pure (uval32.setWidth 64)
  else if format = dwEhPeUdata8 then dwarfReadu64 m
  else if format = dwEhPeSleb128 then dwarfReadUleb128 m
  else if format = dwEhPeSdata2 then dwarfReads16 m
  else if format = dwEhPeSdata4 then dwarfReads32 m
  else if format = dwEhPeSdata8 then dwarfReads64 m
  else Act.fail .einval

/-- **The formats, one by one.** -/
theorem readEncodedFormat_cases (m : Mem) {P : Byte → Reader Word → Prop}
    (hptr : P dwEhPePtr (dwarfReadw m)) (huleb : P dwEhPeUleb128 (dwarfReadUleb128 m))
    (hu2 : P dwEhPeUdata2 (dwarfReadu16 m >>= fun val => pure (val.setWidth 64)))
    (hu4 : P dwEhPeUdata4 (dwarfReadu32 m >>= fun val => pure (val.setWidth 64)))
    (hu8 : P dwEhPeUdata8 (dwarfReadu64 m)) (hsleb : P dwEhPeSleb128 (dwarfReadUleb128 m))
    (hs2 : P dwEhPeSdata2 (dwarfReads16 m)) (hs4 : P dwEhPeSdata4 (dwarfReads32 m))
    (hs8 : P dwEhPeSdata8 (dwarfReads64 m)) (hother : ∀ format, P format (Act.fail .einval))
    (format : Byte) : P format (readEncodedFormat m format) := by
  unfold readEncodedFormat
  by_cases h : format = dwEhPePtr
  · rwa [if_pos h, h]
  rw [if_neg h]
  by_cases h : format = dwEhPeUleb128
  · rwa [if_pos h, h]
  rw [if_neg h]
  by_cases h : format = dwEhPeUdata2
  · rwa [if_pos h, h]
  rw [if_neg h]
  by_cases h : format = dwEhPeUdata4
  · rwa [if_pos h, h]
  rw [if_neg h]
  by_cases h : format = dwEhPeUdata8
  · rwa [if_pos h, h]
  rw [if_neg h]
  by_cases h : format = dwEhPeSleb128
  · rwa [if_pos h, h]
  rw [if_neg h]
  by_cases h : format = dwEhPeSdata2
  · rwa [if_pos h, h]
  rw [if_neg h]
  by_cases h : format = dwEhPeSdata4
  · rwa [if_pos h, h]
  rw [if_neg h]
  by_cases h : format = dwEhPeSdata8
  · rwa [if_pos h, h]
  rw [if_neg h]
  exact hother format

/-- The `switch` over the application of a non-zero encoded value. -/
def applyEncoding (appl : Byte) (val initialAddr : Word) (pi : ProcInfo) : Res UnwError Word :=
  if appl = dwEhPeAbsptr then .ok val
  else if appl = dwEhPePcrel then .ok (val + initialAddr)
  else if appl = dwEhPeDatarel then .ok (val + pi.gp)
  else if appl = dwEhPeFuncrel then .ok (val + pi.startIp)
  else .err .einval

/-- `dwarf_read_encoded_pointer`. -/
def dwarfReadEncodedPointer (m : Mem) (encoding : Byte) (pi : ProcInfo) : Reader Word := do
  let initialAddr ← Act.get
  if encoding = dwEhPeOmit then
    pure 0
  else if encoding = dwEhPeAligned then do
    Act.modify fun _ => (initialAddr + 7) &&& (-8#64)
    dwarfReadw m
  else do
    let val ← readEncodedFormat m (encoding &&& dwEhPeFormatMask)
    if val = 0 then
      -- 0 is a special value and always absolute
      pure 0
    else do
      let val ← Act.lift (applyEncoding (encoding &&& dwEhPeApplMask) val initialAddr pi)
      if encoding &&& dwEhPeIndirect ≠ 0 then
        pure (load64 m val)
      else
        pure val

end LibunwindKern
