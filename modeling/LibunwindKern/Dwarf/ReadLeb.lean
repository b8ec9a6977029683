import LibunwindKern.Dwarf.Reader

/-!
# The readers of `_ReadULEB.c` and `_ReadSLEB.c`

The library reads LEB128 numbers in two places. The readers of `dwarf_i.h` are in
`Reader.lean`, and this module has the other two. They count the shift in an `unsigned`,
which has 32 bits, and hold the byte in a word.

* `readGroups_eq`: their loop goes with `readLebGroups`, turn by turn. The shift count of the
  one is the low half of that of the other, and the processor looks at the low six bits only.
* `readULEB_eq`: the two unsigned readers agree on every memory.
* `readSLEB_eq`: the two signed readers agree where the shift count fits in 32 bits, since
  it is compared with 64 before the sign is extended.
* `leb128_readers_decode`: all four readers decode an encoding of at most ten bytes, and go
  to the address just past it.
-/

namespace LibunwindKern

open CProg ByteMem Leb128

section Readers

variable (m : Mem)

/-- `*bp++`, in the word it is assigned to. -/
def nextByte : Reader Word := fun bp => (.ok ((m bp).setWidth 64), bp + 1)

/-- `result | (byte & 0x7f) << shift`. The processor takes the count modulo 64. -/
def orGroup (result byte : Word) (shift : BitVec 32) : Word :=
  result ||| ((byte &&& 0x7f#64) <<< (shift.toNat % 64))

/-- The loop of `_ReadULEB` and `_ReadSLEB`. The function returns what `finish` makes of the
result, the shift count and the last byte. -/
def readGroups (finish : Word → BitVec 32 → Word → Word) : ℕ → Word → BitVec 32 → Reader Word
  | 0, _, _ => Act.lift .diverge
  | fuel + 1, result, shift => do
    let byte ← nextByte m
    if byte &&& 0x80 = 0 then
      pure (finish (orGroup result byte shift) (shift + 7) byte)
    else
      readGroups finish fuel (orGroup result byte shift) (shift + 7)

/-- `_ReadULEB`. -/
def readULEB : Reader Word := readGroups m (fun result _ _ => result) (2 ^ 64) 0 0

/-- The end of `_ReadSLEB`: sign-extend negative value. -/
def extendSign (result : Word) (shift : BitVec 32) (byte : Word) : Word :=
  if shift < 64 ∧ byte &&& 0x40 ≠ 0 then result ||| (BitVec.allOnes 64 <<< shift.toNat)
  else result

/-- `_ReadSLEB`. -/
def readSLEB : Reader Word := readGroups m extendSign (2 ^ 64) 0 0

end Readers

section Turns

variable {m : Mem} {finish : Word → BitVec 32 → Word → Word}

/-! ### One turn -/

/-- A bit of the byte, looked at in the word. -/
private theorem and_word_eq_zero (b mask : Byte) :
    b.setWidth 64 &&& mask.setWidth 64 = 0 ↔ b &&& mask = 0 := by
  rw [← BitVec.setWidth_and]
  constructor
  · intro h
    have hnat := congrArg BitVec.toNat h
    rw [BitVec.toNat_setWidth_of_le (by decide)] at hnat
    exact BitVec.eq_of_toNat_eq hnat
  · intro h
    rw [h]
    rfl

theorem more_word_iff (b : Byte) : b.setWidth 64 &&& (0x80 : Word) = 0 ↔ b &&& 0x80 = 0 :=
  and_word_eq_zero b 0x80

theorem sign_word_iff (b : Byte) : b.setWidth 64 &&& (0x40 : Word) = 0 ↔ b &&& 0x40 = 0 :=
  and_word_eq_zero b 0x40

/-- The low half of a shift count gives the same shift. -/
theorem orGroup_eq (result shift : Word) (b : Byte) :
    orGroup result (b.setWidth 64) (shift.setWidth 32) = accumulate result shift b := by
  have hcount : (shift.setWidth 32).toNat % 64 = shift.toNat % 64 := by
    rw [BitVec.toNat_setWidth]
    omega
  unfold orGroup accumulate
  rw [hcount]

theorem setWidth_add_seven (shift : Word) :
    shift.setWidth 32 + 7 = (shift + 7).setWidth 32 := by
  rw [BitVec.setWidth_add shift 7 (by decide)]
  rfl

/-- A turn of the loop that is the last one, -/
theorem readGroups_last (fuel : ℕ) (result shift : Word) {bp : Word} (h : m bp &&& 0x80 = 0) :
    readGroups m finish (fuel + 1) result (shift.setWidth 32) bp =
      (.ok (finish (accumulate result shift (m bp)) ((shift + 7).setWidth 32)
        ((m bp).setWidth 64)), bp + 1) := by
  show (if (m bp).setWidth 64 &&& (0x80 : Word) = 0 then pure (finish _ _ _)
    else readGroups m finish fuel _ _ : Reader Word) (bp + 1) = _
  rw [if_pos ((more_word_iff _).2 h), orGroup_eq, setWidth_add_seven]
  rfl

/-- and one that is not. -/
theorem readGroups_more (fuel : ℕ) (result shift : Word) {bp : Word} (h : m bp &&& 0x80 ≠ 0) :
    readGroups m finish (fuel + 1) result (shift.setWidth 32) bp =
      readGroups m finish fuel (accumulate result shift (m bp)) ((shift + 7).setWidth 32)
        (bp + 1) := by
  show (if (m bp).setWidth 64 &&& (0x80 : Word) = 0 then pure (finish _ _ _)
    else readGroups m finish fuel _ _ : Reader Word) (bp + 1) = _
  rw [if_neg (mt (more_word_iff _).1 h), orGroup_eq, setWidth_add_seven]

/-! ### The two loops -/

/-- **The loops go together.** The induction is on the bound, and the shift count of the one
loop stays the low half of that of the other. -/
theorem readGroups_eq (fuel : ℕ) : ∀ result shift bp : Word,
    readGroups m finish fuel result (shift.setWidth 32) bp =
      (readLebGroups m fuel result shift >>= fun r =>
        pure (finish r.1 (r.2.1.setWidth 32) (r.2.2.setWidth 64)) : Reader Word) bp := by
  induction fuel with
  | zero =>
    intro result shift bp
    rfl
  | succ fuel ih =>
    intro result shift bp
    by_cases hlast : m bp &&& 0x80 = 0
    · rw [readGroups_last fuel result shift hlast,
        Act.bind_of_ok (readLebGroups_last fuel result shift hlast)]
      rfl
    · rw [readGroups_more fuel result shift hlast,
        Act.bind_congr_left _ (readLebGroups_more fuel result shift hlast), ih]

/-- **The unsigned readers agree.** -/
theorem readULEB_eq (m : Mem) : readULEB m = dwarfReadUleb128 m := by
  funext bp
  exact readGroups_eq (2 ^ 64) 0 0 bp

/-- **The signed readers agree** where the shift count fits in 32 bits. -/
theorem readSLEB_eq {bp a : Word} {r : Word × Word × Byte}
    (hrun : readLebGroups m (2 ^ 64) 0 0 bp = (.ok r, a)) (hfits : r.2.1.toNat < 2 ^ 32) :
    readSLEB m bp = dwarfReadSleb128 m bp := by
  have hshift : (r.2.1.setWidth 32).toNat = r.2.1.toNat := by
    rw [BitVec.toNat_setWidth, Nat.mod_eq_of_lt hfits]
  -- the shift count is compared with 64 in both
  have hcond : (r.2.1.setWidth 32 < 64 ∧ (r.2.2.setWidth 64 &&& 0x40 : Word) ≠ 0) ↔
      (r.2.1 < 64 ∧ r.2.2 &&& 0x40 ≠ 0) := by
    rw [BitVec.lt_def, BitVec.lt_def, hshift]
    exact and_congr Iff.rfl (not_congr (sign_word_iff _))
  have hmine : readSLEB m bp = _ := readGroups_eq (2 ^ 64) 0 0 bp
  unfold dwarfReadSleb128
  rw [hmine, Act.bind_of_ok hrun, Act.bind_of_ok hrun, Act.pure_apply]
  unfold extendSign
  by_cases hneg : r.2.1 < 64 ∧ r.2.2 &&& 0x40 ≠ 0
  · rw [if_pos hneg, if_pos (hcond.2 hneg), hshift]
    rfl
  · rw [if_neg hneg, if_neg (mt hcond.1 hneg)]
    rfl

end Turns

/-! ### Encodings -/

/-- **The four readers decode** an encoding of at most ten bytes, the shortest or a padded one,
and go to the address just past it. -/
theorem leb128_readers_decode (m : Mem) (addr : Word) :
    (∀ (v : Word) (bs : List Byte), ULeb bs v.toNat → bs.length ≤ 10 → BytesAt m addr bs →
      dwarfReadUleb128 m addr = (.ok v, past addr bs.length) ∧
        readULEB m addr = (.ok v, past addr bs.length)) ∧
      ∀ (v : Word) (bs : List Byte), SLeb bs v.toInt → bs.length ≤ 10 → BytesAt m addr bs →
        dwarfReadSleb128 m addr = (.ok v, past addr bs.length) ∧
          readSLEB m addr = (.ok v, past addr bs.length) := by
  constructor
  · intro v bs henc hlen hbytes
    have hrun := dwarfReadUleb128_of_uleb henc hlen hbytes
    rw [BitVec.ofNat_toNat, BitVec.setWidth_eq] at hrun
    rw [readULEB_eq]
    exact ⟨hrun, hrun⟩
  · intro v bs henc hlen hbytes
    have hrun := dwarfReadSleb128_of_sleb henc hlen hbytes
    rw [BitVec.ofInt_toInt] at hrun
    -- the shift count is at most 70
    obtain ⟨n, b, hg, -⟩ := henc
    have hcount : (BitVec.ofNat 64 (7 * bs.length)).toNat < 2 ^ 32 := by
      rw [BitVec.toNat_ofNat]
      exact Nat.lt_of_le_of_lt (Nat.mod_le _ _) (by omega)
    rw [readSLEB_eq (readLebGroups_zero hg hlen hbytes) hcount]
    exact ⟨hrun, hrun⟩

/-- Five in three bytes, and the least signed number in ten. -/
def lebMem : Mem := fun a =>
  ([0x85, 0x80, 0x00,
    0x80, 0x80, 0x80, 0x80, 0x80, 0x80, 0x80, 0x80, 0x80, 0x7f] : List Byte).getD
      (a - 0x1000).toNat 0

theorem leb128_readers_decode_padded :
    (dwarfReadUleb128 lebMem 0x1000 = (.ok 5, 0x1003) ∧
        readULEB lebMem 0x1000 = (.ok 5, 0x1003)) ∧
      dwarfReadSleb128 lebMem 0x1003 = (.ok 0x8000000000000000, 0x100d) ∧
        readSLEB lebMem 0x1003 = (.ok 0x8000000000000000, 0x100d) := by
  constructor
  · refine (leb128_readers_decode lebMem 0x1000).1 5 [0x85, 0x80, 0x00] ?_ (by decide) (by decide)
    exact ⟨0x00, .more 0x85 (by decide) (.more 0x80 (by decide) (.last 0x00 (by decide)))⟩
  · refine (leb128_readers_decode lebMem 0x1003).2 0x8000000000000000
      [0x80, 0x80, 0x80, 0x80, 0x80, 0x80, 0x80, 0x80, 0x80, 0x7f] ?_ (by decide) (by decide)
    have hgroups : Groups [0x80, 0x80, 0x80, 0x80, 0x80, 0x80, 0x80, 0x80, 0x80, 0x7f] _ 0x7f :=
      .more _ (by decide) <| .more _ (by decide) <| .more _ (by decide) <| .more _ (by decide) <|
        .more _ (by decide) <| .more _ (by decide) <| .more _ (by decide) <| .more _ (by decide) <|
        .more _ (by decide) <| .last 0x7f (by decide)
    exact ⟨_, _, hgroups, by decide⟩

end LibunwindKern
