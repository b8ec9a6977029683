import LibunwindKern.Dwarf.Encoding
import Mathlib.Tactic.NormNum

/-!
# Decoding canonical pointer encodings

An encoded pointer is a raw value in one of the formats, or one of the two special
encodings `DW_EH_PE_omit` and `DW_EH_PE_aligned`. `PtrFormat.encode` is the canonical encoding
of a raw value: little-endian bytes in the fixed formats and the shortest LEB128 encoding
otherwise. A raw value is a word; in the signed formats it is the sign-extended value.

The one format that is not decoded to what was encoded is `DW_EH_PE_sleb128`, which is read
with the unsigned reader. A negative value of `width` bytes comes out too large by
`2 ^ (7 * width)` (`dwarfReadUleb128_of_negative`), and the ten bytes of a value below
`-2 ^ 62` are the only ones for which this is a multiple of `2 ^ 64`.

* `rawAt_encode`: a canonical encoding is an encoding.
* `dwarfReadEncodedPointer_denotes_iff`: when the pointer is the one that was encoded.
-/

namespace LibunwindKern

open CProg ByteMem Leb128

/-! ### Canonical encodings -/

/-- The raw values a format has room for. -/
def PtrFormat.Represents : PtrFormat → Word → Prop
  | .udata2, raw => raw.toNat < 2 ^ 16
  | .udata4, raw => raw.toNat < 2 ^ 32
  | .sdata2, raw => -2 ^ 15 ≤ raw.toInt ∧ raw.toInt < 2 ^ 15
  | .sdata4, raw => -2 ^ 31 ≤ raw.toInt ∧ raw.toInt < 2 ^ 31
  | _, _ => True

/-- The canonical encoding of a raw value. -/
def PtrFormat.encode : PtrFormat → Word → List Byte
  | .ptr, raw => leBytes 8 raw.toNat
  | .uleb128, raw => ulebBytes 9 raw.toNat
  | .udata2, raw => leBytes 2 raw.toNat
  | .udata4, raw => leBytes 4 raw.toNat
  | .udata8, raw => leBytes 8 raw.toNat
  | .sleb128, raw => slebBytes 9 raw.toInt
  | .sdata2, raw => leBytes 2 raw.toNat
  | .sdata4, raw => leBytes 4 raw.toNat
  | .sdata8, raw => leBytes 8 raw.toNat

/-- The supported encodings. -/
inductive PtrCoding where
  | omitted
  | aligned
  | plain (e : PtrEnc)
  deriving DecidableEq, Repr

namespace PtrCoding

def byte : PtrCoding → Byte
  | omitted => dwEhPeOmit
  | aligned => dwEhPeAligned
  | plain e => e.byte

/-- Nothing is encoded by `DW_EH_PE_omit`, and an aligned pointer is a word. -/
def Represents : PtrCoding → Word → Prop
  | omitted, raw => raw = 0
  | aligned, _ => True
  | plain e, raw => e.format.Represents raw

/-- The bytes up to the next multiple of eight. -/
def padding (a : Word) : ℕ := (8 - a.toNat % 8) % 8

/-- The canonical encoding of the raw value stands at `a`. -/
def At (m : Mem) (a raw : Word) : PtrCoding → Prop
  | omitted => True
  | aligned => BytesAt m (past a (padding a)) (leBytes 8 raw.toNat)
  | plain e => BytesAt m a (e.format.encode raw)

/-- How many bytes it takes. -/
def width (a raw : Word) : PtrCoding → ℕ
  | omitted => 0
  | aligned => padding a + 8
  | plain e => (e.format.encode raw).length

/-- The pointer that was encoded. -/
def value (m : Mem) (pi : ProcInfo) (a raw : Word) : PtrCoding → Word
  | omitted => 0
  | aligned => raw
  | plain e => ptrValue m pi e a raw

end PtrCoding

section

variable {m : Mem} {a raw : Word} {pi : ProcInfo}

theorem load16_leBytes (h : BytesAt m a (leBytes 2 raw.toNat)) :
    load16 m a = BitVec.ofNat 16 raw.toNat := by
  apply BitVec.eq_of_toNat_eq
  unfold load16
  rw [loadNat_leBytes h, BitVec.toNat_ofNat, BitVec.toNat_ofNat]
  omega

private theorem load32_leBytes (h : BytesAt m a (leBytes 4 raw.toNat)) :
    load32 m a = BitVec.ofNat 32 raw.toNat := by
  apply BitVec.eq_of_toNat_eq
  unfold load32
  rw [loadNat_leBytes h, BitVec.toNat_ofNat, BitVec.toNat_ofNat]
  omega

theorem load64_leBytes (h : BytesAt m a (leBytes 8 raw.toNat)) : load64 m a = raw := by
  apply BitVec.eq_of_toNat_eq
  have := raw.isLt
  unfold load64
  rw [loadNat_leBytes h, BitVec.toNat_ofNat]
  omega

/-- A word is the zero extension of its low half when the rest is zero. -/
private theorem setWidth_ofNat_eq {w : ℕ} (h : raw.toNat < 2 ^ w) (hw : w ≤ 64) :
    (BitVec.ofNat w raw.toNat).setWidth 64 = raw := by
  apply BitVec.eq_of_toNat_eq
  have hpow : 2 ^ w ≤ 2 ^ 64 := Nat.pow_le_pow_right (by omega) hw
  rw [BitVec.toNat_setWidth, BitVec.toNat_ofNat, Nat.mod_eq_of_lt h, Nat.mod_eq_of_lt (by omega)]

/-- A signed encoding of any word takes at most ten bytes. -/
theorem sleb_word (raw : Word) : SLeb (slebBytes 9 raw.toInt) raw.toInt := by
  have h₁ := raw.two_mul_toInt_lt
  have h₂ := raw.le_two_mul_toInt
  exact sleb_slebBytes (by omega) (by omega)

/-- **A canonical encoding is an encoding.** -/
theorem rawAt_encode {format : PtrFormat} (hrep : format.Represents raw)
    (h : BytesAt m a (format.encode raw)) : RawAt m a format raw (format.encode raw).length := by
  have hraw := raw.isLt
  cases format with
  | ptr =>
    have hload := load64_leBytes h
    exact hload ▸ RawAt.ptr
  | uleb128 =>
    exact RawAt.uleb128 ⟨_, uleb_ulebBytes (by omega), rfl, ulebBytes_length_le 9 _, h⟩
  | udata2 =>
    have hload : (load16 m a).setWidth 64 = raw := by
      rw [load16_leBytes h, setWidth_ofNat_eq hrep (by omega)]
    exact hload ▸ RawAt.udata2
  | udata4 =>
    have hload : (load32 m a).setWidth 64 = raw := by
      rw [load32_leBytes h, setWidth_ofNat_eq hrep (by omega)]
    exact hload ▸ RawAt.udata4
  | udata8 =>
    have hload := load64_leBytes h
    exact hload ▸ RawAt.udata8
  | sleb128 => exact RawAt.sleb128 ⟨_, sleb_word raw, rfl, slebBytes_length_le 9 _, h⟩
  | sdata2 =>
    have hload : (load16 m a).signExtend 64 = raw := by
      obtain ⟨hlow, hhigh⟩ : -2 ^ 15 ≤ raw.toInt ∧ raw.toInt < 2 ^ 15 := hrep
      rw [load16_leBytes h, BitVec.ofNat_toNat]
      exact signExtend_setWidth_of_fits (by omega) (by omega) (by omega)
    exact hload ▸ RawAt.sdata2
  | sdata4 =>
    have hload : (load32 m a).signExtend 64 = raw := by
      obtain ⟨hlow, hhigh⟩ : -2 ^ 31 ≤ raw.toInt ∧ raw.toInt < 2 ^ 31 := hrep
      rw [load32_leBytes h, BitVec.ofNat_toNat]
      exact signExtend_setWidth_of_fits (by omega) (by omega) (by omega)
    exact hload ▸ RawAt.sdata4
  | sdata8 =>
    have hload := load64_leBytes h
    exact hload ▸ RawAt.sdata8

/-! ### Negative values in the signed LEB128 format -/

/-- **A negative value read as an unsigned one** is too large by the sign's weight. -/
theorem dwarfReadUleb128_of_negative {width : ℕ} (h : SlebAt m a raw width)
    (hneg : raw.toInt < 0) :
    dwarfReadUleb128 m a = (.ok (raw + BitVec.ofNat 64 (2 ^ (7 * width))), past a width) := by
  obtain ⟨bs, ⟨n, l, hg, hv⟩, rfl, hlen, hbytes⟩ := h
  rw [dwarfReadUleb128_of_uleb ⟨l, hg⟩ hlen hbytes]
  have hpow : (128 : ℤ) ^ bs.length = ((2 ^ (7 * bs.length) : ℕ) : ℤ) := by
    rw [pow_mul]
    push_cast
    norm_num
  have hsum : (n : ℤ) = raw.toInt + ((2 ^ (7 * bs.length) : ℕ) : ℤ) := by
    split at hv
    · omega
    · omega
  have heq : BitVec.ofNat 64 n = raw + BitVec.ofNat 64 (2 ^ (7 * bs.length)) := by
    rw [← BitVec.ofInt_natCast, hsum, BitVec.ofInt_add, BitVec.ofInt_toInt, BitVec.ofInt_natCast]
  rw [heq]

/-- The sign's weight is lost in the word only when the value fills it. -/
private theorem signWeight_ne_zero {width : ℕ} (h : width ≤ 9) :
    BitVec.ofNat 64 (2 ^ (7 * width)) ≠ 0 := by
  have hlt : 2 ^ (7 * width) < 2 ^ 64 := Nat.pow_lt_pow_right (by omega) (by omega)
  have hpos := Nat.two_pow_pos (7 * width)
  intro hzero
  have := congrArg BitVec.toNat hzero
  rw [BitVec.toNat_ofNat, Nat.mod_eq_of_lt hlt] at this
  exact absurd this (Nat.ne_of_gt hpos)

/-- A value below `-2 ^ 62` takes ten bytes. -/
theorem slebBytes_length_of_lt (h : raw.toInt < -2 ^ 62) : (slebBytes 9 raw.toInt).length = 10 := by
  have hge := (sleb_word raw).ge
  have hle := slebBytes_length_le 9 raw.toInt
  by_contra hne
  have hlen : (slebBytes 9 raw.toInt).length - 1 ≤ 8 := by omega
  have hpow : (128 : ℤ) ^ ((slebBytes 9 raw.toInt).length - 1) ≤ 128 ^ 8 :=
    pow_le_pow_right₀ (by norm_num) hlen
  norm_num at hpow hge h
  omega

/-- A value from `-2 ^ 62` up to zero takes at most nine. -/
theorem slebBytes_length_of_ge (h : -2 ^ 62 ≤ raw.toInt) (hneg : raw.toInt < 0) :
    (slebBytes 9 raw.toInt).length ≤ 9 :=
  slebBytes_length_le_of_bounds (j := 8) (by norm_num; omega) (by norm_num; omega)

/-- What a negative value is read as is not the null pointer. -/
private theorem misread_ne_zero {width : ℕ} (h : SlebAt m a raw width) (hneg : raw.toInt < 0)
    (hwidth : width ≤ 9) : raw + BitVec.ofNat 64 (2 ^ (7 * width)) ≠ 0 := by
  obtain ⟨bs, hsleb, rfl, -, -⟩ := h
  have hge := hsleb.ge
  have hpos : 0 < bs.length := by
    obtain ⟨n, b, hg, -⟩ := hsleb
    exact hg.length_pos
  have hlt : 2 ^ (7 * bs.length) < 2 ^ 64 := Nat.pow_lt_pow_right (by omega) (by omega)
  have hpow : ((2 ^ (7 * bs.length) : ℕ) : ℤ) = 128 * 128 ^ (bs.length - 1) := by
    rw [← pow_succ', Nat.sub_add_cancel hpos, pow_mul]
    push_cast
    norm_num
  have hone : (0 : ℤ) < 128 ^ (bs.length - 1) := by positivity
  intro hzero
  have hint : BitVec.ofInt 64 (raw.toInt + ((2 ^ (7 * bs.length) : ℕ) : ℤ)) = 0 := by
    rw [BitVec.ofInt_add, BitVec.ofInt_toInt, BitVec.ofInt_natCast]
    exact hzero
  have hnat := congrArg BitVec.toNat hint
  rw [BitVec.toNat_ofInt] at hnat
  change _ = 0 at hnat
  omega

/-- The pointer the reader makes of a negative value of at most nine bytes. -/
theorem dwarfReadEncodedPointer_of_negative {e : PtrEnc} (hformat : e.format = .sleb128)
    {width : ℕ} (h : SlebAt m a raw width) (hneg : raw.toInt < 0) (hwidth : width ≤ 9) :
    dwarfReadEncodedPointer m e.byte pi a =
      (.ok (if e.indirect then load64 m (raw + BitVec.ofNat 64 (2 ^ (7 * width)) + e.appl.base pi a)
        else raw + BitVec.ofNat 64 (2 ^ (7 * width)) + e.appl.base pi a), past a width) := by
  obtain ⟨homit, haligned, hfmt, happl, hindirect⟩ := e.byte_spec
  have hread : readEncodedFormat m e.format.byte a =
      (.ok (raw + BitVec.ofNat 64 (2 ^ (7 * width))), past a width) := by
    rw [hformat]
    exact dwarfReadUleb128_of_negative h hneg
  unfold dwarfReadEncodedPointer
  rw [Act.get_bind, if_neg homit, if_neg haligned, hfmt, happl, Act.bind_of_ok hread,
    if_neg (misread_ne_zero h hneg hwidth), applyEncoding_eq, Act.lift_ok_bind]
  by_cases hind : e.indirect = true
  · rw [if_pos (hindirect.mpr hind), if_pos hind]
    rfl
  · rw [if_neg (fun h => hind (hindirect.mp h)), if_neg hind]
    rfl

/-- The address an aligned pointer is read from. -/
private theorem align_eq (a : Word) : (a + 7) &&& (-8#64) = past a (PtrCoding.padding a) := by
  have hmask : (-8#64 : Word) = ~~~(BitVec.ofNat 64 (2 ^ 3 - 1)) := by decide
  have hseven : (7 : Word).toNat = 7 := by decide
  apply BitVec.eq_of_toNat_eq
  unfold past PtrCoding.padding
  rw [hmask, toNat_and_not_low, BitVec.toNat_add, BitVec.toNat_add, BitVec.toNat_ofNat, hseven]
  have := a.isLt
  omega

/-- **When a pointer is decoded to what was encoded.** For every supported encoding and
every raw value it has room for, on the canonical encoding of the value: the reader returns
the pointer that was encoded and stops just past it, unless the format is
`DW_EH_PE_sleb128` and the value is negative and not below `-2 ^ 62`. In that case the
result is right only if the pointer is indirect and the word at the wrong address happens
to be the word at the right one. -/
theorem dwarfReadEncodedPointer_denotes_iff (m : Mem) (pi : ProcInfo) (enc : PtrCoding)
    (a raw : Word) (hrep : enc.Represents raw) (h : enc.At m a raw) :
    dwarfReadEncodedPointer m enc.byte pi a =
        (.ok (enc.value m pi a raw), past a (enc.width a raw)) ↔
      ∀ e, enc = .plain e → e.format = .sleb128 → -2 ^ 62 ≤ raw.toInt → raw.toInt < 0 →
        e.indirect = true ∧ load64 m (raw + e.appl.base pi a) =
          load64 m (raw + BitVec.ofNat 64 (2 ^ (7 * enc.width a raw)) + e.appl.base pi a) := by
  cases enc with
  | omitted =>
    refine ⟨fun _ e he => (by cases he), fun _ => ?_⟩
    change (Res.ok 0, a) = (Res.ok 0, past a 0)
    rw [past_zero]
  | aligned =>
    refine ⟨fun _ e he => (by cases he), fun _ => ?_⟩
    have hload : load64 m (past a (PtrCoding.padding a)) = raw := load64_leBytes h
    have hbyte : PtrCoding.aligned.byte = dwEhPeAligned := rfl
    have homit : dwEhPeAligned ≠ dwEhPeOmit := by decide
    unfold dwarfReadEncodedPointer
    rw [hbyte, Act.get_bind, if_neg homit, if_pos rfl, Act.modify_bind, align_eq]
    unfold dwarfReadw dwarfReadu64 PtrCoding.value PtrCoding.width
    rw [hload, ← past_past]
    rfl
  | plain e =>
    have hraw : RawAt m a e.format raw (e.format.encode raw).length := rawAt_encode hrep h
    by_cases hbad : e.format = .sleb128 ∧ -2 ^ 62 ≤ raw.toInt ∧ raw.toInt < 0
    · -- the sign is lost
      obtain ⟨hformat, hge, hneg⟩ := hbad
      have hwidth : (e.format.encode raw).length ≤ 9 := by
        rw [hformat]
        exact slebBytes_length_of_ge hge hneg
      have hsleb : SlebAt m a raw (e.format.encode raw).length := by
        have hbytes : BytesAt m a (e.format.encode raw) := h
        rw [hformat] at hbytes ⊢
        exact ⟨_, sleb_word raw, rfl, slebBytes_length_le 9 _, hbytes⟩
      have hne : raw ≠ 0 := by
        rintro rfl
        exact absurd hneg (by decide)
      change dwarfReadEncodedPointer m e.byte pi a =
        (.ok (ptrValue m pi e a raw), past a (e.format.encode raw).length) ↔ _
      rw [dwarfReadEncodedPointer_of_negative hformat hsleb hneg hwidth]
      unfold ptrValue
      rw [if_neg hne, Prod.mk.injEq, Res.ok.injEq]
      by_cases hind : e.indirect = true
      · rw [if_pos hind, if_pos hind]
        constructor
        · rintro ⟨heq, -⟩ e' he' - - -
          cases he'
          exact ⟨hind, heq.symm⟩
        · intro hall
          exact ⟨(hall e rfl hformat hge hneg).2.symm, rfl⟩
      · rw [if_neg hind, if_neg hind]
        constructor
        · -- without a second load the two pointers differ by the sign's weight
          rintro ⟨heq, -⟩
          have hzero : BitVec.ofNat 64 (2 ^ (7 * (e.format.encode raw).length)) = 0 := by
            bv_omega
          exact absurd hzero (signWeight_ne_zero hwidth)
        · intro hall
          exact absurd (hall e rfl hformat hge hneg).1 hind
    · refine ⟨?_, fun _ => ?_⟩
      · rintro - e' he' hformat hge hneg
        cases he'
        exact absurd ⟨hformat, hge, hneg⟩ hbad
      · refine dwarfReadEncodedPointer_of_ptrAt ⟨hraw, rfl⟩ ?_
        intro hformat hneg
        change (e.format.encode raw).length = 10
        rw [hformat]
        refine slebBytes_length_of_lt ?_
        by_contra hge
        exact hbad ⟨hformat, by omega, hneg⟩

/-- Memory with one byte at `0x1000`. -/
def oneByte (b : Byte) : Mem := fun x => if x = 0x1000 then b else 0

/-- The pc-relative value `5` in the signed LEB128 format. -/
theorem dwarfReadEncodedPointer_positive_sleb :
    BytesAt (oneByte 0x05) 0x1000 (PtrFormat.sleb128.encode 5) ∧
      dwarfReadEncodedPointer (oneByte 0x05) (PtrCoding.plain ⟨.sleb128, .pcrel, false⟩).byte
        .zero 0x1000 = (.ok 0x1005, 0x1001) := by
  have hbytes : BytesAt (oneByte 0x05) 0x1000 (PtrFormat.sleb128.encode 5) := by decide
  have hiff := dwarfReadEncodedPointer_denotes_iff (oneByte 0x05) .zero
    (.plain ⟨.sleb128, .pcrel, false⟩) 0x1000 5 trivial hbytes
  refine ⟨hbytes, hiff.2 ?_⟩
  intro e _ _ _ hneg
  exact absurd hneg (by decide)

/-- The absolute value `-1` in the same format is decoded to `127`. -/
theorem dwarfReadEncodedPointer_negative_sleb :
    (PtrCoding.plain ⟨.sleb128, .absptr, false⟩).Represents (-1) ∧
      (PtrCoding.plain ⟨.sleb128, .absptr, false⟩).At (oneByte 0x7f) 0x1000 (-1) ∧
      (PtrCoding.plain ⟨.sleb128, .absptr, false⟩).value (oneByte 0x7f) .zero 0x1000 (-1) = -1 ∧
      dwarfReadEncodedPointer (oneByte 0x7f) (PtrCoding.plain ⟨.sleb128, .absptr, false⟩).byte
        .zero 0x1000 = (.ok 127, 0x1001) := by
  have hbytes : BytesAt (oneByte 0x7f) 0x1000 (PtrFormat.sleb128.encode (-1)) := by decide
  have hsleb : SlebAt (oneByte 0x7f) 0x1000 (-1) 1 :=
    ⟨_, sleb_word (-1), by decide, by decide, hbytes⟩
  refine ⟨trivial, hbytes, by decide, ?_⟩
  exact dwarfReadEncodedPointer_of_negative (e := ⟨.sleb128, .absptr, false⟩) rfl hsleb
    (by decide) (by decide)

end

end LibunwindKern
