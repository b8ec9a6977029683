import LibunwindKern.Dwarf.Reader

/-!
# Encoded values in memory

`UlebAt m a v width` says that the `width` bytes from `a` on are an unsigned LEB128 encoding
of the word `v`, of at most ten bytes, and `SlebAt` is the same for a signed encoding. `PtrAt`
is an encoded pointer: a raw value in one of nine formats, applied to one of four bases, and
perhaps the address of the value rather than the value itself. Unlike the readers, these
relations do not say how the bytes are read. `dwarfReadEncodedPointer_of_ptrAt` says when
the reader finds the value that was encoded.

The reader decodes a signed LEB128 value as an unsigned one. That gives the same word for a
value that is not negative, and for a value of ten bytes, which fill the word
(`dwarfReadUleb128_of_slebAt`).
-/

namespace LibunwindKern

open CProg ByteMem Leb128

/-! ### LEB128 values -/

/-- An unsigned encoding of a word in this number of bytes, ten at most. -/
def UlebAt (m : Mem) (a v : Word) (width : ℕ) : Prop :=
  ∃ bs, ULeb bs v.toNat ∧ bs.length = width ∧ width ≤ 10 ∧ BytesAt m a bs

/-- A signed encoding of a word in this number of bytes, ten at most. -/
def SlebAt (m : Mem) (a v : Word) (width : ℕ) : Prop :=
  ∃ bs, SLeb bs v.toInt ∧ bs.length = width ∧ width ≤ 10 ∧ BytesAt m a bs

section Leb

variable {m : Mem} {a v : Word} {width : ℕ}

theorem dwarfReadUleb128_of_ulebAt (h : UlebAt m a v width) :
    dwarfReadUleb128 m a = (.ok v, past a width) := by
  obtain ⟨bs, hbs, rfl, hlen, hbytes⟩ := h
  rw [dwarfReadUleb128_of_uleb hbs hlen hbytes, BitVec.ofNat_toNat, BitVec.setWidth_eq]

theorem dwarfReadSleb128_of_slebAt (h : SlebAt m a v width) :
    dwarfReadSleb128 m a = (.ok v, past a width) := by
  obtain ⟨bs, hbs, rfl, hlen, hbytes⟩ := h
  rw [dwarfReadSleb128_of_sleb hbs hlen hbytes, BitVec.ofInt_toInt]

/-- **A signed value read as an unsigned one.** -/
theorem dwarfReadUleb128_of_slebAt (h : SlebAt m a v width) (hneg : v.toInt < 0 → width = 10) :
    dwarfReadUleb128 m a = (.ok v, past a width) := by
  obtain ⟨bs, ⟨n, l, hg, hv⟩, rfl, hlen, hbytes⟩ := h
  rw [dwarfReadUleb128_of_uleb ⟨l, hg⟩ hlen hbytes]
  have hlt : (n : ℤ) < 128 ^ bs.length := by exact_mod_cast hg.lt
  have heq : BitVec.ofNat 64 n = v := by
    rw [← BitVec.ofInt_toInt (x := v), hv]
    by_cases hl : l.toNat < 64
    · rw [if_pos hl, BitVec.ofInt_natCast]
    · -- the sign is in the tenth group, past the end of the word
      rw [if_neg hl] at hv ⊢
      have hten := hneg (by omega)
      rw [hten]
      apply BitVec.eq_of_toNat_eq
      rw [BitVec.toNat_ofNat, BitVec.toNat_ofInt]
      omega
  rw [heq]

end Leb

/-! ### Encoded pointers -/

/-- The formats of an encoded pointer. -/
inductive PtrFormat where
  | ptr | uleb128 | udata2 | udata4 | udata8 | sleb128 | sdata2 | sdata4 | sdata8
  deriving DecidableEq, Repr

/-- What an encoded pointer is relative to. -/
inductive PtrAppl where
  | absptr | pcrel | datarel | funcrel
  deriving DecidableEq, Repr

/-- A pointer encoding. -/
structure PtrEnc where
  format : PtrFormat
  appl : PtrAppl
  indirect : Bool
  deriving DecidableEq, Repr

def PtrFormat.byte : PtrFormat → Byte
  | .ptr => dwEhPePtr
  | .uleb128 => dwEhPeUleb128
  | .udata2 => dwEhPeUdata2
  | .udata4 => dwEhPeUdata4
  | .udata8 => dwEhPeUdata8
  | .sleb128 => dwEhPeSleb128
  | .sdata2 => dwEhPeSdata2
  | .sdata4 => dwEhPeSdata4
  | .sdata8 => dwEhPeSdata8

def PtrAppl.byte : PtrAppl → Byte
  | .absptr => dwEhPeAbsptr
  | .pcrel => dwEhPePcrel
  | .datarel => dwEhPeDatarel
  | .funcrel => dwEhPeFuncrel

def PtrEnc.byte (e : PtrEnc) : Byte :=
  e.format.byte ||| e.appl.byte ||| (if e.indirect then dwEhPeIndirect else 0)

/-- The base of an application, for a pointer at this address. -/
def PtrAppl.base (pi : ProcInfo) (a : Word) : PtrAppl → Word
  | .absptr => 0
  | .pcrel => a
  | .datarel => pi.gp
  | .funcrel => pi.startIp

/-- A raw value in a number of bytes. -/
inductive RawAt (m : Mem) (a : Word) : PtrFormat → Word → ℕ → Prop
  | ptr : RawAt m a .ptr (load64 m a) 8
  | uleb128 {raw : Word} {width : ℕ} (h : UlebAt m a raw width) : RawAt m a .uleb128 raw width
  | udata2 : RawAt m a .udata2 ((load16 m a).setWidth 64) 2
  | udata4 : RawAt m a .udata4 ((load32 m a).setWidth 64) 4
  | udata8 : RawAt m a .udata8 (load64 m a) 8
  | sleb128 {raw : Word} {width : ℕ} (h : SlebAt m a raw width) : RawAt m a .sleb128 raw width
  | sdata2 : RawAt m a .sdata2 ((load16 m a).signExtend 64) 2
  | sdata4 : RawAt m a .sdata4 ((load32 m a).signExtend 64) 4
  | sdata8 : RawAt m a .sdata8 (load64 m a) 8

/-- The pointer that a raw value stands for. A raw value of `0` is the null pointer. -/
def ptrValue (m : Mem) (pi : ProcInfo) (e : PtrEnc) (a raw : Word) : Word :=
  if raw = 0 then 0
  else if e.indirect then load64 m (raw + e.appl.base pi a) else raw + e.appl.base pi a

/-- An encoded pointer in this number of bytes, with its raw value. -/
def PtrAt (m : Mem) (pi : ProcInfo) (e : PtrEnc) (a raw v : Word) (width : ℕ) : Prop :=
  RawAt m a e.format raw width ∧ v = ptrValue m pi e a raw

section Ptr

variable {m : Mem} {pi : ProcInfo} {a raw v : Word} {width : ℕ}

theorem RawAt.width_le {format : PtrFormat} (h : RawAt m a format raw width) : width ≤ 10 := by
  cases h with
  | uleb128 h => obtain ⟨bs, -, -, hle, -⟩ := h; exact hle
  | sleb128 h => obtain ⟨bs, -, -, hle, -⟩ := h; exact hle
  | ptr | udata2 | udata4 | udata8 | sdata2 | sdata4 | sdata8 => decide

theorem PtrEnc.byte_spec (e : PtrEnc) :
    e.byte ≠ dwEhPeOmit ∧ e.byte ≠ dwEhPeAligned ∧ e.byte &&& dwEhPeFormatMask = e.format.byte ∧
      e.byte &&& dwEhPeApplMask = e.appl.byte ∧
      (e.byte &&& dwEhPeIndirect ≠ 0 ↔ e.indirect = true) := by
  obtain ⟨format, appl, indirect⟩ := e
  cases format <;> cases appl <;> cases indirect <;> decide

/-- The format of the encoding that is left of a pointer encoding without its
application. -/
theorem PtrEnc.byte_formatMask (e : PtrEnc) :
    e.byte &&& dwEhPeFormatMask = PtrEnc.byte ⟨e.format, .absptr, false⟩ := by
  obtain ⟨-, -, hformat, -⟩ := e.byte_spec
  rw [hformat]
  cases e.format <;> rfl

/-- **Reading a raw value.** A negative signed LEB128 value is read right only when it
fills the word. -/
theorem readEncodedFormat_of_rawAt {format : PtrFormat} (h : RawAt m a format raw width)
    (hneg : format = .sleb128 → raw.toInt < 0 → width = 10) :
    readEncodedFormat m format.byte a = (.ok raw, past a width) := by
  cases h with
  | ptr => rfl
  | uleb128 h => exact dwarfReadUleb128_of_ulebAt h
  | udata2 => rfl
  | udata4 => rfl
  | udata8 => rfl
  | sleb128 h => exact dwarfReadUleb128_of_slebAt h (hneg rfl)
  | sdata2 => rfl
  | sdata4 => rfl
  | sdata8 => rfl

theorem applyEncoding_eq (appl : PtrAppl) (val : Word) :
    applyEncoding appl.byte val a pi = .ok (val + appl.base pi a) := by
  cases appl with
  | absptr => exact congrArg Res.ok (BitVec.add_zero val).symm
  | pcrel => rfl
  | datarel => rfl
  | funcrel => rfl

/-- **Reading an encoded pointer.** -/
theorem dwarfReadEncodedPointer_of_ptrAt {e : PtrEnc} (h : PtrAt m pi e a raw v width)
    (hneg : e.format = .sleb128 → raw.toInt < 0 → width = 10) :
    dwarfReadEncodedPointer m e.byte pi a = (.ok v, past a width) := by
  obtain ⟨hraw, rfl⟩ := h
  obtain ⟨homit, haligned, hformat, happl, hindirect⟩ := e.byte_spec
  unfold dwarfReadEncodedPointer
  rw [Act.get_bind, if_neg homit, if_neg haligned, hformat, happl,
    Act.bind_of_ok (readEncodedFormat_of_rawAt hraw hneg)]
  unfold ptrValue
  by_cases hzero : raw = 0
  · rw [if_pos hzero, if_pos hzero]
    rfl
  · rw [if_neg hzero, if_neg hzero, applyEncoding_eq, Act.lift_ok_bind]
    by_cases hind : e.indirect = true
    · rw [if_pos (hindirect.mpr hind), if_pos hind]
      rfl
    · rw [if_neg (fun h => hind (hindirect.mp h)), if_neg hind]
      rfl

end Ptr

end LibunwindKern
