import LibunwindKern.Dwarf.Encoding
import LibunwindKern.Dwarf.FdeSpec
import Mathlib.Data.Fintype.Card

/-!
# Decoding what was encoded

`CieAt` and `FdeAt` say that the bytes of a CIE and of an FDE stand in memory, in the layout
that `dwarf-eh.h` describes: version 1 or 3, an empty augmentation string or `z` followed by
characters out of `P`, `L`, `R` and `S`, and the operands in the order of the characters.

The main result `extractFde_recovers_iff` says exactly when the decoder recovers what was
encoded. `parse_cie` keeps the first four characters of the augmentation string, and reads
the operands of these. The instructions of the CIE start where the last operand ends, and
not where the size of the augmentation says they do, so an operand that is not read is
taken for an instruction.
-/

namespace LibunwindKern

open CProg ByteMem

/-! ### The layout of a CIE -/

/-- The characters that follow `z` in an augmentation string. -/
inductive AugChar where
  /-- `P`: the personality routine. -/
  | personality
  /-- `L`: the encoding of the LSDA pointer. -/
  | lsda
  /-- `R`: the encoding of the code pointers. -/
  | code
  /-- `S`: the frame is a signal frame. -/
  | signal
  deriving DecidableEq, Repr

instance : Fintype AugChar := ⟨{.personality, .lsda, .code, .signal}, by intro c; cases c <;> decide⟩

def AugChar.byte : AugChar → Byte
  | .personality => 0x50
  | .lsda => 0x4c
  | .code => 0x52
  | .signal => 0x53

inductive CieVersion where
  | one
  | three
  deriving DecidableEq, Repr

def CieVersion.byte : CieVersion → Byte
  | .one => 1
  | .three => 3

/-- What is encoded in a CIE. `order` is the augmentation string after its `z`, and `none`
for an empty string. A field that no character stands for is not encoded. -/
structure CieSpec where
  version : CieVersion
  order : Option (List AugChar)
  codeAlign : Word
  dataAlign : Word
  retAddrColumn : Word
  handlerEnc : PtrEnc
  handler : Word
  lsdaEnc : PtrEnc
  codeEnc : PtrEnc
  deriving DecidableEq, Repr

/-- The augmentation string. -/
def CieSpec.augstr (c : CieSpec) : List Byte :=
  match c.order with
  | none => []
  | some order => 0x7a :: order.map AugChar.byte

def CieSpec.chars (c : CieSpec) : List AugChar := c.order.getD []

/-- A pointer encoding that does not depend on the function, and is not a signed LEB128
number. -/
def PtrEnc.Plain (e : PtrEnc) : Prop := e.format ≠ .sleb128 ∧ e.appl ≠ .funcrel

instance (e : PtrEnc) : Decidable e.Plain := inferInstanceAs (Decidable (_ ∧ _))

/-- The characters are distinct, and the pointer encodings plain. -/
structure CieSpec.WellFormed (c : CieSpec) : Prop where
  nodup : c.chars.Nodup
  handlerEnc : c.handlerEnc.Plain
  lsdaEnc : c.lsdaEnc.Plain
  codeEnc : c.codeEnc.Plain

/-- The encoding of the code pointers: eight bytes, unless the string has an `R`. -/
def CieSpec.codeEncOf (c : CieSpec) (done : List AugChar) : PtrEnc :=
  if .code ∈ done then c.codeEnc else ⟨.udata8, .absptr, false⟩

/-- The return-address column, from `a` to `b`. -/
def ColumnAt (m : Mem) (version : CieVersion) (a column b : Word) : Prop :=
  match version with
  | .one => column = (m a).setWidth 64 ∧ b = a + 1
  | .three => ∃ width, UlebAt m a column width ∧ b = past a width

/-- The operands of augmentation characters, from `a` to `b`. -/
inductive AugAt (m : Mem) (pi : ProcInfo) (c : CieSpec) : Word → List AugChar → Word → Prop
  | nil (a : Word) : AugAt m pi c a [] a
  | personality {a b raw : Word} {width : ℕ} {cs : List AugChar} (henc : m a = c.handlerEnc.byte)
      (hptr : PtrAt m pi c.handlerEnc (a + 1) raw c.handler width)
      (hrest : AugAt m pi c (past (a + 1) width) cs b) : AugAt m pi c a (.personality :: cs) b
  | lsda {a b : Word} {cs : List AugChar} (henc : m a = c.lsdaEnc.byte)
      (hrest : AugAt m pi c (a + 1) cs b) : AugAt m pi c a (.lsda :: cs) b
  | code {a b : Word} {cs : List AugChar} (henc : m a = c.codeEnc.byte)
      (hrest : AugAt m pi c (a + 1) cs b) : AugAt m pi c a (.code :: cs) b
  | signal {a b : Word} {cs : List AugChar} (hrest : AugAt m pi c a cs b) :
      AugAt m pi c a (.signal :: cs) b

/-- The augmentation of a CIE at `a`, and the address of its instructions. -/
def AugmentationAt (m : Mem) (pi : ProcInfo) (c : CieSpec) (a instr : Word) : Prop :=
  match c.order with
  | none => instr = a
  | some order => ∃ size width, UlebAt m a size width ∧ instr = past a width + size ∧
      AugAt m pi c (past a width) order instr

/-- A CIE from `a` to `b`, with the address of its instructions. -/
inductive CieAt (m : Mem) (pi : ProcInfo) (c : CieSpec) (a b instr : Word) : Prop
  | mk {cieIdAddr body codeAddr colAddr augAddr : Word} {w₁ w₂ : ℕ}
      (hrec : RecordAt m a b cieIdAddr 0 body)
      (hversion : m body = c.version.byte)
      (hstring : BytesAt m (body + 1) (c.augstr ++ [0]))
      (hcodeAddr : codeAddr = past (body + 1) (c.augstr.length + 1))
      (hcode : UlebAt m codeAddr c.codeAlign w₁)
      (hdata : SlebAt m (past codeAddr w₁) c.dataAlign w₂)
      (hcolAddr : colAddr = past (past codeAddr w₁) w₂)
      (hcol : ColumnAt m c.version colAddr c.retAddrColumn augAddr)
      (haug : AugmentationAt m pi c augAddr instr) : CieAt m pi c a b instr

/-! ### The layout of an FDE -/

/-- What is encoded in an FDE. -/
structure FdeFields where
  startIp : Word
  ipRange : Word
  lsda : Word
  deriving DecidableEq, Repr

/-- The augmentation of an FDE at `a`, and the address of its instructions. -/
def FdeAugmentationAt (m : Mem) (pi : ProcInfo) (c : CieSpec) (f : FdeFields) (a instr : Word) :
    Prop :=
  match c.order with
  | none => instr = a ∧ f.lsda = 0
  | some order => ∃ size width, UlebAt m a size width ∧ instr = past a width + size ∧
      if .lsda ∈ order then ∃ raw w, PtrAt m pi c.lsdaEnc (past a width) raw f.lsda w
      else f.lsda = 0

/-- An FDE from `a` to `b` for the CIE at `cieAddr`, with the address of its
instructions. -/
inductive FdeAt (m : Mem) (pi : ProcInfo) (c : CieSpec) (f : FdeFields) (a b cieAddr instr : Word) :
    Prop
  | mk {cieOffsetAddr cieOffset body raw₁ raw₂ : Word} {w₁ w₂ : ℕ}
      (hrec : RecordAt m a b cieOffsetAddr cieOffset body)
      (hid : cieOffset ≠ 0)
      (hcie : cieAddr = cieOffsetAddr - cieOffset)
      (hstart : PtrAt m pi (c.codeEncOf c.chars) body raw₁ f.startIp w₁)
      (hrange : PtrAt m pi ⟨(c.codeEncOf c.chars).format, .absptr, false⟩ (past body w₁) raw₂
        f.ipRange w₂)
      (haug : FdeAugmentationAt m pi c f (past (past body w₁) w₂) instr) :
      FdeAt m pi c f a b cieAddr instr

/-! ### Reading the CIE -/

section Cie

variable {m : Mem} {pi : ProcInfo} {c : CieSpec} {a b : Word} {cs : List AugChar}

/-- The CIE data after the operands of some characters were read. -/
def cieData (c : CieSpec) (cieEnd : Word) (done : List AugChar) : CieInfo :=
  { CieInfo.zero with
    cieInstrEnd := cieEnd
    codeAlign := c.codeAlign
    dataAlign := c.dataAlign
    retAddrColumn := c.retAddrColumn
    handler := if .personality ∈ done then c.handler else 0
    fdeEncoding := (c.codeEncOf done).byte
    lsdaEncoding := if .lsda ∈ done then c.lsdaEnc.byte else dwEhPeOmit
    sizedAugmentation := c.order.isSome
    haveAbiMarker := decide (.signal ∈ done)
    signalFrame := decide (.signal ∈ done) }

/-- **The loop over the augmentation string.** The invariant is that the data of the
characters so far are those of `cieData`. -/
theorem parseAugmentation_of_augAt (hplain : c.handlerEnc.Plain) (cieEnd : Word)
    (h : AugAt m pi c a cs b) :
    ∀ done, parseAugmentation m pi (cs.map AugChar.byte) (cieData c cieEnd done) a =
      (.ok (cieData c cieEnd (done ++ cs)), b) := by
  -- one character, and the data of the CIE with this character done
  induction h with
  | nil a => intro done; rw [List.append_nil]; rfl
  | @personality a b raw width cs henc hptr hrest ih =>
    intro done
    have hread := dwarfReadEncodedPointer_of_ptrAt hptr fun hsleb => absurd hsleb hplain.1
    change (dwarfReadEncodedPointer m (m a) pi >>= fun val =>
      parseAugmentation m pi (cs.map AugChar.byte) { cieData c cieEnd done with handler := val })
        (a + 1) = _
    rw [henc, Act.bind_of_ok hread]
    have hdata : { cieData c cieEnd done with handler := c.handler } =
        cieData c cieEnd (done ++ [.personality]) := by
      simp [cieData, CieSpec.codeEncOf]
    rw [hdata, ih, List.append_assoc]
    rfl
  | @lsda a b cs henc hrest ih =>
    intro done
    have hdata : { cieData c cieEnd done with lsdaEncoding := m a } =
        cieData c cieEnd (done ++ [.lsda]) := by
      simp [cieData, CieSpec.codeEncOf, henc]
    change parseAugmentation m pi (cs.map AugChar.byte)
      { cieData c cieEnd done with lsdaEncoding := m a } (a + 1) = _
    rw [hdata, ih, List.append_assoc]
    rfl
  | @code a b cs henc hrest ih =>
    intro done
    have hdata : { cieData c cieEnd done with fdeEncoding := m a } =
        cieData c cieEnd (done ++ [.code]) := by
      simp [cieData, CieSpec.codeEncOf, henc]
    change parseAugmentation m pi (cs.map AugChar.byte)
      { cieData c cieEnd done with fdeEncoding := m a } (a + 1) = _
    rw [hdata, ih, List.append_assoc]
    rfl
  | @signal a b cs hrest ih =>
    intro done
    have hdata : { cieData c cieEnd done with signalFrame := true, haveAbiMarker := true } =
        cieData c cieEnd (done ++ [.signal]) := by
      simp [cieData, CieSpec.codeEncOf]
    change parseAugmentation m pi (cs.map AugChar.byte)
      { cieData c cieEnd done with signalFrame := true, haveAbiMarker := true } a = _
    rw [hdata, ih, List.append_assoc]
    rfl

/-- The operands of a string are the operands of its parts. -/
theorem AugAt.split {xs ys : List AugChar} (h : AugAt m pi c a (xs ++ ys) b) :
    ∃ mid, AugAt m pi c a xs mid ∧ AugAt m pi c mid ys b := by
  induction xs generalizing a with
  | nil => exact ⟨a, .nil a, h⟩
  | cons x xs ih =>
    cases h with
    | personality henc hptr hrest =>
      obtain ⟨mid, hxs, hys⟩ := ih hrest
      exact ⟨mid, .personality henc hptr hxs, hys⟩
    | lsda henc hrest =>
      obtain ⟨mid, hxs, hys⟩ := ih hrest
      exact ⟨mid, .lsda henc hxs, hys⟩
    | code henc hrest =>
      obtain ⟨mid, hxs, hys⟩ := ih hrest
      exact ⟨mid, .code henc hxs, hys⟩
    | signal hrest =>
      obtain ⟨mid, hxs, hys⟩ := ih hrest
      exact ⟨mid, .signal hxs, hys⟩

/-- **Reading the augmentation string** up to its terminator keeps four characters. -/
theorem readAugstr_of_bytes :
    ∀ (cs acc : List Byte) (fuel : ℕ) (a : Word), cs.length < fuel → acc.length ≤ 4 →
      (∀ ch ∈ cs, ch ≠ 0) → BytesAt m a (cs ++ [0]) →
      readAugstr m fuel acc a = (.ok ((acc ++ cs).take 4), past a (cs.length + 1)) := by
  intro cs
  induction cs with
  | nil =>
    intro acc fuel a hfuel hacc _ hbytes
    obtain ⟨fuel, rfl⟩ := Nat.exists_eq_succ_of_ne_zero (Nat.ne_of_gt hfuel)
    have h0 : m a = 0 := hbytes.1
    change (if m a = 0 then pure acc else _ : Reader (List Byte)) (a + 1) = _
    rw [h0, if_pos rfl, List.append_nil, List.take_of_length_le hacc]
    rfl
  | cons ch cs ih =>
    intro acc fuel a hfuel hacc hne hbytes
    obtain ⟨fuel, rfl⟩ := Nat.exists_eq_succ_of_ne_zero (Nat.ne_of_gt (Nat.zero_lt_of_lt hfuel))
    have hch : m a = ch := hbytes.1
    change (if m a = 0 then pure acc
      else readAugstr m fuel (if acc.length < 4 then acc ++ [m a] else acc) : Reader (List Byte))
        (a + 1) = _
    rw [hch, if_neg (hne ch List.mem_cons_self), ih _ fuel (a + 1) (Nat.lt_of_succ_lt_succ hfuel)]
    · have htake : ((if acc.length < 4 then acc ++ [ch] else acc) ++ cs).take 4 =
          (acc ++ ch :: cs).take 4 := by
        by_cases hlt : acc.length < 4
        · rw [if_pos hlt, List.append_assoc]
          rfl
        · -- the buffer is full
          have hfull : 4 ≤ acc.length := Nat.le_of_not_lt hlt
          rw [if_neg hlt, List.take_append_of_le_length hfull, List.take_append_of_le_length hfull]
      rw [htake, past_succ]
      rfl
    · by_cases hlt : acc.length < 4
      · rw [if_pos hlt, List.length_append, List.length_singleton]
        exact hlt
      · rw [if_neg hlt]
        exact hacc
    · exact fun x hx => hne x (List.mem_cons_of_mem _ hx)
    · exact hbytes.2

theorem parseCieHeader_of_record {cieIdAddr cieId body : Word}
    (h : RecordAt m a b cieIdAddr cieId body) (hid : cieId = 0) :
    parseCieHeader m 0 a = (.ok b, body) := by
  unfold parseCieHeader
  rw [Act.bind_of_ok (show dwarfReadu32 m a = (.ok (load32 m a), a + 4) from rfl)]
  cases h with
  | dwarf32 hesc hlen hend =>
    have hzero : load32 m (a + 4) = 0 := by
      have hint := congrArg BitVec.toInt hid
      rw [BitVec.toInt_signExtend_of_le (by decide)] at hint
      exact BitVec.eq_of_toInt_eq hint
    rw [if_pos hesc, Act.get_bind, Act.bind_of_ok
      (show dwarfReadu32 m (a + 4) = (.ok (load32 m (a + 4)), a + 4 + 4) from rfl)]
    rw [hzero, if_neg (by decide), end_of_length32 hend]
    rfl
  | dwarf64 hesc hlen hend =>
    rw [if_neg (not_not.mpr hesc), Act.bind_of_ok
      (show dwarfReadu64 m (a + 4) = (.ok (load64 m (a + 4)), a + 4 + 8) from rfl)]
    rw [Act.get_bind, Act.bind_of_ok
      (show dwarfReadu64 m (a + 4 + 8) = (.ok (load64 m (a + 4 + 8)), a + 4 + 8 + 8) from rfl)]
    rw [hid, if_neg (by decide), end_of_length64 hend]
    rfl

theorem readRetAddrColumn_of_columnAt {version : CieVersion} {col : Word}
    (h : ColumnAt m version a col b) : readRetAddrColumn m version.byte a = (.ok col, b) := by
  cases version with
  | one =>
    obtain ⟨rfl, rfl⟩ := h
    rfl
  | three =>
    obtain ⟨width, hcol, rfl⟩ := h
    exact dwarfReadUleb128_of_ulebAt hcol

theorem CieSpec.augstr_ne_zero (c : CieSpec) : ∀ ch ∈ c.augstr, ch ≠ 0 := by
  intro ch hch
  unfold CieSpec.augstr at hch
  cases horder : c.order with
  | none => rw [horder] at hch; cases hch
  | some order =>
    rw [horder] at hch
    obtain rfl | hmem := List.mem_cons.mp hch
    · decide
    · obtain ⟨x, -, rfl⟩ := List.mem_map.mp hmem
      cases x <;> decide

/-- There are four characters, and an augmentation string has each of them once at most. -/
theorem CieSpec.WellFormed.chars_length_le (h : c.WellFormed) : c.chars.length ≤ 4 :=
  h.nodup.length_le_card

theorem CieSpec.augstr_length_le (c : CieSpec) : c.augstr.length ≤ c.chars.length + 1 := by
  unfold CieSpec.augstr CieSpec.chars
  cases c.order with
  | none => exact Nat.zero_le _
  | some order => simp

theorem CieSpec.chars_length_le_of_augstr (c : CieSpec) (h : c.augstr.length ≤ 4) :
    c.chars.length ≤ 3 := by
  unfold CieSpec.augstr at h
  unfold CieSpec.chars
  cases horder : c.order with
  | none => exact Nat.zero_le _
  | some order =>
    rw [horder, List.length_cons, List.length_map] at h
    exact Nat.le_of_succ_le_succ h

/-- The augmentation of a CIE: the operands of three characters after the `z` are read. -/
theorem parseSizedAugmentation_of_augmentationAt (hwf : c.WellFormed) (cieEnd : Word)
    {instr : Word} (h : AugmentationAt m pi c a instr) :
    ∃ stop, AugAt m pi c stop (c.chars.drop 3) instr ∧
      parseSizedAugmentation m pi (c.augstr.take 4)
          { cieData c cieEnd [] with sizedAugmentation := false } a =
        (.ok (cieData c cieEnd (c.chars.take 3)), stop) := by
  unfold AugmentationAt at h
  cases horder : c.order with
  | none =>
    rw [horder] at h
    subst h
    have hchars : c.chars = [] := by unfold CieSpec.chars; rw [horder]; rfl
    have hstr : c.augstr = [] := by unfold CieSpec.augstr; rw [horder]
    refine ⟨instr, by rw [hchars]; exact .nil instr, ?_⟩
    rw [hchars, hstr]
    have hdata : { cieData c cieEnd [] with sizedAugmentation := false } = cieData c cieEnd [] := by
      simp [cieData, horder]
    rw [hdata]
    rfl
  | some order =>
    rw [horder] at h
    obtain ⟨size, width, hsize, -, haug⟩ := h
    have hchars : c.chars = order := by unfold CieSpec.chars; rw [horder]; rfl
    have hstr : c.augstr = 0x7a :: order.map AugChar.byte := by
      unfold CieSpec.augstr; rw [horder]
    rw [hchars, hstr]
    rw [← List.take_append_drop 3 order] at haug
    -- the buffer for the string has room for the `z` and three characters
    obtain ⟨stop, hkept, hrest⟩ := haug.split
    refine ⟨stop, hrest, ?_⟩
    have hdata : { cieData c cieEnd [] with sizedAugmentation := true } = cieData c cieEnd [] := by
      simp [cieData, horder]
    rw [List.take_succ_cons, ← List.map_take]
    change (dwarfReadUleb128 m >>= fun _ => parseAugmentation m pi
      ((order.take 3).map AugChar.byte) { cieData c cieEnd [] with sizedAugmentation := true }) a = _
    rw [Act.bind_of_ok (dwarfReadUleb128_of_ulebAt hsize), hdata]
    exact parseAugmentation_of_augAt hwf.handlerEnc cieEnd hkept []

/-- **Reading a CIE.** The data are those of the characters that were kept, and the
instructions are taken to start after their operands. -/
theorem parseCie_of_cieAt (hwf : c.WellFormed) {instr : Word} (h : CieAt m pi c a b instr) :
    ∃ stop, AugAt m pi c stop (c.chars.drop 3) instr ∧
      parseCie m pi 0 a =
        (.ok { cieData c b (c.chars.take 3) with cieInstrStart := stop }, stop) := by
  obtain @⟨cieIdAddr, body, codeAddr, colAddr, augAddr, w₁, w₂, hrec, hversion, hstring, hcodeAddr,
    hcode, hdata, hcolAddr, hcol, haug⟩ := h
  obtain ⟨stop, hrest, hparse⟩ := parseSizedAugmentation_of_augmentationAt hwf b haug
  refine ⟨stop, hrest, ?_⟩
  have hver : ¬(c.version.byte ≠ 1 ∧ c.version.byte ≠ 3) := by
    cases c.version <;> decide
  have hlen : c.augstr.length < 2 ^ 64 := by
    have h₁ := c.augstr_length_le
    have h₂ := hwf.chars_length_le
    omega
  have hstr := readAugstr_of_bytes c.augstr [] (2 ^ 64) (body + 1) hlen (Nat.zero_le _)
    c.augstr_ne_zero hstring
  rw [List.nil_append, ← hcodeAddr] at hstr
  -- the fields are read in the order of the record
  unfold parseCie
  rw [Act.bind_of_ok (parseCieHeader_of_record hrec rfl)]
  rw [Act.bind_of_ok (show dwarfReadu8 m body = (.ok c.version.byte, body + 1) by
    unfold dwarfReadu8; rw [hversion])]
  rw [if_neg hver, Act.bind_of_ok hstr, Act.bind_of_ok (dwarfReadUleb128_of_ulebAt hcode),
    Act.bind_of_ok (dwarfReadSleb128_of_slebAt hdata), ← hcolAddr,
    Act.bind_of_ok (readRetAddrColumn_of_columnAt hcol)]
  have hinit : { cieData c b [] with sizedAugmentation := false } =
      { CieInfo.zero with
        cieInstrEnd := b
        codeAlign := c.codeAlign
        dataAlign := c.dataAlign
        retAddrColumn := c.retAddrColumn
        fdeEncoding := dwEhPeUdata8
        lsdaEncoding := dwEhPeOmit } := by
    simp only [cieData, CieSpec.codeEncOf, List.not_mem_nil, if_false]
    rfl
  rw [hinit] at hparse
  exact Act.bind_of_ok hparse

end Cie

/-! ### Reading the FDE -/

/-- What the decoder is to recover from an FDE and its CIE. -/
structure Recovered (c : CieSpec) (f : FdeFields) (fdeEnd fdeInstr cieEnd cieInstr : Word)
    (t : FdeState) (dci : CieInfo) : Prop where
  addrp : t.addrp = fdeEnd
  startIp : t.pi.startIp = f.startIp
  endIp : t.pi.endIp = f.startIp + f.ipRange
  lsda : t.pi.lsda = f.lsda
  handler : t.pi.handler = if .personality ∈ c.chars then c.handler else 0
  codeAlign : dci.codeAlign = c.codeAlign
  dataAlign : dci.dataAlign = c.dataAlign
  retAddrColumn : dci.retAddrColumn = c.retAddrColumn
  fdeEncoding : dci.fdeEncoding = (c.codeEncOf c.chars).byte
  signalFrame : dci.signalFrame = decide (.signal ∈ c.chars)
  cieInstrStart : dci.cieInstrStart = cieInstr
  cieInstrEnd : dci.cieInstrEnd = cieEnd
  fdeInstrStart : dci.fdeInstrStart = fdeInstr
  fdeInstrEnd : dci.fdeInstrEnd = fdeEnd

section Fde

variable {m : Mem} {c : CieSpec} {f : FdeFields} {s t : FdeState}
variable {b cieAddr cieEnd cieInstr fdeInstr : Word}

/-- The unwind info of an FDE. The ABI marker that an `S` announces is read past the LSDA
pointer. Where the augmentation has a size, that does not move the instructions. -/
theorem fdeUnwindInfo_run (dci : CieInfo) (fdeEnd augEnd : Word) (s : FdeState) :
    ∃ abi tag addr, fdeUnwindInfo m dci fdeEnd augEnd s =
        (.ok (), ⟨addr, s.addrp,
          { s.pi with
            format := .table
            unwindInfoSize := sizeofCieInfo
            unwindInfo := .cie { dci with
              abi := abi
              tag := tag
              fdeInstrStart := if dci.sizedAugmentation then augEnd else addr
              fdeInstrEnd := fdeEnd } }, s.pool.alloc⟩) ∧
      (dci.haveAbiMarker = false → addr = s.addr) := by
  unfold fdeUnwindInfo fdeAbiMarker
  by_cases hmarker : dci.haveAbiMarker = true
  · refine ⟨load16 m s.addr, load16 m (s.addr + 2), s.addr + 2 + 2, ?_, fun hno => ?_⟩
    · rw [if_pos hmarker]
      rfl
    · rw [hno] at hmarker
      cases hmarker
  · refine ⟨dci.abi, dci.tag, s.addr, ?_, fun _ => rfl⟩
    rw [if_neg hmarker]
    rfl

/-- The unwind info of an FDE that was decoded keeps the data of its CIE. -/
theorem fdeBody_unwindInfo {fdeEnd : Word} (h : fdeBody m true 0 fdeEnd cieAddr s = (.ok (), t)) :
    ∃ dci dci', (parseCie m s.pi 0 cieAddr).1 = .ok dci ∧ t.pi.unwindInfo = .cie dci' ∧
      dci'.signalFrame = dci.signalFrame ∧ dci'.cieInstrStart = dci.cieInstrStart := by
  unfold fdeBody at h
  rw [Act.get_bind] at h
  obtain ⟨dci, s₁, hcie, h⟩ := Act.bind_eq_ok h
  obtain ⟨⟨⟩, s₂, -, h⟩ := Act.bind_eq_ok h
  obtain ⟨augEnd, s₃, -, h⟩ := Act.bind_eq_ok h
  obtain ⟨⟨⟩, s₄, -, h⟩ := Act.bind_eq_ok h
  rw [if_pos rfl] at h
  obtain ⟨abi, tag, addr, hrun, -⟩ := fdeUnwindInfo_run (m := m) dci fdeEnd augEnd s₄
  rw [hrun] at h
  obtain ⟨-, rfl⟩ := Prod.mk.inj h
  exact ⟨dci, _, (Prod.mk.inj hcie).1, rfl, rfl, rfl⟩

/-- A pointer whose encoding is plain is the same for every procedure info with the same
`gp`. -/
theorem PtrAt.congr {pi pi' : ProcInfo} {e : PtrEnc} {a raw v : Word} {width : ℕ}
    (hgp : pi.gp = pi'.gp) (hplain : e.Plain) (h : PtrAt m pi e a raw v width) :
    PtrAt m pi' e a raw v width := by
  obtain ⟨hraw, rfl⟩ := h
  refine ⟨hraw, ?_⟩
  have hbase : e.appl.base pi a = e.appl.base pi' a := by
    cases happl : e.appl with
    | absptr => rfl
    | pcrel => rfl
    | datarel => exact hgp
    | funcrel => exact absurd happl hplain.2
  unfold ptrValue
  rw [hbase]

theorem CieSpec.WellFormed.codeEncOf_plain (h : c.WellFormed) (done : List AugChar) :
    (c.codeEncOf done).Plain := by
  unfold CieSpec.codeEncOf
  split
  · exact h.codeEnc
  · decide

/-- The augmentation of an FDE: its end, and the LSDA pointer. -/
theorem fdeAugmentation_of_at (hwf : c.WellFormed) {pi : ProcInfo} {a : Word} (handler stop : Word)
    (h : FdeAugmentationAt m pi c f a fdeInstr) :
    ∃ augEnd a₃ a₄,
      (c.order.isSome = true → ∃ size, dwarfReadUleb128 m a = (.ok size, a₃) ∧ augEnd = a₃ + size) ∧
      (c.order.isSome = false → a₃ = a ∧ augEnd = 0) ∧
      dwarfReadEncodedPointer m (cieData c stop c.chars).lsdaEncoding
        (withRange pi f.startIp f.ipRange handler) a₃ = (.ok f.lsda, a₄) ∧
      fdeInstr = if c.order.isSome then augEnd else a₄ := by
  unfold FdeAugmentationAt at h
  obtain horder | ⟨order, horder⟩ := Option.eq_none_or_eq_some c.order
  · -- no `z`: the augmentation is empty, and there is no LSDA pointer
    rw [horder] at h
    obtain ⟨rfl, hlsda⟩ := h
    have hchars : c.chars = [] := by unfold CieSpec.chars; rw [horder]; rfl
    have hno : c.order.isSome = false := by rw [horder]; rfl
    refine ⟨0, fdeInstr, fdeInstr, ?_, fun _ => ⟨rfl, rfl⟩, ?_, ?_⟩
    · intro hsome
      rw [hno] at hsome
      cases hsome
    · rw [hlsda, hchars]
      rfl
    · rw [hno]
      rfl
  · -- the size says where the augmentation ends
    rw [horder] at h
    obtain ⟨size, width, hsize, rfl, hlsda⟩ := h
    have hchars : c.chars = order := by unfold CieSpec.chars; rw [horder]; rfl
    have hsome : c.order.isSome = true := by rw [horder]; rfl
    have hread : ∃ a₄, dwarfReadEncodedPointer m (cieData c stop c.chars).lsdaEncoding
        (withRange pi f.startIp f.ipRange handler) (past a width) = (.ok f.lsda, a₄) := by
      by_cases hL : .lsda ∈ order
      · have henc : (cieData c stop c.chars).lsdaEncoding = c.lsdaEnc.byte := by
          rw [hchars]
          exact if_pos hL
        rw [if_pos hL] at hlsda
        obtain ⟨raw, w, hptr⟩ := hlsda
        have hgp : pi.gp = (withRange pi f.startIp f.ipRange handler).gp := rfl
        have hptr' := PtrAt.congr hgp hwf.lsdaEnc hptr
        rw [henc]
        exact ⟨_, dwarfReadEncodedPointer_of_ptrAt hptr' fun hsleb => absurd hsleb hwf.lsdaEnc.1⟩
      · have henc : (cieData c stop c.chars).lsdaEncoding = dwEhPeOmit := by
          rw [hchars]
          exact if_neg hL
        rw [if_neg hL] at hlsda
        rw [henc, hlsda]
        exact ⟨past a width, rfl⟩
    obtain ⟨a₄, hread⟩ := hread
    refine ⟨past a width + size, past a width, a₄,
      fun _ => ⟨size, dwarfReadUleb128_of_ulebAt hsize, rfl⟩, ?_, hread, ?_⟩
    · intro hno
      rw [hsome] at hno
      cases hno
    · rw [if_pos hsome]

/-- The characters that are not kept leave a trace: either the signal flag is lost, or
the instructions of the CIE are taken to start too early. -/
theorem AugAt.lost {pi : ProcInfo} {stop : Word} (hwf : c.WellFormed) (hlong : 3 < c.chars.length)
    (h : AugAt m pi c stop (c.chars.drop 3) cieInstr) :
    (.signal ∈ c.chars ∧ .signal ∉ c.chars.take 3) ∨ stop ≠ cieInstr := by
  have hle := hwf.chars_length_le
  obtain ⟨x, hx⟩ : ∃ x, c.chars.drop 3 = [x] :=
    List.length_eq_one_iff.mp (by rw [List.length_drop]; omega)
  have hchars : c.chars = c.chars.take 3 ++ [x] := by rw [← hx, List.take_append_drop]
  rw [hx] at h
  have hne : ∀ (a : Word) (n : ℕ), 0 < n → n < 2 ^ 64 → a ≠ past a n := by
    intro a n hpos hlt heq
    have hnat := congrArg BitVec.toNat heq
    unfold past at hnat
    rw [BitVec.toNat_add, BitVec.toNat_ofNat] at hnat
    have := a.isLt
    omega
  -- the operand of the fourth character is not skipped, unless it has none
  cases h with
  | personality henc hptr hrest =>
    cases hrest
    refine Or.inr ?_
    rw [past_succ]
    refine hne stop _ (Nat.succ_pos _) ?_
    have hwidth := hptr.1.width_le
    omega
  | lsda henc hrest =>
    cases hrest
    exact Or.inr (hne stop 1 (by decide) (by decide))
  | code henc hrest =>
    cases hrest
    exact Or.inr (hne stop 1 (by decide) (by decide))
  | signal hrest =>
    refine Or.inl ⟨by rw [hchars]; simp, fun hmem => ?_⟩
    have hnodup := hwf.nodup
    rw [hchars] at hnodup
    exact (List.nodup_append.mp hnodup).2.2 _ hmem _ List.mem_cons_self rfl

/-- The round trip, for a CIE of which every character was kept. -/
theorem extractFde_recovers (hwf : c.WellFormed) {body raw₁ raw₂ : Word} {w₁ w₂ : ℕ}
    (hparse : parseCie m s.pi 0 cieAddr =
      (.ok { cieData c cieEnd c.chars with cieInstrStart := cieInstr }, cieInstr))
    (hstart : PtrAt m s.pi (c.codeEncOf c.chars) body raw₁ f.startIp w₁)
    (hrange : PtrAt m s.pi ⟨(c.codeEncOf c.chars).format, .absptr, false⟩ (past body w₁) raw₂
      f.ipRange w₂)
    (haug : FdeAugmentationAt m s.pi c f (past (past body w₁) w₂) fdeInstr) :
    ∃ t dci, fdeBody m true 0 b cieAddr { s with addr := body, addrp := b } = (.ok (), t) ∧
      t.pi.unwindInfo = .cie dci ∧ Recovered c f b fdeInstr cieEnd cieInstr t dci := by
  have hplain := hwf.codeEncOf_plain c.chars
  have hstart' := dwarfReadEncodedPointer_of_ptrAt hstart fun hsleb => absurd hsleb hplain.1
  have hrange' := dwarfReadEncodedPointer_of_ptrAt hrange fun hsleb => absurd hsleb hplain.1
  rw [← PtrEnc.byte_formatMask] at hrange'
  obtain ⟨augEnd, a₃, a₄, hsized, hunsized, hlsda, hinstr⟩ :=
    fdeAugmentation_of_at hwf (if .personality ∈ c.chars then c.handler else 0) cieEnd haug
  have hreads : FdeReads m s.pi { cieData c cieEnd c.chars with cieInstrStart := cieInstr } body
      f.startIp f.ipRange augEnd f.lsda (past body w₁) (past (past body w₁) w₂) a₃ a₄ :=
    ⟨hstart', hrange', hsized, hunsized, hlsda⟩
  have hbody := fdeBody_of_reads true b (s := { s with addr := body, addrp := b }) hparse hreads
  obtain ⟨abi, tag, addr, hinfo, haddr⟩ := fdeUnwindInfo_run (m := m)
    { cieData c cieEnd c.chars with cieInstrStart := cieInstr } b augEnd
    ⟨a₄, b, { withRange s.pi f.startIp f.ipRange (if .personality ∈ c.chars then c.handler else 0) with
      lsda := f.lsda }, s.pool⟩
  refine ⟨_, _, hbody.trans hinfo, rfl, rfl, rfl, rfl, rfl, rfl, rfl, rfl, rfl, rfl, rfl, rfl, rfl,
    ?_, rfl⟩
  rw [hinstr]
  obtain hsome | hnone := Bool.eq_false_or_eq_true c.order.isSome
  · exact (if_pos hsome).trans (if_pos hsome).symm
  · -- without a size there is no `S` either, and nothing is read after the LSDA pointer
    have hchars : c.chars = [] := by
      unfold CieSpec.chars
      rw [Option.isSome_eq_false_iff.mp hnone |> Option.isNone_iff_eq_none.mp]
      rfl
    have hmarker : decide (AugChar.signal ∈ c.chars) = false := by rw [hchars]; rfl
    have hneg : ¬c.order.isSome = true := Bool.eq_false_iff.mp hnone
    exact (if_neg hneg).trans ((haddr hmarker).trans (if_neg hneg).symm)

/-- **The round trip.** The decoder recovers what was encoded if and only if the
augmentation string has at most four characters. -/
theorem extractFde_recovers_iff (hwf : c.WellFormed) (hcie : CieAt m s.pi c cieAddr cieEnd cieInstr)
    (hfde : FdeAt m s.pi c f s.addrp b cieAddr fdeInstr) :
    (∃ t dci, dwarfExtractProcInfoFromFde m true 0 s = (.ok (), t) ∧
        t.pi.unwindInfo = .cie dci ∧ Recovered c f b fdeInstr cieEnd cieInstr t dci) ↔
      c.augstr.length ≤ 4 := by
  obtain @⟨cieOffsetAddr, cieOffset, body, raw₁, raw₂, w₁, w₂, hrec, hid, rfl, hstart, hrange,
    haug⟩ := hfde
  obtain ⟨stop, hrest, hparse⟩ := parseCie_of_cieAt hwf hcie
  rw [extractFde_of_fde true hrec hid rfl]
  constructor
  · rintro ⟨t, dci, hrun, hinfo, hrec⟩
    obtain ⟨dci₀, dci', hdci₀, hinfo', hsignal, hinstr⟩ := fdeBody_unwindInfo hrun
    rw [hparse] at hdci₀
    cases hdci₀
    rw [hinfo] at hinfo'
    cases hinfo'
    by_contra hlong
    have hlen := c.augstr_length_le
    obtain ⟨hmem, hlost⟩ | hstop := hrest.lost hwf (by omega)
    · rw [hrec.signalFrame] at hsignal
      exact hlost (of_decide_eq_true (hsignal.symm.trans (decide_eq_true hmem)))
    · rw [hrec.cieInstrStart] at hinstr
      exact hstop hinstr.symm
  · intro hshort
    -- every character was kept
    have hchars := c.chars_length_le_of_augstr hshort
    rw [List.drop_eq_nil_of_le hchars] at hrest
    cases hrest
    rw [List.take_of_length_le hchars] at hparse
    exact extractFde_recovers hwf hparse hstart hrange haug

/-- A CIE at `0x2000` with `z` and these characters as its augmentation string, followed by
the operands of `P`, `L` and `R`, and an FDE for `0x5000` to `0x5100`. -/
def augmentedMem (chars : List AugChar) : Mem := fun a =>
  ([0x13 + BitVec.ofNat 8 chars.length, 0x00, 0x00, 0x00, 0x00, 0x00, 0x00, 0x00, 0x01, 0x7a] ++
    chars.map AugChar.byte ++
    -- factors 1 and -8, column 16, the augmentation, a nop
    [0x00, 0x01, 0x78, 0x10, 0x07, 0x03, 0x00, 0x90, 0x00, 0x00, 0x03, 0x03, 0x00] ++
    -- the FDE: length, distance to the CIE, start, range, LSDA, a nop
    [0x12, 0x00, 0x00, 0x00, 0x1b + BitVec.ofNat 8 chars.length, 0x00, 0x00, 0x00,
      0x00, 0x50, 0x00, 0x00, 0x00, 0x01, 0x00, 0x00,
      0x04, 0x00, 0x60, 0x00, 0x00, 0x00] : List Byte).getD (a - 0x2000).toNat 0

/-- What is encoded there. -/
def augmentedCie (chars : List AugChar) : CieSpec :=
  ⟨.one, some chars, 1, -8, 16, ⟨.udata4, .absptr, false⟩, 0x9000, ⟨.udata4, .absptr, false⟩,
    ⟨.udata4, .absptr, false⟩⟩

def augmentedFde : FdeFields := ⟨0x5000, 0x100, 0x6000⟩

/-- The state in which the FDE of these characters is decoded. -/
def augmentedState (chars : List AugChar) : FdeState :=
  ⟨0, 0x2017 + BitVec.ofNat 64 chars.length, ProcInfo.zero, ⟨0, 0⟩⟩

theorem augmentedCie_wellFormed (chars : List AugChar) (h : chars.Nodup) :
    (augmentedCie chars).WellFormed :=
  ⟨h, ⟨nofun, nofun⟩, ⟨nofun, nofun⟩, ⟨nofun, nofun⟩⟩

theorem recordAt_of32 {m : Mem} {a b cieOffset : Word} (hesc : load32 m a ≠ 0xffffffff)
    (hlen : 4 ≤ (load32 m a).toNat) (hend : b.toNat = a.toNat + 4 + (load32 m a).toNat)
    (hid : (load32 m (a + 4)).signExtend 64 = cieOffset) :
    RecordAt m a b (a + 4) cieOffset (a + 4 + 4) := hid ▸ .dwarf32 hesc hlen hend

theorem ptrAt_udata4 {m : Mem} {a v : Word} (h : (load32 m a).setWidth 64 = v) (hv : v ≠ 0) :
    PtrAt m ProcInfo.zero ⟨.udata4, .absptr, false⟩ a v v 4 := by
  refine ⟨h ▸ .udata4, ?_⟩
  unfold ptrValue
  rw [if_neg hv, if_neg Bool.false_ne_true]
  exact (BitVec.add_zero v).symm

theorem ulebAt_byte {m : Mem} {a v : Word} (h : (m a).setWidth 64 = v) (hlt : v.toNat < 128) :
    UlebAt m a v 1 := by
  have hnat : v.toNat = (m a).toNat := by
    rw [← h, BitVec.toNat_setWidth]
    omega
  refine ⟨[m a], ⟨m a, ?_⟩, rfl, by decide, rfl, trivial⟩
  rw [hnat]
  exact .last (m a) (hnat ▸ hlt)

/-- The encoding of a string with four characters, and of one with five. -/
def augmentedCases (chars : List AugChar) : Prop :=
  chars = [.personality, .lsda, .code] ∨ chars = [.personality, .lsda, .code, .signal]

theorem augmented_cieAt {chars : List AugChar} (h : augmentedCases chars) :
    CieAt (augmentedMem chars) ProcInfo.zero (augmentedCie chars) 0x2000
      (0x2017 + BitVec.ofNat 64 chars.length) (0x2016 + BitVec.ofNat 64 chars.length) := by
  have hdata : ∀ {m : Mem} {a : Word}, m a = 0x78 → SlebAt m a (-8) 1 := fun hm =>
    ⟨[0x78], ⟨_, _, .last 0x78 (by decide), by decide⟩, rfl, by decide, hm, trivial⟩
  have haug : AugAt (augmentedMem chars) ProcInfo.zero (augmentedCie chars)
      (past (0x200e + BitVec.ofNat 64 chars.length) 1) chars
      (0x2016 + BitVec.ofNat 64 chars.length) := by
    obtain rfl | rfl := h
    · exact .personality (by decide +kernel) (ptrAt_udata4 (by decide +kernel) (by decide))
        (.lsda (by decide +kernel) (.code (by decide +kernel) (.nil _)))
    · exact .personality (by decide +kernel) (ptrAt_udata4 (by decide +kernel) (by decide))
        (.lsda (by decide +kernel) (.code (by decide +kernel) (.signal (.nil _))))
  refine @CieAt.mk _ _ _ _ _ _ 0x2004 0x2008 (0x200b + BitVec.ofNat 64 chars.length)
    (0x200d + BitVec.ofNat 64 chars.length) (0x200e + BitVec.ofNat 64 chars.length) 1 1
    (recordAt_of32 ?_ ?_ ?_ ?_) ?_ ?_ ?_ (ulebAt_byte ?_ ?_) (hdata ?_) ?_ ⟨?_, ?_⟩
    ⟨7, 1, ulebAt_byte ?_ ?_, ?_, haug⟩
  all_goals
    obtain rfl | rfl := h <;> decide +kernel

theorem augmented_fdeAt {chars : List AugChar} (h : augmentedCases chars) :
    FdeAt (augmentedMem chars) ProcInfo.zero (augmentedCie chars) augmentedFde
      (augmentedState chars).addrp (0x202d + BitVec.ofNat 64 chars.length) 0x2000
      (0x202c + BitVec.ofNat 64 chars.length) := by
  have henc : (augmentedCie chars).codeEncOf (augmentedCie chars).chars =
      ⟨.udata4, .absptr, false⟩ := by
    obtain rfl | rfl := h <;> rfl
  have hL : .lsda ∈ chars := by
    obtain rfl | rfl := h <;> decide
  have hrange : PtrAt (augmentedMem chars) ProcInfo.zero
      ⟨((augmentedCie chars).codeEncOf (augmentedCie chars).chars).format, .absptr, false⟩
      (past ((augmentedState chars).addrp + 4 + 4) 4) 0x100 augmentedFde.ipRange 4 := by
    rw [henc]
    refine ptrAt_udata4 ?_ (by decide)
    obtain rfl | rfl := h <;> decide +kernel
  have hlsda : ∃ raw w, PtrAt (augmentedMem chars) ProcInfo.zero (augmentedCie chars).lsdaEnc
      (past (past (past ((augmentedState chars).addrp + 4 + 4) 4) 4) 1) raw augmentedFde.lsda w := by
    refine ⟨0x6000, 4, ptrAt_udata4 ?_ (by decide)⟩
    obtain rfl | rfl := h <;> decide +kernel
  refine @FdeAt.mk _ _ _ _ _ _ _ _ _ (0x1b + BitVec.ofNat 64 chars.length) _ _ _ 4 4
    (recordAt_of32 ?_ ?_ ?_ ?_) ?_ ?_ (henc ▸ ptrAt_udata4 ?_ ?_) hrange
    ⟨4, 1, ulebAt_byte ?_ ?_, ?_, (if_pos hL).mpr hlsda⟩
  all_goals
    obtain rfl | rfl := h <;> decide +kernel

/-- A string of four characters: everything is recovered. -/
theorem extractFde_recovers_zPLR :
    ∃ t dci, dwarfExtractProcInfoFromFde (augmentedMem [.personality, .lsda, .code]) true 0
        (augmentedState [.personality, .lsda, .code]) = (.ok (), t) ∧
      t.pi.unwindInfo = .cie dci ∧
      Recovered (augmentedCie [.personality, .lsda, .code]) augmentedFde 0x2030 0x202f 0x201a 0x2019
        t dci :=
  (extractFde_recovers_iff (augmentedCie_wellFormed _ (by decide)) (augmented_cieAt (Or.inl rfl))
    (augmented_fdeAt (Or.inl rfl))).mpr (by decide)

/-- A string of five characters: the `S` is lost, and the frame is not a signal frame. -/
theorem extractFde_loses_zPLRS :
    (augmentedCie [.personality, .lsda, .code, .signal]).WellFormed ∧
      CieAt (augmentedMem [.personality, .lsda, .code, .signal]) ProcInfo.zero
        (augmentedCie [.personality, .lsda, .code, .signal]) 0x2000 0x201b 0x201a ∧
      FdeAt (augmentedMem [.personality, .lsda, .code, .signal]) ProcInfo.zero
        (augmentedCie [.personality, .lsda, .code, .signal]) augmentedFde
        (augmentedState [.personality, .lsda, .code, .signal]).addrp 0x2031 0x2000 0x2030 ∧
      ¬∃ t dci, dwarfExtractProcInfoFromFde (augmentedMem [.personality, .lsda, .code, .signal])
          true 0 (augmentedState [.personality, .lsda, .code, .signal]) = (.ok (), t) ∧
        t.pi.unwindInfo = .cie dci ∧
        Recovered (augmentedCie [.personality, .lsda, .code, .signal]) augmentedFde 0x2031 0x2030
          0x201b 0x201a t dci := by
  refine ⟨augmentedCie_wellFormed _ (by decide), augmented_cieAt (Or.inr rfl),
    augmented_fdeAt (Or.inr rfl), ?_⟩
  rintro ⟨t, dci, hrun, hinfo, hrec⟩
  have hlost : (match (dwarfExtractProcInfoFromFde
      (augmentedMem [.personality, .lsda, .code, .signal]) true 0
      (augmentedState [.personality, .lsda, .code, .signal])).2.pi.unwindInfo with
    | .cie dci => dci.signalFrame
    | _ => true) = false := by decide +kernel
  rw [hrun, hinfo] at hlost
  exact absurd (hlost.symm.trans hrec.signalFrame) (by decide)

end Fde

end LibunwindKern
