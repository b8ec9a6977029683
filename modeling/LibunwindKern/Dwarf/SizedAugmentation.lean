import LibunwindKern.Dwarf.FdeSpec

/-!
# Skipping a sized augmentation

When the augmentation string of a CIE starts with `z`, the augmentation body has its size in front
of it, and the initial instructions start behind the body. `parse_cie` reads the size into a local
variable and does nothing with it: the instructions start where it has stopped reading operands.
It reads one operand for each character that it knows, stops at the first one that it does not
know, and never sees a fifth character.

* `operandsEnd` is where the operands of a string end. It looks at the bytes only.
* `sizedAugmentation` is the kept part of the string, the declared size, and where the body starts.
* `parseCie_instrStart` is the field that `parse_cie` sets, and `sized_augmentation_skipped_iff`
  says when it is the end of the body.
-/

namespace LibunwindKern

open CProg ByteMem

/-! ### The operands -/

/-- Where an encoded value ends. -/
def formatEnd (m : Mem) (format : Byte) (a : Word) : Word :=
  if format = dwEhPeUleb128 ∨ format = dwEhPeSleb128 then (dwarfReadUleb128 m a).2
  else if format = dwEhPeUdata2 ∨ format = dwEhPeSdata2 then a + 2
  else if format = dwEhPeUdata4 ∨ format = dwEhPeSdata4 then a + 4
  else a + 8

/-- Where an encoded pointer ends. -/
def encodedEnd (m : Mem) (encoding : Byte) (a : Word) : Word :=
  if encoding = dwEhPeOmit then a
  else if encoding = dwEhPeAligned then ((a + 7) &&& (-8#64)) + 8
  else formatEnd m (encoding &&& dwEhPeFormatMask) a

/-- Where the operands of an augmentation string end, up to the first character without a
meaning. -/
def operandsEnd (m : Mem) : List Byte → Word → Word
  | [], a => a
  | c :: cs, a =>
    if c = 0x4c ∨ c = 0x52 then operandsEnd m cs (a + 1) -- 'L' and 'R'
    else if c = 0x50 then operandsEnd m cs (encodedEnd m (m a) (a + 1)) -- 'P'
    else if c = 0x53 then operandsEnd m cs a -- 'S'
    else a

/-- The augmentation of a CIE whose string starts with `z`: the characters behind the `z` that
`parse_cie` keeps, the size of the body, and the address of the body. -/
def sizedAugmentation (m : Mem) (base : Word) : Reader (List Byte × Word) := do
  let _ ← parseCieHeader m base
  let version ← dwarfReadu8 m
  let augstr ← readAugstr m (2 ^ 64) []
  let _ ← dwarfReadUleb128 m
  let _ ← dwarfReadSleb128 m
  let _ ← readRetAddrColumn m version
  if augstr.head? = some 0x7a then do
    let augSize ← dwarfReadUleb128 m
    pure (augstr.tail, augSize)
  else
    Act.fail .einval

/-! ### Where `parse_cie` stops -/

section

variable {m : Mem} {pi : ProcInfo}

/-- A format that is read moves the address to the end of the value. -/
theorem readEncodedFormat_end {format : Byte} {a b val : Word}
    (h : readEncodedFormat m format a = (.ok val, b)) : b = formatEnd m format a := by
  have hend := readEncodedFormat_cases m
    (P := fun format x => ∀ val b, x a = (.ok val, b) → (x a).2 = formatEnd m format a)
    (fun _ _ _ => rfl) (fun _ _ _ => rfl) (fun _ _ _ => rfl) (fun _ _ _ => rfl) (fun _ _ _ => rfl)
    (fun _ _ _ => rfl) (fun _ _ _ => rfl) (fun _ _ _ => rfl) (fun _ _ _ => rfl)
    (fun _ _ _ hfail => by cases hfail) format val b h
  rwa [h] at hend

/-- What is done with the value does not move the address. -/
theorem dwarfReadEncodedPointer_end {encoding : Byte} {a b val : Word}
    (h : dwarfReadEncodedPointer m encoding pi a = (.ok val, b)) : b = encodedEnd m encoding a := by
  unfold dwarfReadEncodedPointer at h
  rw [Act.get_bind] at h
  unfold encodedEnd
  by_cases homit : encoding = dwEhPeOmit
  · rw [if_pos homit] at h ⊢
    exact (congrArg Prod.snd h).symm
  by_cases haligned : encoding = dwEhPeAligned
  · rw [if_neg homit, if_pos haligned, Act.modify_bind] at h
    rw [if_neg homit, if_pos haligned]
    exact (congrArg Prod.snd h).symm
  rw [if_neg homit, if_neg haligned] at h ⊢
  obtain ⟨raw, a', hformat, h⟩ := Act.bind_eq_ok h
  rw [← readEncodedFormat_end hformat]
  -- only the value is changed from here on
  by_cases hzero : raw = 0
  · rw [if_pos hzero] at h
    exact (congrArg Prod.snd h).symm
  rw [if_neg hzero] at h
  obtain ⟨val', a'', hlift, h⟩ := Act.bind_eq_ok h
  have hstay : a' = a'' := congrArg Prod.snd hlift
  rw [hstay]
  by_cases hindirect : encoding &&& dwEhPeIndirect ≠ 0
  · rw [if_pos hindirect] at h
    exact (congrArg Prod.snd h).symm
  · rw [if_neg hindirect] at h
    exact (congrArg Prod.snd h).symm

/-- **The loop over the characters** stops where the operands end. -/
theorem parseAugmentation_end {cs : List Byte} {dci dci' : CieInfo} {a b : Word}
    (h : parseAugmentation m pi cs dci a = (.ok dci', b)) : b = operandsEnd m cs a := by
  induction cs generalizing dci a with
  | nil =>
    cases h
    rfl
  | cons c cs ih =>
    unfold parseAugmentation at h
    unfold operandsEnd
    split_ifs at h with hL hR hP hS hsized
    · obtain ⟨ch, a', hread, h⟩ := Act.bind_eq_ok h
      cases hread
      rw [if_pos (Or.inl hL)]
      exact ih h
    · obtain ⟨ch, a', hread, h⟩ := Act.bind_eq_ok h
      cases hread
      rw [if_pos (Or.inr hR)]
      exact ih h
    · obtain ⟨ch, a', hread, h⟩ := Act.bind_eq_ok h
      cases hread
      obtain ⟨handler, a'', hpointer, h⟩ := Act.bind_eq_ok h
      rw [if_neg (not_or.2 ⟨hL, hR⟩), if_pos hP, ← dwarfReadEncodedPointer_end hpointer]
      exact ih h
    · rw [if_neg (not_or.2 ⟨hL, hR⟩), if_neg hP, if_pos hS]
      exact ih h
    · -- the first character that is not known
      rw [if_neg (not_or.2 ⟨hL, hR⟩), if_neg hP, if_neg hS]
      cases h
      rfl
    · cases h

/-- **The start of the instructions** of a CIE with a sized augmentation: the end of the operands
that were read. -/
theorem parseCie_instrStart {base a b body augSize : Word} {chars : List Byte} {dci : CieInfo}
    (haug : sizedAugmentation m base a = (.ok (chars, augSize), body))
    (h : parseCie m pi base a = (.ok dci, b)) : dci.cieInstrStart = operandsEnd m chars body := by
  obtain ⟨_, _, _, _, _, _, _, _, _, _, _, _, hreads, dci', hparse, rfl⟩ := parseCie_eq_ok h
  -- both calls have read the same fields
  unfold sizedAugmentation at haug
  rw [Act.bind_of_ok hreads.readHeader, Act.bind_of_ok hreads.readVersion,
    Act.bind_of_ok hreads.readString, Act.bind_of_ok hreads.readCodeAlign,
    Act.bind_of_ok hreads.readDataAlign, Act.bind_of_ok hreads.readColumn] at haug
  unfold parseSizedAugmentation at hparse
  split_ifs at haug hparse with hz
  · obtain ⟨size, a₈, hsize, haug⟩ := Act.bind_eq_ok haug
    cases haug
    rw [Act.bind_of_ok hsize] at hparse
    exact parseAugmentation_end hparse
  · cases haug

/-- **When a sized augmentation is skipped as a whole.** For every CIE whose augmentation string
starts with `z` and which `parse_cie` accepts: the instructions start behind the body if and only
if the operands of the characters that `parse_cie` knows and keeps fill the body. -/
theorem sized_augmentation_skipped_iff (m : Mem) (pi : ProcInfo) (base a b body augSize : Word)
    (chars : List Byte) (dci : CieInfo)
    (haug : sizedAugmentation m base a = (.ok (chars, augSize), body))
    (h : parseCie m pi base a = (.ok dci, b)) :
    dci.cieInstrStart = body + augSize ↔ operandsEnd m chars body = body + augSize := by
  rw [parseCie_instrStart haug h]

end

/-! ### One character -/

/-- A CIE at `0x2000` with `z` and one more character, and a body of one byte. -/
def oneCharMem (ch : Byte) : Mem := fun a =>
  ([0x0e, 0x00, 0x00, 0x00, 0x00, 0x00, 0x00, 0x00, 0x01, 0x7a, ch, 0x00,
    -- factors 1 and -8, column 16, the augmentation, a nop
    0x01, 0x78, 0x10, 0x01, 0x03, 0x00] : List Byte).getD (a - 0x2000).toNat 0

/-- What is decoded there. -/
def oneCharCie (start : Word) (fdeEncoding : Byte) : CieInfo :=
  { CieInfo.zero with
    cieInstrStart := start
    cieInstrEnd := 0x2012
    codeAlign := 1
    dataAlign := -8
    retAddrColumn := 16
    fdeEncoding := fdeEncoding
    lsdaEncoding := dwEhPeOmit
    sizedAugmentation := true }

/-- The operand of `R` fills the body. -/
theorem sized_augmentation_zR :
    parseCie (oneCharMem 0x52) ProcInfo.zero 0 0x2000 = (.ok (oneCharCie 0x2011 3), 0x2011) ∧
      (oneCharCie 0x2011 3).cieInstrStart = 0x2010 + 1 := by
  have haug : sizedAugmentation (oneCharMem 0x52) 0 0x2000 = (.ok ([0x52], 1), 0x2010) := by
    decide +kernel
  have hrun : parseCie (oneCharMem 0x52) ProcInfo.zero 0 0x2000 =
      (.ok (oneCharCie 0x2011 3), 0x2011) := by
    decide +kernel
  refine ⟨hrun, (sized_augmentation_skipped_iff _ _ _ _ _ _ _ _ _ haug hrun).2 ?_⟩
  show (0x2010 : Word) + 1 = 0x2010 + 1
  rfl

/-- An unknown character ends the parsing, and its operand is taken for the first instruction. -/
theorem sized_augmentation_zX :
    sizedAugmentation (oneCharMem 0x58) 0 0x2000 = (.ok ([0x58], 1), 0x2010) ∧
      parseCie (oneCharMem 0x58) ProcInfo.zero 0 0x2000 =
        (.ok (oneCharCie 0x2010 dwEhPeUdata8), 0x2010) ∧
      (oneCharCie 0x2010 dwEhPeUdata8).cieInstrStart ≠ 0x2010 + 1 :=
  ⟨by decide +kernel, by decide +kernel, by decide⟩

end LibunwindKern
