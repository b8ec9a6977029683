import LibunwindKern.Dwarf.TableLookup
import LibunwindKern.Dwarf.LinearSearch
import LibunwindKern.Dwarf.Ownership

/-!
# The search of a binary table

`dwarf_search_unwind_table` narrows the address to 32 bits, looks in a sorted table for the last
procedure that does not start behind it, decodes the FDE of that procedure, and then tests the
range. `linear_search` decodes every record of the section. This module compares the two.

* `unwLookup_boundary`: the lookup is a binary search for the boundary between the procedures that
  start at or before the address and those that start behind it.
* `searchTable_of_covers` and `searchTable_of_gap`: the FDE that covers the address is found, and
  for an address in a gap `-UNW_ENOINFO` is returned.
* `table_search_agrees`: the result is that of the linear search. The handler of a CIE is read
  before the start of the procedure is known, so this needs that no handler is relative to the
  function.
-/

namespace LibunwindKern

open CProg ByteMem BinarySearch

/-! ### Sections with the addresses of their FDEs -/

/-- The record at `b` is an FDE that decodes to `f`. -/
def DecodedAt (m : Mem) (gp b : Word) (f : FdeInfo) : Prop :=
  ∃ b' cieOffsetAddr cieOffset body, RecordAt m b b' cieOffsetAddr cieOffset body ∧
    cieOffset ≠ 0 ∧ f.cieAddr = cieOffsetAddr - cieOffset ∧ DecodesTo m gp b f

/-- A well-formed `.eh_frame` section from `a` to `e`, with the addresses of its FDEs. -/
inductive EhFrameAt (m : Mem) (gp : Word) : Word → Word → List (Word × FdeInfo) → Prop
  | nil (a : Word) : EhFrameAt m gp a a []
  | terminator {a e : Word} (hzero : load32 m a = 0) (hend : e.toNat = a.toNat + 4) :
      EhFrameAt m gp a e []
  | cie {a b e cieOffsetAddr body : Word} {fdes : List (Word × FdeInfo)}
      (hrec : RecordAt m a b cieOffsetAddr 0 body) (hrest : EhFrameAt m gp b e fdes) :
      EhFrameAt m gp a e fdes
  | fde {a b e cieOffsetAddr cieOffset body : Word} {f : FdeInfo} {fdes : List (Word × FdeInfo)}
      (hrec : RecordAt m a b cieOffsetAddr cieOffset body) (hid : cieOffset ≠ 0)
      (hcie : f.cieAddr = cieOffsetAddr - cieOffset) (hdec : DecodesTo m gp a f)
      (hrest : EhFrameAt m gp b e fdes) : EhFrameAt m gp a e ((a, f) :: fdes)

section Sections

variable {m : Mem} {gp a e : Word} {fdes : List (Word × FdeInfo)}

theorem EhFrameAt.ehFrame (h : EhFrameAt m gp a e fdes) :
    EhFrame m gp a e (fdes.map Prod.snd) := by
  induction h with
  | nil a => exact .nil a
  | terminator hzero hend => exact .terminator hzero hend
  | cie hrec _ ih => exact .cie hrec ih
  | fde hrec hid hcie hdec _ ih => exact .fde hrec hid hcie hdec ih

theorem EhFrameAt.decodedAt (h : EhFrameAt m gp a e fdes) :
    ∀ x ∈ fdes, DecodedAt m gp x.1 x.2 := by
  induction h with
  | nil a => nofun
  | terminator hzero hend => nofun
  | cie hrec _ ih => exact ih
  | fde hrec hid hcie hdec _ ih =>
    intro x hx
    obtain rfl | hx := List.mem_cons.1 hx
    · exact ⟨_, _, _, _, hrec, hid, hcie, hdec⟩
    · exact ih x hx

/-- An FDE has at least eight bytes. -/
theorem EhFrameAt.length_le (h : EhFrameAt m gp a e fdes) :
    a.toNat + 8 * fdes.length ≤ e.toNat := by
  induction h with
  | nil a => exact Nat.le_refl _
  | terminator hzero hend =>
    show _ + 0 ≤ _
    omega
  | cie hrec _ ih =>
    have := hrec.size_le
    omega
  | fde hrec hid hcie hdec _ ih =>
    have := hrec.size_le
    rw [List.length_cons]
    omega

end Sections

/-! ### The personality routine -/

/-- No personality pointer in the rest of an augmentation is relative to the function. -/
def AugNotFuncrel (m : Mem) (pi : ProcInfo) : List Byte → Word → Prop
  | [], _ => True
  | c :: cs, a =>
    if c = 0x4c then AugNotFuncrel m pi cs (a + 1)
    else if c = 0x52 then AugNotFuncrel m pi cs (a + 1)
    else if c = 0x50 then
      m a &&& dwEhPeApplMask ≠ dwEhPeFuncrel ∧
        ∀ handler b, dwarfReadEncodedPointer m (m a) pi (a + 1) = (.ok handler, b) →
          AugNotFuncrel m pi cs b
    else if c = 0x53 then AugNotFuncrel m pi cs a
    else True

/-- The augmentation of a CIE: the characters of its string that have data, and the address of the
data. -/
def cieAugmentation (m : Mem) : Reader (List Byte) := do
  let _ ← parseCieHeader m 0
  let version ← dwarfReadu8 m
  let augstr ← readAugstr m (2 ^ 64) []
  let _ ← dwarfReadUleb128 m
  let _ ← dwarfReadSleb128 m
  let _ ← readRetAddrColumn m version
  if augstr.head? = some 0x7a then do
    let _ ← dwarfReadUleb128 m
    pure augstr.tail
  else
    pure augstr

/-- The personality pointer of the CIE at `cieAddr` is not relative to the function. -/
def PersonalityNotFuncrel (m : Mem) (gp cieAddr : Word) : Prop :=
  ∀ cs b, cieAugmentation m cieAddr = (.ok cs, b) → AugNotFuncrel m (freshPi gp) cs b

section Personality

variable {m : Mem} {gp : Word} {pi : ProcInfo}

theorem parseAugmentation_fixed (hgp : pi.gp = gp) {cs : List Byte} :
    ∀ {dci : CieInfo} {a : Word}, AugNotFuncrel m (freshPi gp) cs a →
      parseAugmentation m pi cs dci a = parseAugmentation m (freshPi gp) cs dci a := by
  induction cs with
  | nil => exact fun _ => rfl
  | cons c cs ih =>
    intro dci a hfun
    unfold AugNotFuncrel at hfun
    unfold parseAugmentation
    by_cases hL : c = 0x4c
    · simp only [if_pos hL] at hfun ⊢
      exact Act.bind_congr_right fun ch b hread => by cases hread; exact ih hfun
    by_cases hR : c = 0x52
    · simp only [if_neg hL, if_pos hR] at hfun ⊢
      exact Act.bind_congr_right fun ch b hread => by cases hread; exact ih hfun
    by_cases hP : c = 0x50
    · simp only [if_neg hL, if_neg hR, if_pos hP] at hfun ⊢
      refine Act.bind_congr_right fun encoding b hread => ?_
      cases hread
      -- the pointer is the same for both
      have hptr : dwarfReadEncodedPointer m (m a) pi (a + 1) =
          dwarfReadEncodedPointer m (m a) (freshPi gp) (a + 1) :=
        dwarfReadEncodedPointer_congr _ _ hgp fun h => absurd h hfun.1
      rw [Act.bind_congr_left _ hptr]
      exact Act.bind_congr_right fun handler b hread => ih (hfun.2 handler b hread)
    by_cases hS : c = 0x53
    · simp only [if_neg hL, if_neg hR, if_neg hP, if_pos hS] at hfun ⊢
      exact ih hfun
    · simp only [if_neg hL, if_neg hR, if_neg hP, if_neg hS]

/-- **The handler** of such a CIE does not depend on what the procedure info holds. -/
theorem handlerFixed_of_personality {cieAddr : Word} (h : PersonalityNotFuncrel m gp cieAddr) :
    HandlerFixed m gp cieAddr := by
  intro pi hgp
  unfold PersonalityNotFuncrel cieAugmentation at h
  refine congrArg Prod.fst ?_
  unfold parseCie
  -- everything up to the augmentation is read without a look at the procedure info
  refine Act.bind_congr_right fun cieEnd a₁ hheader => ?_
  refine Act.bind_congr_right fun version a₂ hversion => ?_
  split
  · rfl
  refine Act.bind_congr_right fun augstr a₃ haugstr => ?_
  refine Act.bind_congr_right fun codeAlign a₄ hcode => ?_
  refine Act.bind_congr_right fun dataAlign a₅ hdata => ?_
  refine Act.bind_congr_right fun column a₆ hcolumn => ?_
  rw [Act.bind_of_ok hheader, Act.bind_of_ok hversion, Act.bind_of_ok haugstr,
    Act.bind_of_ok hcode, Act.bind_of_ok hdata, Act.bind_of_ok hcolumn] at h
  refine Act.bind_congr_left _ ?_
  unfold parseSizedAugmentation
  by_cases hz : augstr.head? = some 0x7a
  · simp only [if_pos hz] at h ⊢
    refine Act.bind_congr_right fun size a₇ hsize => ?_
    exact parseAugmentation_fixed hgp (h _ _ (by rw [Act.bind_of_ok hsize]; rfl))
  · simp only [if_neg hz] at h ⊢
    exact parseAugmentation_fixed hgp (h _ _ rfl)

end Personality

/-! ### The table -/

/-- The distance of an address from the base of the segment. -/
def distance (segbase a : Word) : ℤ := (a.toNat : ℤ) - segbase.toNat

/-- A number that fits in 32 bits, signed. -/
def Fits32 (d : ℤ) : Prop := -2 ^ 31 ≤ d ∧ d < 2 ^ 31

instance (d : ℤ) : Decidable (Fits32 d) := inferInstanceAs (Decidable (_ ∧ _))

/-- The table of a section at `table`: for each FDE the distances of its procedure and of the FDE
itself, sorted by the start of the procedure. -/
structure TableAt (m : Mem) (table segbase : Word) (entries : List (Word × FdeInfo)) : Prop where
  start : ∀ i x, entries[i]? = some x → load32 m (table + BitVec.ofNat 64 (8 * i)) =
    BitVec.ofInt 32 (distance segbase x.2.startIp)
  fde : ∀ i x, entries[i]? = some x → load32 m (table + BitVec.ofNat 64 (8 * i) + 4) =
    BitVec.ofInt 32 (distance segbase x.1)
  startFits : ∀ x ∈ entries, Fits32 (distance segbase x.2.startIp)
  fdeFits : ∀ x ∈ entries, Fits32 (distance segbase x.1)
  sorted : entries.Pairwise fun x y => x.2.startIp.toNat ≤ y.2.startIp.toNat

section Arith

variable {segbase a b : Word}

theorem toInt_ofInt_of_fits {d : ℤ} (h : Fits32 d) : (BitVec.ofInt 32 d).toInt = d := by
  rw [BitVec.toInt_ofInt, Int.bmod_eq_of_le] <;> [exact h.1; exact h.2]

/-- The narrowed address is the narrowed distance. -/
theorem setWidth_sub (segbase ip : Word) :
    (ip - segbase).setWidth 32 = BitVec.ofInt 32 (distance segbase ip) := by
  have hlt := segbase.isLt
  apply BitVec.eq_of_toNat_eq
  rw [BitVec.toNat_setWidth, BitVec.toNat_sub, BitVec.toNat_ofInt]
  unfold distance
  omega

/-- The address that a distance in the table stands for. -/
theorem signExtend_distance (ha : Fits32 (distance segbase a)) :
    (BitVec.ofInt 32 (distance segbase a)).signExtend 64 + segbase = a := by
  have hlt := segbase.isLt
  have hlt' := a.isLt
  unfold BitVec.signExtend
  rw [toInt_ofInt_of_fits ha]
  apply BitVec.eq_of_toNat_eq
  rw [BitVec.toNat_add, BitVec.toNat_ofInt]
  unfold distance
  omega

end Arith

section Lookup

variable {m : Mem} {table segbase ip : Word} {entries : List (Word × FdeInfo)}

/-- The start of the procedure of an entry. -/
def entryStart (x : Word × FdeInfo) : ℕ := x.2.startIp.toNat

theorem TableAt.startIpOffset_eq (h : TableAt m table segbase entries) {i : ℕ}
    (hi : i < entries.length) :
    startIpOffset m table i = distance segbase entries[i].2.startIp := by
  unfold startIpOffset
  rw [h.start i _ (List.getElem?_eq_getElem hi),
    toInt_ofInt_of_fits (h.startFits _ (List.getElem_mem hi))]

theorem TableAt.sortedTable (h : TableAt m table segbase entries) :
    SortedTable m table entries.length := by
  intro i j hij hj
  have hi : i < entries.length := Nat.lt_of_le_of_lt hij hj
  rw [h.startIpOffset_eq hi, h.startIpOffset_eq hj]
  have hle : entryStart entries[i] ≤ entryStart entries[j] := by
    obtain rfl | hlt := Nat.eq_or_lt_of_le hij
    · exact Nat.le_refl _
    · exact List.pairwise_iff_getElem.1 h.sorted i j hi hj hlt
  unfold distance
  unfold entryStart at hle
  omega

/-- **The lookup** goes to the entry before the first one that starts behind the address. -/
theorem unwLookup_boundary (h : TableAt m table segbase entries)
    (hip : Fits32 (distance segbase ip)) {size : Word} (hsize : size.toNat = 8 * entries.length) :
    ∃ r, Boundary (startsBehind entryStart entries ip.toNat) 0 entries.length r ∧
      unwLookup m table size ((ip - segbase).setWidth 32) =
        if r = 0 then none else some (table + BitVec.ofNat 64 (8 * (r - 1))) := by
  have hlen : size.toNat / 8 = entries.length := by omega
  have hsorted := h.sortedTable
  rw [← hlen] at hsorted
  obtain ⟨r, hr, hlookup⟩ := hsorted.boundary ((ip - segbase).setWidth 32)
  rw [hlen] at hr
  refine ⟨r, hr.congr fun i _ hi => ?_, hlookup⟩
  -- the comparison of the source is the one of the addresses
  rw [Bool.eq_iff_iff, entryBehind_iff, startsBehind_of_lt hi, h.startIpOffset_eq hi, setWidth_sub,
    toInt_ofInt_of_fits hip]
  unfold distance entryStart
  omega

/-- The FDE that an entry of the table points to. -/
theorem tableFde_entry (h : TableAt m table segbase entries) {i : ℕ} {x : Word × FdeInfo}
    (hx : entries[i]? = some x) :
    tableFde m 0 segbase (table + BitVec.ofNat 64 (8 * i)) = x.1 := by
  unfold tableFde
  rw [h.fde i x hx, if_neg (not_not_intro rfl)]
  exact signExtend_distance (h.fdeFits x (List.mem_of_getElem? hx))

end Lookup

/-! ### The two searches -/

/-- What an FDE says of its procedure. -/
def FdeInfo.procedure (f : FdeInfo) : (Word × Word) × Word × Word :=
  ((f.startIp, f.endIp), f.lsda, f.handler)

section Search

variable {m : Mem} {gp ip : Word}

theorem Describes.procedure {pi : ProcInfo} {f : FdeInfo} (h : Describes m gp pi f)
    (hfixed : HandlerFixed m gp f.cieAddr) : pi.procedure = f.procedure := by
  unfold ProcInfo.procedure ProcInfo.range FdeInfo.procedure
  rw [h.startIp, h.endIp, h.lsda, h.handler hfixed]

/-- **An FDE of the table** is decoded as in the section, from any procedure info. -/
theorem extractAt_of_decodedAt (need : Bool) {b : Word} {f : FdeInfo} (h : DecodedAt m gp b f)
    (hfixed : HandlerFixed m gp f.cieAddr) {p : PiState} (hgp : p.pi.gp = gp) :
    ∃ q, extractAt m need 0 b p = (.ok (), q) ∧ q.pi.procedure = f.procedure := by
  obtain ⟨b', cieOffsetAddr, cieOffset, body, hrec, hid, hcie, hdec⟩ := h
  obtain ⟨t, hrun, -, -, hdesc⟩ := hdec.replay hrec hid hcie (s := ⟨b, b, p.pi, p.pool⟩) rfl hgp
  obtain ⟨u, hu, hproc⟩ : ∃ u, dwarfExtractProcInfoFromFde m need 0 ⟨b, b, p.pi, p.pool⟩ =
      (.ok (), u) ∧ u.pi.procedure = t.pi.procedure := by
    cases need with
    | false => exact ⟨t, hrun, rfl⟩
    | true => exact extract_true_of_false hrun
  refine ⟨⟨u.pi, u.pool⟩, ?_, hproc.trans (hdesc.procedure hfixed)⟩
  unfold extractAt
  rw [Act.zoom_apply, hu]

end Search

/-- A section whose procedures are not empty and do not overlap, with a sorted table of its FDEs. -/
structure IndexedSection (m : Mem) (gp a e segbase table : Word)
    (fdes entries : List (Word × FdeInfo)) : Prop where
  ehFrame : EhFrameAt m gp a e fdes
  nonempty : ∀ x ∈ fdes, x.2.startIp < x.2.endIp
  apart : fdes.Pairwise fun x y => ∀ ip, ¬(x.2.Covers ip ∧ y.2.Covers ip)
  tableAt : TableAt m table segbase entries
  perm : entries.Perm fdes

namespace IndexedSection

variable {m : Mem} {gp a e segbase table ip : Word} {fdes entries : List (Word × FdeInfo)}

/-- No two procedures contain the address. -/
theorem unique (h : IndexedSection m gp a e segbase table fdes entries) {x y : Word × FdeInfo}
    (hx : x ∈ fdes) (hy : y ∈ fdes) (hcx : x.2.Covers ip) (hcy : y.2.Covers ip) : x = y := by
  by_contra hne
  have hsymm : Std.Symm fun x y : Word × FdeInfo => ∀ ip, ¬(x.2.Covers ip ∧ y.2.Covers ip) :=
    ⟨fun x y hxy ip hboth => hxy ip hboth.symm⟩
  exact h.apart.forall hx hy hne ip ⟨hcx, hcy⟩

/-- **The linear search**, with any count that is large enough. -/
theorem linearSearch_result (h : IndexedSection m gp a e segbase table fdes entries) (ip : Word)
    (need : Bool) {n : ℕ} (hn : fdeCount a e ≤ n) {s : FdeState} (hs : s.addrp = a)
    (hpi : s.pi = freshPi gp) :
    (∀ x ∈ fdes, x.2.Covers ip → HandlerFixed m gp x.2.cieAddr →
        (linearSearch m ip e need n s).1 = .ok () ∧
          (linearSearch m ip e need n s).2.pi.procedure = x.2.procedure) ∧
      ((∀ x ∈ fdes, ¬x.2.Covers ip) → (linearSearch m ip e need n s).1 = .err .enoinfo) := by
  have hsec := h.ehFrame.ehFrame
  have hstale : ¬Contains s.pi.range ip := by
    rw [hpi]
    rintro ⟨-, hlt⟩
    exact absurd (BitVec.lt_def.1 hlt) (Nat.not_lt_zero _)
  rw [fdeCount_eq hsec.le] at hn
  have hresult := linearSearch_of_ehFrame need hsec n s hs (congrArg ProcInfo.gp hpi) hstale hn
  unfold SearchResult at hresult
  cases hfind : (fdes.map Prod.snd).find? (fun f => f.Covers ip) with
  | some f =>
    rw [hfind] at hresult
    obtain ⟨y, hy, rfl⟩ := List.mem_map.1 (List.mem_of_find?_eq_some hfind)
    have hcy : y.2.Covers ip := by simpa using List.find?_some hfind
    constructor
    · -- the ranges do not overlap, so it is the FDE that was found
      intro x hx hcx hfixed
      obtain rfl := h.unique hx hy hcx hcy
      exact ⟨hresult.1, hresult.2.procedure hfixed⟩
    · intro hno
      exact absurd hcy (hno y hy)
  | none =>
    rw [hfind] at hresult
    refine ⟨fun x hx hcx => ?_, fun _ => hresult⟩
    have hno := List.find?_eq_none.1 hfind x.2 (List.mem_map_of_mem hx)
    exact absurd hcx (by simpa using hno)

/-- The entries lie one behind the other. -/
theorem entries_behind (h : IndexedSection m gp a e segbase table fdes entries) :
    entries.Pairwise fun x y => x.2.endIp.toNat ≤ entryStart y := by
  have happart : entries.Pairwise fun x y => ∀ ip, ¬(x.2.Covers ip ∧ y.2.Covers ip) :=
    h.perm.symm.pairwise h.apart fun hxy ip hboth => hxy ip hboth.symm
  refine stop_le_start h.tableAt.sorted (happart.imp fun {x y} hno k hboth => ?_) fun x hx => ?_
  · -- a common number is an address
    obtain ⟨⟨hx, hx'⟩, hy, hy'⟩ := hboth
    have hk : (BitVec.ofNat 64 k).toNat = k := by
      rw [BitVec.toNat_ofNat, Nat.mod_eq_of_lt (Nat.lt_trans hx' x.2.endIp.isLt)]
    refine hno (BitVec.ofNat 64 k) ⟨⟨?_, ?_⟩, ?_, ?_⟩
    · rwa [BitVec.le_def, hk]
    · rwa [BitVec.lt_def, hk]
    · rwa [BitVec.le_def, hk]
    · rwa [BitVec.lt_def, hk]
  · exact BitVec.lt_def.1 (h.nonempty x (h.perm.mem_iff.1 hx))

/-- The search that comes to an entry of the table. -/
theorem searchTable_of_entry (h : IndexedSection m gp a e segbase table fdes entries)
    (hfixed : ∀ x ∈ fdes, HandlerFixed m gp x.2.cieAddr) {size : Word} (need : Bool)
    {p : PiState} (hgp : p.pi.gp = gp) {i : ℕ} {x : Word × FdeInfo} (hx : entries[i]? = some x)
    (hlookup : unwLookup m table size ((ip - segbase).setWidth 32) =
      some (table + BitVec.ofNat 64 (8 * i))) :
    ∃ q, q.pi.procedure = x.2.procedure ∧
      searchTable m ip .remoteTable table size 0 segbase need p =
        (if x.2.Covers ip then .ok () else .err .enoinfo, q) := by
  have hmem : x ∈ fdes := h.perm.mem_iff.1 (List.mem_of_getElem? hx)
  obtain ⟨q, hrun, hproc⟩ :=
    extractAt_of_decodedAt need (h.ehFrame.decodedAt x hmem) (hfixed x hmem) hgp
  refine ⟨q, hproc, ?_⟩
  rw [searchTable_eq hlookup, tableFde_entry h.tableAt hx, Act.bind_of_ok hrun]
  -- the range that was decoded is tested once more
  obtain ⟨hstart, hend⟩ : q.pi.startIp = x.2.startIp ∧ q.pi.endIp = x.2.endIp :=
    Prod.mk.inj (congrArg Prod.fst hproc)
  have htest : (ip < q.pi.startIp ∨ q.pi.endIp ≤ ip) ↔ ¬x.2.Covers ip := by
    rw [hstart, hend]
    unfold FdeInfo.Covers
    simp only [BitVec.lt_def, BitVec.le_def]
    omega
  show (if ip < q.pi.startIp ∨ q.pi.endIp ≤ ip then Act.fail UnwError.enoinfo else pure ()) q = _
  by_cases hcov : x.2.Covers ip
  · rw [if_neg (mt htest.1 (not_not_intro hcov)), if_pos hcov]
    rfl
  · rw [if_pos (htest.2 hcov), if_neg hcov]
    rfl

/-- **The search of the table.** -/
theorem searchTable_result (h : IndexedSection m gp a e segbase table fdes entries)
    (hfixed : ∀ x ∈ fdes, HandlerFixed m gp x.2.cieAddr) (hip : Fits32 (distance segbase ip))
    {size : Word} (hsize : size.toNat = 8 * fdes.length) (need : Bool) {p : PiState}
    (hgp : p.pi.gp = gp) :
    (∀ x ∈ fdes, x.2.Covers ip →
        (searchTable m ip .remoteTable table size 0 segbase need p).1 = .ok () ∧
          (searchTable m ip .remoteTable table size 0 segbase need p).2.pi.procedure =
            x.2.procedure) ∧
      ((∀ x ∈ fdes, ¬x.2.Covers ip) →
        (searchTable m ip .remoteTable table size 0 segbase need p).1 = .err .enoinfo) := by
  rw [← h.perm.length_eq] at hsize
  obtain ⟨r, hr, hlookup⟩ := unwLookup_boundary h.tableAt hip hsize
  constructor
  · intro x hx hcov
    obtain ⟨hne, hentry⟩ := getElem_of_contains h.entries_behind hr (h.perm.mem_iff.2 hx)
      (BitVec.le_def.1 hcov.1) (BitVec.lt_def.1 hcov.2)
    rw [if_neg hne] at hlookup
    obtain ⟨q, hproc, hrun⟩ := h.searchTable_of_entry hfixed need hgp hentry hlookup
    rw [hrun, if_pos hcov]
    exact ⟨rfl, hproc⟩
  · intro hno
    by_cases hzero : r = 0
    · -- every procedure starts behind the address
      rw [if_pos hzero] at hlookup
      unfold searchTable
      rw [hlookup]
      rfl
    · rw [if_neg hzero] at hlookup
      have hlast : r - 1 < entries.length := by have := hr.upper; omega
      have hentry : entries[r - 1]? = some entries[r - 1] := List.getElem?_eq_getElem hlast
      obtain ⟨q, -, hrun⟩ := h.searchTable_of_entry hfixed need hgp hentry hlookup
      rw [hrun, if_neg (hno _ (h.perm.mem_iff.1 (List.getElem_mem hlast)))]

end IndexedSection

/-- The two searches find the same procedure, or neither finds one. -/
def Agree (linear : Res UnwError Unit × FdeState) (table : Res UnwError Unit × PiState) : Prop :=
  (linear.1 = .ok () ∧ table.1 = .ok () ∧ table.2.pi.procedure = linear.2.pi.procedure) ∨
    (linear.1 = .err .enoinfo ∧ table.1 = .err .enoinfo)

/-- **The two searches agree**, on a section with a table, for every address in the range of the
descriptor. -/
theorem table_search_agrees (m : Mem) (gp a e segbase table : Word)
    (fdes entries : List (Word × FdeInfo))
    (hsection : IndexedSection m gp a e segbase table fdes entries)
    (hpersonality : ∀ x ∈ fdes, PersonalityNotFuncrel m gp x.2.cieAddr)
    (ip : Word) (hip : Fits32 (distance segbase ip)) (di : DynInfo) (tableLen : Word)
    (hdi : di.u = .remoteTable segbase tableLen table) (hlen : tableLen.toNat = fdes.length)
    (hin : di.startIp ≤ ip ∧ ip < di.endIp) (need need' : Bool) (n : ℕ) (hn : fdeCount a e ≤ n)
    (s : FdeState) (hs : s.addrp = a) (hpi : s.pi = freshPi gp) (p : PiState)
    (hp : p.pi.gp = gp) :
    Agree (linearSearch m ip e need n s) (dwarfSearchUnwindTable m ip di need' p) := by
  have hfixed : ∀ x ∈ fdes, HandlerFixed m gp x.2.cieAddr :=
    fun x hx => handlerFixed_of_personality (hpersonality x hx)
  -- the size of the table does not wrap around, because the section has room for its FDEs
  have hsize : (tableLen * 8).toNat = 8 * fdes.length := by
    have hroom := hsection.ehFrame.length_le
    have he := e.isLt
    rw [BitVec.toNat_mul, hlen, show (8 : Word).toNat = 8 from rfl, Nat.mod_eq_of_lt] <;> omega
  have hrun : dwarfSearchUnwindTable m ip di need' p =
      searchTable m ip .remoteTable table (tableLen * 8) 0 segbase need' p := by
    have hformat : di.format = .remoteTable := by
      unfold DynInfo.format
      rw [hdi]
    unfold dwarfSearchUnwindTable
    rw [hformat, if_neg (fun h => h.1 rfl), if_neg (not_not_intro hin), hdi]
  obtain ⟨hlinear, hlinear'⟩ := hsection.linearSearch_result ip need hn hs hpi
  obtain ⟨htable, htable'⟩ := hsection.searchTable_result hfixed hip hsize need' hp
  rw [hrun]
  by_cases hcov : ∃ x ∈ fdes, x.2.Covers ip
  · obtain ⟨x, hx, hcx⟩ := hcov
    obtain ⟨hok, hproc⟩ := hlinear x hx hcx (hfixed x hx)
    obtain ⟨hok', hproc'⟩ := htable x hx hcx
    exact Or.inl ⟨hok, hok', hproc'.trans hproc.symm⟩
  · have hno : ∀ x ∈ fdes, ¬x.2.Covers ip := fun x hx hcx => hcov ⟨x, hx, hcx⟩
    exact Or.inr ⟨hlinear' hno, htable' hno⟩

/-- A section at `0x2000` with a table at `0x3000`. Its CIE has a personality pointer with this
encoding, and its FDEs are for `0x5000` to `0x5100` and for `0x5100` to `0x5200`. -/
def personalityMem (encoding : Byte) : Mem := fun a =>
  if 0x3000 ≤ a then
    -- the start of the procedure, the address of the FDE
    ([0x00, 0x50, 0x00, 0x00, 0x13, 0x20, 0x00, 0x00,
      0x00, 0x51, 0x00, 0x00, 0x2b, 0x20, 0x00, 0x00] : List Byte).getD (a - 0x3000).toNat 0
  else
    ([0x0f, 0x00, 0x00, 0x00, 0x00, 0x00, 0x00, 0x00, 0x01, 0x50, 0x00, 0x01, 0x78, 0x10,
      -- the personality pointer
      encoding, 0x10, 0x00, 0x00, 0x00,
      -- length, distance to the CIE, start, range
      0x14, 0x00, 0x00, 0x00, 0x17, 0x00, 0x00, 0x00,
      0x00, 0x50, 0x00, 0x00, 0x00, 0x00, 0x00, 0x00,
      0x00, 0x01, 0x00, 0x00, 0x00, 0x00, 0x00, 0x00,
      0x14, 0x00, 0x00, 0x00, 0x2f, 0x00, 0x00, 0x00,
      0x00, 0x51, 0x00, 0x00, 0x00, 0x00, 0x00, 0x00,
      0x00, 0x01, 0x00, 0x00, 0x00, 0x00, 0x00, 0x00] : List Byte).getD (a - 0x2000).toNat 0

/-- The FDEs of that section. -/
def personalityFdes : List (Word × FdeInfo) :=
  [(0x2013, ⟨0x5000, 0x5100, 0, 0x10, 0x2000⟩), (0x202b, ⟨0x5100, 0x5200, 0, 0x10, 0x2000⟩)]

/-- An absolute pointer, or one that is relative to the function. -/
theorem personality_indexed {encoding : Byte} (h : encoding = 0x03 ∨ encoding = 0x43) :
    IndexedSection (personalityMem encoding) 0 0x2000 0x2043 0 0x3000 personalityFdes
      personalityFdes := by
  have hsection : EhFrameAt (personalityMem encoding) 0 0x2000 0x2043 personalityFdes := by
    have hcie : RecordAt (personalityMem encoding) 0x2000 0x2013 0x2004 0 0x2008 := by
      obtain rfl | rfl := h <;>
        exact .dwarf32 (by decide +kernel) (by decide +kernel) (by decide +kernel)
    have hfirst : RecordAt (personalityMem encoding) 0x2013 0x202b 0x2017 0x17 0x201b := by
      obtain rfl | rfl := h <;>
        exact .dwarf32 (by decide +kernel) (by decide +kernel) (by decide +kernel)
    have hsecond : RecordAt (personalityMem encoding) 0x202b 0x2043 0x202f 0x2f 0x2033 := by
      obtain rfl | rfl := h <;>
        exact .dwarf32 (by decide +kernel) (by decide +kernel) (by decide +kernel)
    refine .cie hcie (.fde hfirst (by decide) (by decide) ?_ (.fde hsecond (by decide) (by decide)
      ?_ (.nil _)))
    · obtain rfl | rfl := h <;>
        exact decodesTo_of_run dwEhPeUdata8 (by decide +kernel) (by decide +kernel)
          (by decide +kernel) (by decide)
    · obtain rfl | rfl := h <;>
        exact decodesTo_of_run dwEhPeUdata8 (by decide +kernel) (by decide +kernel)
          (by decide +kernel) (by decide)
  have htable : TableAt (personalityMem encoding) 0x3000 0 personalityFdes := by
    have hentries : ∀ i x, personalityFdes[i]? = some x →
        (i = 0 ∧ x = (0x2013, ⟨0x5000, 0x5100, 0, 0x10, 0x2000⟩)) ∨
          (i = 1 ∧ x = (0x202b, ⟨0x5100, 0x5200, 0, 0x10, 0x2000⟩)) := by
      intro i x hx
      match i, hx with
      | 0, hx => exact Or.inl ⟨rfl, (Option.some.inj hx).symm⟩
      | 1, hx => exact Or.inr ⟨rfl, (Option.some.inj hx).symm⟩
    have hfits : ∀ x ∈ personalityFdes, Fits32 (distance 0 x.2.startIp) ∧
        Fits32 (distance 0 x.1) := by
      intro x hx
      obtain ⟨i, hi⟩ := List.mem_iff_getElem?.1 hx
      obtain ⟨-, rfl⟩ | ⟨-, rfl⟩ := hentries i x hi <;> decide +kernel
    refine ⟨fun i x hx => ?_, fun i x hx => ?_, fun x hx => (hfits x hx).1,
      fun x hx => (hfits x hx).2, by decide⟩
    · obtain ⟨rfl, rfl⟩ | ⟨rfl, rfl⟩ := hentries i x hx <;> obtain rfl | rfl := h <;>
        decide +kernel
    · obtain ⟨rfl, rfl⟩ | ⟨rfl, rfl⟩ := hentries i x hx <;> obtain rfl | rfl := h <;>
        decide +kernel
  refine ⟨hsection, by decide, ?_, htable, List.Perm.refl _⟩
  refine List.pairwise_pair.2 fun ip hboth => ?_
  have hend := BitVec.lt_def.1 hboth.1.2
  have hstart := BitVec.le_def.1 hboth.2.1
  exact absurd (Nat.lt_of_lt_of_le hend hstart) (Nat.lt_irrefl _)

theorem ProcInfo.handler_of_procedure {pi pi' : ProcInfo} (h : pi.procedure = pi'.procedure) :
    pi.handler = pi'.handler := congrArg (fun q => q.2.2) h

/-- The descriptor of that section. -/
def personalityTable : DynInfo := ⟨0x5000, 0x5200, 0, .remoteTable 0 2 0x3000⟩

/-- An absolute personality pointer. -/
theorem table_search_agrees_absolute :
    Agree (linearSearch (personalityMem 0x03) 0x5110 0x2043 true 8 ⟨0, 0x2000, freshPi 0, ⟨0, 0⟩⟩)
      (dwarfSearchUnwindTable (personalityMem 0x03) 0x5110 personalityTable true
        ⟨freshPi 0, ⟨0, 0⟩⟩) := by
  have haug : cieAugmentation (personalityMem 0x03) 0x2000 = (.ok [0x50], 0x200e) := by
    decide +kernel
  refine table_search_agrees _ 0 0x2000 0x2043 0 0x3000 _ _ (personality_indexed (Or.inl rfl)) ?_
    0x5110 (by decide +kernel) personalityTable 2 rfl rfl (by decide) true true 8 (by decide)
    _ rfl rfl _ rfl
  have hcie : PersonalityNotFuncrel (personalityMem 0x03) 0 0x2000 := by
    intro cs b hrun
    cases haug.symm.trans hrun
    exact ⟨by decide +kernel, fun _ _ _ => trivial⟩
  intro x hx
  have hx' : x.2.cieAddr = 0x2000 := by
    revert x
    decide
  rw [hx']
  exact hcie

/-- A personality pointer that is relative to the function is added to the start that the procedure
info happens to hold. -/
theorem table_search_disagrees_funcrel :
    IndexedSection (personalityMem 0x43) 0 0x2000 0x2043 0 0x3000 personalityFdes
        personalityFdes ∧
      (linearSearch (personalityMem 0x43) 0x5110 0x2043 true 8
        ⟨0, 0x2000, freshPi 0, ⟨0, 0⟩⟩).2.pi.handler = 0x5110 ∧
      (dwarfSearchUnwindTable (personalityMem 0x43) 0x5110 personalityTable true
        ⟨freshPi 0, ⟨0, 0⟩⟩).2.pi.handler = 0x10 ∧
      ¬Agree (linearSearch (personalityMem 0x43) 0x5110 0x2043 true 8
          ⟨0, 0x2000, freshPi 0, ⟨0, 0⟩⟩)
        (dwarfSearchUnwindTable (personalityMem 0x43) 0x5110 personalityTable true
          ⟨freshPi 0, ⟨0, 0⟩⟩) := by
  have hlinear : (linearSearch (personalityMem 0x43) 0x5110 0x2043 true 8
      ⟨0, 0x2000, freshPi 0, ⟨0, 0⟩⟩).2.pi.handler = 0x5110 := by decide +kernel
  have htable : (dwarfSearchUnwindTable (personalityMem 0x43) 0x5110 personalityTable true
      ⟨freshPi 0, ⟨0, 0⟩⟩).2.pi.handler = 0x10 := by decide +kernel
  have hok : (linearSearch (personalityMem 0x43) 0x5110 0x2043 true 8
      ⟨0, 0x2000, freshPi 0, ⟨0, 0⟩⟩).1 = .ok () := by decide +kernel
  refine ⟨personality_indexed (Or.inr rfl), hlinear, htable, ?_⟩
  rintro (⟨-, -, hproc⟩ | ⟨herr, -⟩)
  · have hhandler := ProcInfo.handler_of_procedure hproc
    rw [hlinear, htable] at hhandler
    exact absurd hhandler (by decide)
  · rw [hok] at herr
    cases herr

end LibunwindKern
