import LibunwindKern.Dwarf.FdeSpec
import LibunwindKern.Dwarf.FindProcInfo

/-!
# The linear search of an `.eh_frame` section

`EhFrame m gp a e fdes` says that the bytes from `a` to `e` are a sequence of CIEs and
FDEs, perhaps with a terminator, and that `fdes` are the FDEs in order. Each FDE is what
`dwarf_extract_proc_info_from_fde` makes of it in a zeroed procedure info.

`linear_search` decodes all records into one and the same procedure info. It tests the
code range after every success, also after a CIE, which leaves the procedure info alone:
the range that is tested there is the one of the last FDE. The invariant of the search is
that this stale range does not contain the address (`linearSearch_of_ehFrame`). A record
has at least eight bytes, so `fde_count`, an eighth of the size of the section, is never
less than the number of records.
-/

namespace LibunwindKern

open CProg ByteMem

/-! ### Sections -/

/-- What an FDE says, and where its CIE is. -/
structure FdeInfo where
  startIp : Word
  endIp : Word
  lsda : Word
  handler : Word
  cieAddr : Word
  deriving DecidableEq, Repr

/-- The code range of the FDE contains an address. -/
def FdeInfo.Covers (f : FdeInfo) (ip : Word) : Prop := f.startIp ≤ ip ∧ ip < f.endIp

instance (f : FdeInfo) (ip : Word) : Decidable (f.Covers ip) :=
  inferInstanceAs (Decidable (_ ∧ _))

/-- A procedure info in which nothing but `gp` is set. -/
def freshPi (gp : Word) : ProcInfo := { ProcInfo.zero with gp := gp }

/-- The handler of a CIE is not relative to the function. -/
def HandlerFixed (m : Mem) (gp cieAddr : Word) : Prop :=
  ∀ pi : ProcInfo, pi.gp = gp → (parseCie m pi 0 cieAddr).1 = (parseCie m (freshPi gp) 0 cieAddr).1

/-- The FDE at `a` decodes to `f`, and its code pointers are not relative to the
function. -/
structure DecodesTo (m : Mem) (gp a : Word) (f : FdeInfo) : Prop where
  run : ∃ t, dwarfExtractProcInfoFromFde m false 0 ⟨a, a, freshPi gp, ⟨0, 0⟩⟩ = (.ok (), t) ∧
    t.pi = { freshPi gp with
      startIp := f.startIp, endIp := f.endIp, lsda := f.lsda, handler := f.handler }
  notFuncrel : ∀ dci addr, parseCie m (freshPi gp) 0 f.cieAddr = (.ok dci, addr) →
    dci.fdeEncoding &&& dwEhPeApplMask ≠ dwEhPeFuncrel

/-- A well-formed `.eh_frame` section from `a` to `e`, with its FDEs in order. -/
inductive EhFrame (m : Mem) (gp : Word) : Word → Word → List FdeInfo → Prop
  | nil (a : Word) : EhFrame m gp a a []
  | terminator {a e : Word} (hzero : load32 m a = 0) (hend : e.toNat = a.toNat + 4) :
      EhFrame m gp a e []
  | cie {a b e cieOffsetAddr body : Word} {fdes : List FdeInfo}
      (hrec : RecordAt m a b cieOffsetAddr 0 body) (hrest : EhFrame m gp b e fdes) :
      EhFrame m gp a e fdes
  | fde {a b e cieOffsetAddr cieOffset body : Word} {f : FdeInfo} {fdes : List FdeInfo}
      (hrec : RecordAt m a b cieOffsetAddr cieOffset body) (hid : cieOffset ≠ 0)
      (hcie : f.cieAddr = cieOffsetAddr - cieOffset) (hdec : DecodesTo m gp a f)
      (hrest : EhFrame m gp b e fdes) : EhFrame m gp a e (f :: fdes)

/-- The procedure info describes an FDE. A handler that is relative to the function is
not known before the FDE is decoded, and nothing is said of it. -/
structure Describes (m : Mem) (gp : Word) (pi : ProcInfo) (f : FdeInfo) : Prop where
  startIp : pi.startIp = f.startIp
  endIp : pi.endIp = f.endIp
  lsda : pi.lsda = f.lsda
  handler : HandlerFixed m gp f.cieAddr → pi.handler = f.handler

variable {m : Mem} {gp a e ip : Word} {fdes : List FdeInfo}

theorem Describes.of_procedure {pi pi' : ProcInfo} {f : FdeInfo} (h : Describes m gp pi f)
    (heq : pi'.procedure = pi.procedure) : Describes m gp pi' f := by
  obtain ⟨hrange, hlsda, hhandler⟩ := by simpa only [ProcInfo.procedure, Prod.mk.injEq] using heq
  obtain ⟨hstart, hend⟩ := Prod.mk.inj hrange
  exact ⟨hstart.trans h.startIp, hend.trans h.endIp, hlsda.trans h.lsda,
    fun hfixed => hhandler.trans (h.handler hfixed)⟩

theorem EhFrame.le (h : EhFrame m gp a e fdes) : a.toNat ≤ e.toNat := by
  induction h with
  | nil => exact Nat.le_refl _
  | terminator _ hend => omega
  | cie hrec _ ih => exact Nat.le_trans (Nat.le_of_add_right_le hrec.size_le) ih
  | fde hrec _ _ _ _ ih => exact Nat.le_trans (Nat.le_of_add_right_le hrec.size_le) ih

/-! ### One record -/

/-- **An FDE decodes in the same way from any procedure info.** The data that an earlier
record has left there is overwritten, and none of it is read. -/
theorem DecodesTo.replay {b cieOffsetAddr cieOffset body : Word} {f : FdeInfo}
    (h : DecodesTo m gp a f) (hrec : RecordAt m a b cieOffsetAddr cieOffset body)
    (hid : cieOffset ≠ 0) (hcie : f.cieAddr = cieOffsetAddr - cieOffset) {s : FdeState}
    (hs : s.addrp = a) (hgp : s.pi.gp = gp) :
    ∃ t, dwarfExtractProcInfoFromFde m false 0 s = (.ok (), t) ∧ t.addrp = b ∧ t.pi.gp = gp ∧
      Describes m gp t.pi f := by
  obtain ⟨t, hrun, hpi⟩ := h.run
  rw [extractFde_of_fde false hrec hid rfl, ← hcie] at hrun
  obtain ⟨dci, addr, start, range, augEnd, lsda, a₁, a₂, a₃, a₄, hdci, hreads⟩ := fdeBody_reads hrun
  -- what the run on the zeroed procedure info has found
  rw [fdeBody_of_reads false b hdci hreads] at hrun
  obtain ⟨-, rfl⟩ := Prod.mk.inj hrun
  have hfun := h.notFuncrel dci addr hdci
  rw [extractFde_of_fde false hrec hid hs, ← hcie]
  -- the CIE is read again, and only the handler can differ
  have hgp' : (freshPi gp).gp = s.pi.gp := hgp.symm
  have hcie' : ∃ handler, parseCie m s.pi 0 f.cieAddr =
      (.ok { dci with handler := handler }, addr) := by
    obtain ⟨dci', handler, addr', hx, hy⟩ | heq :=
      parseCie_congr (m := m) hgp' 0 f.cieAddr
    · rw [hdci] at hx
      cases hx
      exact ⟨handler, hy⟩
    · exact ⟨dci.handler, heq.symm.trans hdci⟩
  obtain ⟨handler, hdci'⟩ := hcie'
  have hreads' : FdeReads m s.pi { dci with handler := handler } body start range augEnd lsda
      a₁ a₂ a₃ a₄ := hreads.congr handler hgp' hfun
  refine ⟨_, fdeBody_of_reads false b (s := { s with addr := body, addrp := b }) hdci' hreads', rfl,
    hgp, ?_⟩
  have hstart : start = f.startIp := congrArg ProcInfo.startIp hpi
  have hrange : start + range = f.endIp := congrArg ProcInfo.endIp hpi
  have hlsda : lsda = f.lsda := congrArg ProcInfo.lsda hpi
  have hhandler : dci.handler = f.handler := congrArg ProcInfo.handler hpi
  refine ⟨hstart, hrange, hlsda, fun hfixed => ?_⟩
  have hsame := hfixed s.pi hgp
  rw [hdci', hdci] at hsame
  injection hsame with hsame
  exact (congrArg CieInfo.handler hsame).trans hhandler

/-! ### One turn -/

/-- A code range contains an address. -/
def Contains (range : Word × Word) (ip : Word) : Prop := range.1 ≤ ip ∧ ip < range.2

section Turn

variable {need : Bool} {n : ℕ} {s t : FdeState}

theorem linearSearch_of_err {err : UnwError} (hlt : s.addrp < e)
    (hrun : dwarfExtractProcInfoFromFde m false 0 s = (.err err, t)) :
    linearSearch m ip e need (n + 1) s = linearSearch m ip e need n t := by
  rw [linearSearch, Act.get_bind, if_pos hlt, Act.bind_of_ok (Act.attempt_of_err hrun)]

theorem linearSearch_of_stuck {r : Res UnwError Unit} (hlt : s.addrp < e)
    (hrun : dwarfExtractProcInfoFromFde m false 0 s = (r, t)) (hr : r.Stuck) :
    (linearSearch m ip e need (n + 1) s).1 = r := by
  rw [linearSearch, Act.get_bind, if_pos hlt, Act.attempt_bind_of_stuck hrun hr]
  exact Res.bind_eq_self hr.1 _

theorem linearSearch_of_miss (hlt : s.addrp < e)
    (hrun : dwarfExtractProcInfoFromFde m false 0 s = (.ok (), t))
    (hmiss : ¬Contains t.pi.range ip) :
    linearSearch m ip e need (n + 1) s = linearSearch m ip e need n t := by
  have hif : ¬(t.pi.startIp ≤ ip ∧ ip < t.pi.endIp) := hmiss
  rw [linearSearch, Act.get_bind, if_pos hlt, Act.bind_of_ok (Act.attempt_of_ok hrun)]
  simp only [Act.get_bind, if_neg hif]

/-- A hit. With the unwind info, the record is decoded once more, into what the first time has
left. -/
theorem linearSearch_of_contains (hlt : s.addrp < e)
    (hrun : dwarfExtractProcInfoFromFde m false 0 s = (.ok (), t)) (hin : Contains t.pi.range ip) :
    linearSearch m ip e need (n + 1) s =
      if need then dwarfExtractProcInfoFromFde m need 0 { t with addrp := s.addrp }
      else (.ok (), t) := by
  have hif : t.pi.startIp ≤ ip ∧ ip < t.pi.endIp := hin
  rw [linearSearch, Act.get_bind, if_pos hlt, Act.bind_of_ok (Act.attempt_of_ok hrun)]
  simp only [Act.get_bind, if_pos hif]
  cases need with
  | false => rfl
  | true => rfl

/-- At the terminator the search stays where it is until the count is used up. -/
theorem linearSearch_of_terminator (need : Bool) (hzero : load32 m a = 0) :
    ∀ (n : ℕ) (s : FdeState), s.addrp = a →
      ∃ t, linearSearch m ip e need n s = (.err .enoinfo, t)
  | 0, s, _ => ⟨s, rfl⟩
  | n + 1, s, hs => by
    by_cases hlt : s.addrp < e
    · have hrun : dwarfExtractProcInfoFromFde m false 0 s =
          (.err .enoinfo, { s with addr := s.addrp + 4 }) := by
        unfold dwarfExtractProcInfoFromFde fdeHeader
        rw [Act.modify_bind]
        refine Act.bind_of_err ?_
        rw [Act.bind_of_ok (onAddr_of_ok (s := { s with addr := s.addrp })
          (x := dwarfReadu32 m) rfl)]
        change (if load32 m s.addrp ≠ 0xffffffff then _ else _ : Act UnwError FdeState _) _ = _
        rw [hs, hzero, if_pos (by decide), if_pos rfl]
        rfl
      rw [linearSearch_of_err hlt hrun]
      exact linearSearch_of_terminator need hzero n _ hs
    · unfold linearSearch
      rw [Act.get_bind, if_neg hlt]
      exact ⟨s, rfl⟩

end Turn

/-! ### The whole section -/

/-- What the search returns for a section with these FDEs. -/
def SearchResult (m : Mem) (gp ip : Word) (fdes : List FdeInfo) (r : Res UnwError Unit × FdeState) :
    Prop :=
  match fdes.find? (fun f => f.Covers ip) with
  | some f => r.1 = .ok () ∧ Describes m gp r.2.pi f
  | none => r.1 = .err .enoinfo

/-- **The search of a section.** The induction is over the records of the section. The
range in the procedure info, left by the last FDE, does not contain the address, and the
count suffices for the records that are left. -/
theorem linearSearch_of_ehFrame (need : Bool) (h : EhFrame m gp a e fdes) :
    ∀ (n : ℕ) (s : FdeState), s.addrp = a → s.pi.gp = gp → ¬Contains s.pi.range ip →
      (e.toNat - a.toNat) / 8 ≤ n →
      SearchResult m gp ip fdes (linearSearch m ip e need n s) := by
  induction h with
  | nil a =>
    intro n s hs _ _ _
    cases n with
    | zero => rfl
    | succ n =>
      unfold linearSearch
      rw [Act.get_bind, if_neg (by rw [hs]; exact BitVec.lt_irrefl a)]
      rfl
  | terminator hzero hend =>
    intro n s hs _ _ _
    obtain ⟨t, hrun⟩ := linearSearch_of_terminator need hzero n s hs
    rw [hrun]
    rfl
  | @cie a b e _ _ fdes hrec hrest ih =>
    intro n s hs hgp hstale hn
    have hsize := hrec.size_le
    have hle := hrest.le
    obtain ⟨n, rfl⟩ : ∃ k, n = k + 1 := ⟨n - 1, by omega⟩
    have hlt : s.addrp < e := by
      rw [hs, BitVec.lt_def]
      omega
    rw [linearSearch_of_miss hlt (extractFde_of_cie false hrec hs) hstale]
    exact ih n _ rfl hgp hstale (by omega)
  | @fde a b e _ _ _ f fdes hrec hid hcie hdec hrest ih =>
    intro n s hs hgp hstale hn
    have hsize := hrec.size_le
    have hle := hrest.le
    obtain ⟨n, rfl⟩ : ∃ k, n = k + 1 := ⟨n - 1, by omega⟩
    have hlt : s.addrp < e := by
      rw [hs, BitVec.lt_def]
      omega
    obtain ⟨t, hrun, haddr, hgp', hdesc⟩ := hdec.replay hrec hid hcie hs hgp
    have hrange : t.pi.range = (f.startIp, f.endIp) := Prod.ext hdesc.startIp hdesc.endIp
    unfold SearchResult
    by_cases hin : f.Covers ip
    · rw [linearSearch_of_contains hlt hrun (hrange ▸ hin),
        List.find?_cons_of_pos (by simpa using hin)]
      cases need with
      | false => exact ⟨rfl, hdesc⟩
      | true =>
        -- the second time the record is decoded into what the first time has left
        obtain ⟨t', hrun', -, -, hdesc'⟩ :=
          hdec.replay hrec hid hcie (s := { t with addrp := s.addrp }) hs hgp'
        obtain ⟨u, hu, hproc⟩ := extract_true_of_false hrun'
        rw [if_pos rfl, hu]
        exact ⟨rfl, hdesc'.of_procedure hproc⟩
    · have hmiss : ¬Contains t.pi.range ip := hrange ▸ hin
      rw [linearSearch_of_miss hlt hrun hmiss, List.find?_cons_of_neg (by simpa using hin)]
      exact ih n t haddr hgp' hmiss (by omega)

theorem fdeCount_eq (h : a.toNat ≤ e.toNat) : fdeCount a e = (e.toNat - a.toNat) / 8 := by
  unfold fdeCount
  have he := e.isLt
  have hdiff : (e - a).toNat = e.toNat - a.toNat := by
    rw [BitVec.toNat_sub]
    omega
  rw [hdiff]

/-- **`linear_search` finds the first FDE that covers the address**, and only then returns
a hit. No larger count would find more. -/
theorem linearSearch_exact (h : EhFrame m gp a e fdes) (s : FdeState) (hs : s.addrp = a)
    (hgp : s.pi.gp = gp) (hend : s.pi.endIp = 0) (ip : Word) :
    ((linearSearch m ip e false (fdeCount a e) s).1 = .ok () ↔ ∃ f ∈ fdes, f.Covers ip) ∧
      (∀ f, fdes.find? (fun f => f.Covers ip) = some f →
        Describes m gp (linearSearch m ip e false (fdeCount a e) s).2.pi f) ∧
      ((¬∃ f ∈ fdes, f.Covers ip) →
        (linearSearch m ip e false (fdeCount a e) s).1 = .err .enoinfo) ∧
      ∀ n, fdeCount a e ≤ n →
        (linearSearch m ip e false n s).1 = (linearSearch m ip e false (fdeCount a e) s).1 := by
  -- the range that the caller passes is empty
  have hstale : ¬Contains s.pi.range ip := by
    rintro ⟨-, hlt⟩
    change ip < s.pi.endIp at hlt
    rw [hend] at hlt
    exact absurd (BitVec.lt_def.mp hlt) (Nat.not_lt_zero _)
  have hrun : ∀ n, fdeCount a e ≤ n → SearchResult m gp ip fdes (linearSearch m ip e false n s) := by
    intro n hn
    rw [fdeCount_eq h.le] at hn
    exact linearSearch_of_ehFrame false h n s hs hgp hstale hn
  have hcount := hrun (fdeCount a e) (Nat.le_refl _)
  unfold SearchResult at hrun hcount
  cases hfind : fdes.find? (fun f => f.Covers ip) with
  | some f =>
    have hmem : ∃ f ∈ fdes, f.Covers ip :=
      ⟨f, List.mem_of_find?_eq_some hfind, by simpa using List.find?_some hfind⟩
    rw [hfind] at hcount hrun
    refine ⟨⟨fun _ => hmem, fun _ => hcount.1⟩, ?_, fun hno => absurd hmem hno, ?_⟩
    · intro g hg
      cases hg
      exact hcount.2
    · intro n hn
      rw [(hrun n hn).1, hcount.1]
  | none =>
    have hno : ¬∃ f ∈ fdes, f.Covers ip := by
      rintro ⟨f, hf, hcov⟩
      have := List.find?_eq_none.mp hfind f hf
      exact this (by simpa using hcov)
    rw [hfind] at hcount hrun
    refine ⟨⟨fun hok => ?_, fun hmem => absurd hmem hno⟩, nofun, fun _ => hcount, ?_⟩
    · rw [hcount] at hok
      cases hok
    · intro n hn
      rw [hrun n hn, hcount]

/-- A section at `0x2000`: a CIE, an FDE for `0x5000` to `0x5100`, an FDE in the 64-bit
format for `0x5100` to `0x5200`, and a terminator. -/
def twoFdesMem : Mem := fun a =>
  ([0x0e, 0x00, 0x00, 0x00, 0x00, 0x00, 0x00, 0x00, 0x01, 0x00, 0x01, 0x78, 0x10,
    0x0c, 0x07, 0x08, 0x90, 0x01,
    -- length, distance to the CIE, start, range
    0x14, 0x00, 0x00, 0x00, 0x16, 0x00, 0x00, 0x00,
    0x00, 0x50, 0x00, 0x00, 0x00, 0x00, 0x00, 0x00,
    0x00, 0x01, 0x00, 0x00, 0x00, 0x00, 0x00, 0x00,
    -- the escape, and the same fields
    0xff, 0xff, 0xff, 0xff, 0x18, 0x00, 0x00, 0x00, 0x00, 0x00, 0x00, 0x00,
    0x36, 0x00, 0x00, 0x00, 0x00, 0x00, 0x00, 0x00,
    0x00, 0x51, 0x00, 0x00, 0x00, 0x00, 0x00, 0x00,
    0x00, 0x01, 0x00, 0x00, 0x00, 0x00, 0x00, 0x00] : List Byte).getD (a - 0x2000).toNat 0

def firstFde : FdeInfo := ⟨0x5000, 0x5100, 0, 0, 0x2000⟩

def secondFde : FdeInfo := ⟨0x5100, 0x5200, 0, 0, 0x2000⟩

/-- The encoding of the code pointers of a CIE, if the CIE is well-formed. -/
def fdeEncodingAt (m : Mem) (gp cieAddr : Word) : Res UnwError Byte :=
  (parseCie m (freshPi gp) 0 cieAddr).1.bind fun dci => .ok dci.fdeEncoding

theorem decodesTo_of_run (encoding : Byte) {f : FdeInfo}
    (hok : (dwarfExtractProcInfoFromFde m false 0 ⟨a, a, freshPi gp, ⟨0, 0⟩⟩).1 = .ok ())
    (hpi : (dwarfExtractProcInfoFromFde m false 0 ⟨a, a, freshPi gp, ⟨0, 0⟩⟩).2.pi =
      { freshPi gp with
        startIp := f.startIp, endIp := f.endIp, lsda := f.lsda, handler := f.handler })
    (henc : fdeEncodingAt m gp f.cieAddr = .ok encoding)
    (hfun : encoding &&& dwEhPeApplMask ≠ dwEhPeFuncrel) : DecodesTo m gp a f where
  run := ⟨_, Prod.ext hok rfl, hpi⟩
  notFuncrel := by
    intro dci addr hrun
    unfold fdeEncodingAt at henc
    rw [hrun] at henc
    injection henc with henc
    rw [henc]
    exact hfun

theorem twoFdes_ehFrame : EhFrame twoFdesMem 0 0x2000 0x2052 [firstFde, secondFde] := by
  have hfirst : RecordAt twoFdesMem 0x2012 0x202a 0x2016 0x16 0x201a :=
    .dwarf32 (by decide +kernel) (by decide +kernel) (by decide +kernel)
  have hsecond : RecordAt twoFdesMem 0x202a 0x204e 0x2036 0x36 0x203e :=
    .dwarf64 (by decide +kernel) (by decide +kernel) (by decide +kernel)
  have hcie : RecordAt twoFdesMem 0x2000 0x2012 0x2004 0 0x2008 :=
    .dwarf32 (by decide +kernel) (by decide +kernel) (by decide +kernel)
  refine .cie hcie (.fde hfirst (by decide) (by decide) ?_ ?_)
  · exact decodesTo_of_run dwEhPeUdata8 (by decide +kernel) (by decide +kernel)
      (by decide +kernel) (by decide)
  refine .fde hsecond (by decide) (by decide) ?_ ?_
  · exact decodesTo_of_run dwEhPeUdata8 (by decide +kernel) (by decide +kernel)
      (by decide +kernel) (by decide)
  exact .terminator (by decide +kernel) (by decide)

/-- The FDE for an address in the second procedure, found past the range of the first. -/
theorem linearSearch_second_fde :
    (linearSearch twoFdesMem 0x5110 0x2052 false (fdeCount 0x2000 0x2052)
        ⟨0, 0x2000, freshPi 0, ⟨0, 0⟩⟩).1 = .ok () ∧
      Describes twoFdesMem 0 (linearSearch twoFdesMem 0x5110 0x2052 false (fdeCount 0x2000 0x2052)
        ⟨0, 0x2000, freshPi 0, ⟨0, 0⟩⟩).2.pi secondFde := by
  obtain ⟨hhit, hdesc, -, -⟩ := linearSearch_exact twoFdes_ehFrame ⟨0, 0x2000, freshPi 0, ⟨0, 0⟩⟩
    rfl rfl rfl 0x5110
  refine ⟨hhit.mpr ⟨secondFde, List.mem_cons_of_mem _ List.mem_cons_self, by decide⟩, ?_⟩
  exact hdesc secondFde (by decide)

end LibunwindKern
