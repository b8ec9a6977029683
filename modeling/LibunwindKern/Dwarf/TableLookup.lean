import LibunwindKern.Lib.BinarySearch
import LibunwindKern.Dwarf.FindProcInfo

/-!
# The lookup in a binary table

`unw_lookup` halves the part of the table that is left until nothing is, and returns the entry
before the place where it ends. `unwLookup` computes with numbers. Here the loop is run on the
variables of the source, which are of type `unsigned long`.

* `LookupVars.Within` is the invariant: the part that is left lies inside the table. Then `lo + hi`
  does not wrap around, and the entry in the middle is one of the table (`Within.mid_lt`).
* `unwLookupWords_eq`: the loop ends, and the function returns what `unwLookup` says.
* `SortedTable.boundary`: in a sorted table the lookup is a binary search for the first entry behind
  the address.
* `unw_lookup_exact`: the result is the last entry that is not behind the address, and there is
  none exactly if every entry is behind it.
-/

namespace LibunwindKern

open CProg ByteMem BinarySearch

/-- The variables `lo` and `hi` of `unw_lookup`. -/
structure LookupVars where
  lo : Word
  hi : Word
  deriving DecidableEq, Repr

/-- The variable `mid` of a turn. -/
def LookupVars.mid (s : LookupVars) : Word := (s.lo + s.hi) / 2

/-- The condition of the loop. -/
def unwLookupGoesOn (s : LookupVars) : Bool := decide (s.lo < s.hi)

section

variable (m : Mem) (table : Word) (relIp : BitVec 32)

/-- What a turn of the loop leaves. An entry of the table has eight bytes. -/
def unwLookupNext (s : LookupVars) : LookupVars :=
  if relIp.slt (load32 m (table + s.mid * 8)) then { s with hi := s.mid }
  else { s with lo := s.mid + 1 }

/-- One turn of the loop. -/
def unwLookupTurn : Act UnwError LookupVars Unit := Act.modify (unwLookupNext m table relIp)

/-- `unw_lookup` on its variables, which are not initialised before. -/
def unwLookupWords (tableSize : Word) (fuel : ℕ) : Act UnwError LookupVars (Option Word) := do
  Act.modify fun _ => ⟨0, tableSize / 8⟩
  Act.loop unwLookupGoesOn (unwLookupTurn m table relIp) fuel
  let s ← Act.get
  if s.hi ≤ 0 then
    pure none
  else
    pure (some (table + s.hi * 8 - 8))

end

/-! ### The loop on words -/

section Words

variable {m : Mem} {table tableSize : Word} {relIp : BitVec 32} {n : ℕ} {s t : LookupVars}

theorem unwLookupGoesOn_iff : unwLookupGoesOn s = true ↔ s.lo.toNat < s.hi.toNat := by
  unfold unwLookupGoesOn
  rw [decide_eq_true_iff, BitVec.lt_def]

/-- The part of the table that is left. -/
structure LookupVars.Within (n : ℕ) (s : LookupVars) : Prop where
  lo_le : s.lo.toNat ≤ s.hi.toNat
  hi_le : s.hi.toNat ≤ n
  size : n < 2 ^ 61

theorem within_start (tableSize : Word) :
    LookupVars.Within (tableSize.toNat / 8) ⟨0, tableSize / 8⟩ := by
  have hsize := tableSize.isLt
  have hhi : (tableSize / 8).toNat = tableSize.toNat / 8 := BitVec.toNat_udiv
  exact ⟨Nat.zero_le _, Nat.le_of_eq hhi, by omega⟩

namespace LookupVars.Within

theorem mid_eq (h : s.Within n) : s.mid.toNat = (s.lo.toNat + s.hi.toNat) / 2 := by
  obtain ⟨hle, hhi, hn⟩ := h
  unfold LookupVars.mid
  rw [BitVec.toNat_udiv, BitVec.toNat_add, Nat.mod_eq_of_lt (by omega)]
  rfl

/-- **The probe is inside the part that is left.** -/
theorem mid_lt (h : s.Within n) (hgo : unwLookupGoesOn s = true) :
    s.lo.toNat ≤ s.mid.toNat ∧ s.mid.toNat < s.hi.toNat := by
  rw [unwLookupGoesOn_iff] at hgo
  rw [h.mid_eq]
  omega

theorem succ_mid (h : s.Within n) (hgo : unwLookupGoesOn s = true) :
    (s.mid + 1).toNat = s.mid.toNat + 1 := by
  obtain ⟨-, hlt⟩ := h.mid_lt hgo
  have hsize := h.size
  have hhi := h.hi_le
  rw [BitVec.toNat_add]
  show (s.mid.toNat + 1) % 2 ^ 64 = _
  omega

/-- The address of the entry in the middle. -/
theorem mid_entry (h : s.Within n) (table : Word) :
    table + s.mid * 8 = table + BitVec.ofNat 64 (8 * ((s.lo.toNat + s.hi.toNat) / 2)) := by
  have hentry : s.mid * 8 = BitVec.ofNat 64 (8 * s.mid.toNat) := by
    apply BitVec.eq_of_toNat_eq
    rw [BitVec.toNat_mul, BitVec.toNat_ofNat, Nat.mul_comm]
    rfl
  rw [hentry, h.mid_eq]

/-- **One turn** leaves a smaller part of the table. -/
theorem turn (h : s.Within n) (hgo : unwLookupGoesOn s = true)
    (hturn : unwLookupTurn m table relIp s = (.ok (), t)) :
    t.Within n ∧ t.hi.toNat - t.lo.toNat < s.hi.toNat - s.lo.toNat := by
  obtain ⟨hlo, hhi⟩ := h.mid_lt hgo
  have hsucc := h.succ_mid hgo
  obtain ⟨hle, hn, hsize⟩ := h
  obtain rfl : unwLookupNext m table relIp s = t := congrArg Prod.snd hturn
  unfold unwLookupNext
  by_cases hlt : relIp.slt (load32 m (table + s.mid * 8)) = true
  · rw [if_pos hlt]
    exact ⟨⟨hlo, Nat.le_trans (Nat.le_of_lt hhi) hn, hsize⟩, Nat.sub_lt_sub_right hlo hhi⟩
  · rw [if_neg hlt]
    refine ⟨⟨?_, hn, hsize⟩, ?_⟩
    · show (s.mid + 1).toNat ≤ s.hi.toNat
      omega
    · show s.hi.toNat - (s.mid + 1).toNat < _
      omega

end LookupVars.Within

/-- Every state that is reached has its part inside the table. -/
theorem turns_within {l : List LookupVars} (h : s.Within n)
    (hturns : Act.Turns unwLookupGoesOn (unwLookupTurn m table relIp) s l t) : t.Within n :=
  hturns.inv (LookupVars.Within n) (fun _ _ hs hgo hbody => (hs.turn hgo hbody).1) h

/-- **The loop on words** ends, and it ends where the loop on numbers does. The induction is on the
bound of the latter. -/
theorem unwLookupRun_eq (m : Mem) (table : Word) (relIp : BitVec 32) (k : ℕ) :
    ∀ (fuel : ℕ) {s : LookupVars}, s.Within n →
      s.hi.toNat - s.lo.toNat ≤ k → s.hi.toNat - s.lo.toNat < fuel →
      ∃ t, Act.loop unwLookupGoesOn (unwLookupTurn m table relIp) fuel s = (.ok (), t) ∧
        t.Within n ∧ t.hi.toNat = unwLookupLoop m table relIp k s.lo.toNat s.hi.toNat := by
  induction k with
  | zero =>
    intro fuel s h hk hfuel
    obtain ⟨fuel, rfl⟩ := Nat.exists_eq_succ_of_ne_zero (Nat.ne_of_gt (Nat.zero_lt_of_lt hfuel))
    have hend : unwLookupGoesOn s = false := by
      rw [Bool.eq_false_iff, Ne, unwLookupGoesOn_iff]
      omega
    exact ⟨s, Act.loop_succ_of_not fuel hend, h, rfl⟩
  | succ k ih =>
    intro fuel s h hk hfuel
    obtain ⟨fuel, rfl⟩ := Nat.exists_eq_succ_of_ne_zero (Nat.ne_of_gt (Nat.zero_lt_of_lt hfuel))
    unfold unwLookupLoop
    cases hgo : unwLookupGoesOn s with
    | false =>
      have hend : ¬s.lo.toNat < s.hi.toNat := by
        rw [← unwLookupGoesOn_iff, hgo]
        exact Bool.false_ne_true
      rw [if_neg hend]
      exact ⟨s, Act.loop_succ_of_not fuel hgo, h, rfl⟩
    | true =>
      have hturn : unwLookupTurn m table relIp s = (.ok (), unwLookupNext m table relIp s) := rfl
      obtain ⟨hnext, hless⟩ := h.turn hgo hturn
      obtain ⟨t, hrun, ht, hhi⟩ := ih fuel hnext (by omega) (by omega)
      refine ⟨t, ?_, ht, ?_⟩
      · rw [Act.loop_succ_of fuel hgo]
        exact hrun
      · -- the turn looks at the same entry, and goes the same way
        rw [hhi, if_pos (unwLookupGoesOn_iff.1 hgo), ← h.mid_entry table, ← h.mid_eq]
        unfold unwLookupNext
        by_cases hlt : relIp.slt (load32 m (table + s.mid * 8)) = true
        · rw [if_pos hlt, if_pos hlt]
        · rw [if_neg hlt, if_neg hlt]
          show unwLookupLoop m table relIp k (s.mid + 1).toNat s.hi.toNat = _
          rw [h.succ_mid hgo]

/-- **The function** ends, and returns what `unwLookup` says. -/
theorem unwLookupWords_eq {fuel : ℕ} (hfuel : tableSize.toNat / 8 < fuel) (s : LookupVars) :
    (unwLookupWords m table relIp tableSize fuel s).1 =
      .ok (unwLookup m table tableSize relIp) := by
  have hwithin := within_start tableSize
  have hlen : (tableSize / 8).toNat = tableSize.toNat / 8 := BitVec.toNat_udiv
  have hroom : (tableSize / 8).toNat - (0 : Word).toNat = tableSize.toNat / 8 := hlen
  obtain ⟨t, hrun, ht, hhi⟩ := unwLookupRun_eq m table relIp (tableSize.toNat / 8) fuel hwithin
    (Nat.le_of_eq hroom) (Nat.lt_of_le_of_lt (Nat.le_of_eq hroom) hfuel)
  have hresult : unwLookup m table tableSize relIp =
      if t.hi.toNat = 0 then none else some (table + BitVec.ofNat 64 (8 * (t.hi.toNat - 1))) := by
    have hend : t.hi.toNat = unwLookupLoop m table relIp (tableSize.toNat / 8) 0
        (tableSize / 8).toNat := hhi
    rw [hend, hlen]
    rfl
  unfold unwLookupWords
  rw [Act.modify_bind, Act.bind_of_ok hrun, Act.get_bind, hresult]
  by_cases hzero : t.hi.toNat = 0
  · have hnull : t.hi ≤ 0 := BitVec.le_def.2 (Nat.le_of_eq hzero)
    rw [if_pos hnull, if_pos hzero]
    rfl
  · have hsome : ¬t.hi ≤ 0 := fun hle => hzero (Nat.le_zero.1 (BitVec.le_def.1 hle))
    -- the entry before the one at `hi`
    have hentry : t.hi * 8 - 8 = BitVec.ofNat 64 (8 * (t.hi.toNat - 1)) := by
      have hhi_le := ht.hi_le
      have hsize := ht.size
      apply BitVec.eq_of_toNat_eq
      rw [BitVec.toNat_sub, BitVec.toNat_mul, BitVec.toNat_ofNat]
      show (2 ^ 64 - 8 + t.hi.toNat * 8 % 2 ^ 64) % 2 ^ 64 = _
      omega
    rw [if_neg hsome, if_neg hzero, ← hentry, BitVec.sub_eq_add_neg, BitVec.sub_eq_add_neg,
      BitVec.add_assoc]
    rfl

end Words

/-! ### What is found -/

section Found

variable {m : Mem} {table tableSize e : Word} {relIp : BitVec 32} {n : ℕ}

/-- `e->start_ip_offset` of the entry with this index. -/
def startIpOffset (m : Mem) (table : Word) (i : ℕ) : ℤ :=
  (load32 m (table + BitVec.ofNat 64 (8 * i))).toInt

/-- A table of `n` entries, sorted by their starts. -/
def SortedTable (m : Mem) (table : Word) (n : ℕ) : Prop :=
  ∀ i j, i ≤ j → j < n → startIpOffset m table i ≤ startIpOffset m table j

/-- `e` is the last of `n` entries that does not start behind the address. -/
def LastNotBehind (m : Mem) (table : Word) (n : ℕ) (relIp : BitVec 32) (e : Word) : Prop :=
  ∃ i < n, e = table + BitVec.ofNat 64 (8 * i) ∧ startIpOffset m table i ≤ relIp.toInt ∧
    ∀ j, i < j → j < n → relIp.toInt < startIpOffset m table j

/-- Whether the entry with this index starts behind the address. -/
def entryBehind (m : Mem) (table : Word) (relIp : BitVec 32) (i : ℕ) : Bool :=
  relIp.slt (load32 m (table + BitVec.ofNat 64 (8 * i)))

theorem entryBehind_iff {i : ℕ} :
    entryBehind m table relIp i = true ↔ relIp.toInt < startIpOffset m table i :=
  BitVec.slt_iff_toInt_lt

/-- The loop of the source is a binary search. -/
theorem unwLookupLoop_eq (m : Mem) (table : Word) (relIp : BitVec 32) (fuel : ℕ) :
    ∀ lo hi, unwLookupLoop m table relIp fuel lo hi =
      bisect (entryBehind m table relIp) fuel lo hi := by
  induction fuel with
  | zero => exact fun _ _ => rfl
  | succ fuel ih =>
    intro lo hi
    unfold unwLookupLoop bisect
    rw [ih, ih]
    rfl

theorem SortedTable.ascends (h : SortedTable m table n) :
    Ascends (entryBehind m table relIp) 0 n := by
  intro i j _ hij hj hi
  rw [entryBehind_iff] at hi ⊢
  exact lt_of_lt_of_le hi (h i j hij hj)

/-- **The lookup** goes to the entry before the first one that starts behind the address. -/
theorem SortedTable.boundary (h : SortedTable m table (tableSize.toNat / 8)) (relIp : BitVec 32) :
    ∃ r, Boundary (entryBehind m table relIp) 0 (tableSize.toNat / 8) r ∧
      unwLookup m table tableSize relIp =
        if r = 0 then none else some (table + BitVec.ofNat 64 (8 * (r - 1))) := by
  refine ⟨_, bisect_boundary (Nat.zero_le _) (Nat.le_refl _) h.ascends, ?_⟩
  rw [← unwLookupLoop_eq]
  rfl

/-- The entries before the boundary are those that do not start behind the address. -/
theorem not_behind_iff {r i : ℕ} (hr : Boundary (entryBehind m table relIp) 0 n r) (hi : i < n) :
    startIpOffset m table i ≤ relIp.toInt ↔ i < r := by
  rw [← not_lt, ← entryBehind_iff, hr.eq_true_iff (Nat.zero_le i) hi, not_le]

/-- There is no entry to return exactly if every entry is behind the address, -/
theorem boundary_eq_zero_iff {r : ℕ} (hr : Boundary (entryBehind m table relIp) 0 n r) :
    r = 0 ↔ ∀ i < n, relIp.toInt < startIpOffset m table i := by
  constructor
  · rintro rfl i hi
    exact entryBehind_iff.1 (hr.above i (Nat.zero_le i) hi)
  · intro hall
    by_contra hne
    have hlast : r - 1 < n := by have := hr.upper; omega
    have hle := (not_behind_iff hr hlast).2 (by omega)
    exact absurd (hall (r - 1) hlast) (not_lt.2 hle)

/-- and otherwise it is the last one that is not. -/
theorem lastNotBehind_iff {r : ℕ} (hr : Boundary (entryBehind m table relIp) 0 n r) :
    LastNotBehind m table n relIp e ↔
      r ≠ 0 ∧ e = table + BitVec.ofNat 64 (8 * (r - 1)) := by
  have hupper := hr.upper
  constructor
  · rintro ⟨i, hi, rfl, hle, hlast⟩
    have hir : i < r := (not_behind_iff hr hi).1 hle
    -- an entry between this one and the boundary would be behind the address
    obtain rfl : i = r - 1 := by
      by_contra hne
      have hbehind := hlast (r - 1) (by omega) (by omega)
      have hnot := (not_behind_iff hr (by omega : r - 1 < n)).2 (by omega)
      exact absurd hbehind (not_lt.2 hnot)
    exact ⟨Nat.ne_of_gt (Nat.zero_lt_of_lt hir), rfl⟩
  · rintro ⟨hne, rfl⟩
    refine ⟨r - 1, by omega, rfl, (not_behind_iff hr (by omega)).2 (by omega), fun j hj hjn => ?_⟩
    exact entryBehind_iff.1 (hr.above j (by omega) hjn)

/-- **The lookup is exact.** In every sorted table the loop ends and looks at entries of the table
only. There is no result exactly if every entry starts behind the address, and otherwise it is the
last entry that does not. -/
theorem unw_lookup_exact (m : Mem) (table tableSize : Word) (relIp : BitVec 32)
    (hsorted : SortedTable m table (tableSize.toNat / 8)) :
    (∀ fuel s, tableSize.toNat / 8 < fuel →
        (unwLookupWords m table relIp tableSize fuel s).1 =
          .ok (unwLookup m table tableSize relIp)) ∧
      (∀ l s, Act.Turns unwLookupGoesOn (unwLookupTurn m table relIp) ⟨0, tableSize / 8⟩ l s →
        unwLookupGoesOn s = true → s.mid.toNat < tableSize.toNat / 8) ∧
      (unwLookup m table tableSize relIp = none ↔
        ∀ i < tableSize.toNat / 8, relIp.toInt < startIpOffset m table i) ∧
      ∀ e, unwLookup m table tableSize relIp = some e ↔
        LastNotBehind m table (tableSize.toNat / 8) relIp e := by
  obtain ⟨r, hr, hlookup⟩ := hsorted.boundary relIp
  refine ⟨fun fuel s hfuel => unwLookupWords_eq hfuel s, fun l s hturns hgo => ?_, ?_, fun e => ?_⟩
  · have hs := turns_within (within_start tableSize) hturns
    exact Nat.lt_of_lt_of_le (hs.mid_lt hgo).2 hs.hi_le
  · rw [hlookup, ← boundary_eq_zero_iff hr]
    by_cases hzero : r = 0
    · simp [hzero]
    · simp [hzero]
  · rw [hlookup, lastNotBehind_iff hr]
    by_cases hzero : r = 0
    · simp [hzero]
    · simp [hzero, eq_comm]

end Found

/-- Three entries at `0x3000`, for `-16`, `16` and `16`. -/
def lookupMem : Mem := fun a =>
  ([0xf0, 0xff, 0xff, 0xff, 0x00, 0x00, 0x00, 0x00,
    0x10, 0x00, 0x00, 0x00, 0x20, 0x00, 0x00, 0x00,
    0x10, 0x00, 0x00, 0x00, 0x40, 0x00, 0x00, 0x00] : List Byte).getD (a - 0x3000).toNat 0

/-- The last of the two entries for `16`, and no entry before the first one. -/
theorem unw_lookup_exact_duplicate :
    unwLookup lookupMem 0x3000 24 16 = some 0x3010 ∧
      (unwLookupWords lookupMem 0x3000 16 24 4 ⟨0, 0⟩).1 = .ok (some 0x3010) ∧
      unwLookup lookupMem 0x3000 24 (-17) = none := by
  have hsorted : SortedTable lookupMem 0x3000 ((24 : Word).toNat / 8) := by
    intro i j hij hj
    have hall : ∀ j < 3, ∀ i ≤ j,
        startIpOffset lookupMem 0x3000 i ≤ startIpOffset lookupMem 0x3000 j := by decide +kernel
    exact hall j hj i hij
  obtain ⟨hruns, -, -, hsome⟩ := unw_lookup_exact lookupMem 0x3000 24 16 hsorted
  obtain ⟨-, -, hnone, -⟩ := unw_lookup_exact lookupMem 0x3000 24 (-17) hsorted
  have hfound : unwLookup lookupMem 0x3000 24 16 = some 0x3010 := by
    refine (hsome 0x3010).2 ⟨2, by decide, by decide, by decide +kernel, fun j hj hjn => ?_⟩
    have hjn' : j < 3 := hjn
    omega
  refine ⟨hfound, ?_, hnone.2 (by decide +kernel)⟩
  rw [hruns 4 ⟨0, 0⟩ (by decide), hfound]

end LibunwindKern
