import LibunwindKern.Dwarf.Reader

/-!
# How far a reader goes

A reader moves the address variable, and the addresses wrap. For the termination of the two
interpreters it matters that a read ends, and that it does not come back to a lower address.
`Onward x a` says both of the reader `x` at the address `a`.

The fixed-width readers only need room. The LEB128 readers go on to the first byte below 128,
however far that is, so they need such a byte (`LebEnds`). They shift by seven more with each byte,
and so by 70 with the eleventh (`LongLeb`).

* `dwarfReadUleb128_onward`, `dwarfReadSleb128_onward` and `dwarfReadEncodedPointer_onward`.
* `lebShifts_lt_iff`: the shift counts of the loop.
-/

namespace LibunwindKern

open CProg ByteMem Leb128

/-- One address does not come before another. -/
def NotBefore (a b : Word) : Prop := a.toNat ≤ b.toNat

instance : IsPreorder Word NotBefore where
  refl _ := Nat.le_refl _
  trans _ _ _ := Nat.le_trans

/-- The read ends, and it does not go back. -/
abbrev Onward {α : Type} (x : Reader α) (a : Word) : Prop := Act.EndsIn NotBefore x a

/-- From `a` on there is a byte that ends an encoding, before the addresses wrap. -/
def LebEnds (m : Mem) (a : Word) : Prop :=
  ∃ n, a.toNat + n + 1 < 2 ^ 64 ∧ (m (past a n)).toNat < 128

section

variable {m : Mem} {a : Word} {α : Type}

/-- A load of `n` bytes. -/
theorem onward_of_load {x : Reader α} {r : α} {n : ℕ} (h : x a = (.ok r, past a n))
    (hroom : a.toNat + n < 2 ^ 64) : Onward x a := by
  refine ⟨?_, ?_⟩
  · rw [h]
    exact nofun
  · rw [h]
    show a.toNat ≤ (past a n).toNat
    rw [toNat_past hroom]
    exact Nat.le_add_right _ _

/-! ### The LEB128 readers -/

/-- **The loop ends at the first byte below 128.** -/
theorem readLebGroups_ends {n : ℕ} (hlast : (m (past a n)).toNat < 128) :
    ∀ {fuel : ℕ} (val shift : Word), n < fuel →
      ∃ r k, k ≤ n ∧ readLebGroups m fuel val shift a = (.ok r, past a (k + 1)) := by
  induction n generalizing a with
  | zero =>
    intro fuel val shift hfuel
    obtain ⟨fuel, rfl⟩ := Nat.exists_eq_succ_of_ne_zero (Nat.ne_of_gt hfuel)
    rw [past_zero] at hlast
    refine ⟨(accumulate val shift (m a), shift + 7, m a), 0, Nat.le_refl _, ?_⟩
    exact readLebGroups_last fuel val shift (and_0x80_of_lt hlast)
  | succ n ih =>
    intro fuel val shift hfuel
    obtain ⟨fuel, rfl⟩ := Nat.exists_eq_succ_of_ne_zero (Nat.ne_of_gt (Nat.zero_lt_of_lt hfuel))
    by_cases hmore : m a &&& 0x80 = 0
    · exact ⟨_, 0, Nat.zero_le _, readLebGroups_last fuel val shift hmore⟩
    · rw [← past_succ] at hlast
      obtain ⟨r, k, hk, hrun⟩ := ih hlast (accumulate val shift (m a)) (shift + 7)
        (Nat.lt_of_succ_lt_succ hfuel)
      refine ⟨r, k + 1, Nat.succ_le_succ hk, ?_⟩
      rw [readLebGroups_more fuel val shift hmore, hrun, past_succ]

/-- The loop as the readers enter it. -/
theorem readLebGroups_of_lebEnds (h : LebEnds m a) :
    ∃ r k, a.toNat + (k + 1) < 2 ^ 64 ∧
      readLebGroups m (2 ^ 64) 0 0 a = (.ok r, past a (k + 1)) := by
  obtain ⟨n, hroom, hlast⟩ := h
  obtain ⟨r, k, hk, hrun⟩ := readLebGroups_ends hlast 0 0 (by omega : n < 2 ^ 64)
  exact ⟨r, k, by omega, hrun⟩

theorem readLebGroups_onward (h : LebEnds m a) : Onward (readLebGroups m (2 ^ 64) 0 0) a := by
  obtain ⟨r, k, hroom, hrun⟩ := readLebGroups_of_lebEnds h
  exact onward_of_load hrun hroom

/-- A terminated operand is read, and the reader is past it. -/
theorem dwarfReadUleb128_of_lebEnds (h : LebEnds m a) :
    ∃ val b, dwarfReadUleb128 m a = (.ok val, b) ∧ a.toNat < b.toNat := by
  obtain ⟨r, k, hroom, hrun⟩ := readLebGroups_of_lebEnds h
  refine ⟨r.1, past a (k + 1), ?_, by rw [toNat_past hroom]; omega⟩
  unfold dwarfReadUleb128
  rw [Act.bind_of_ok hrun, Act.pure_apply]

theorem dwarfReadUleb128_onward (h : LebEnds m a) : Onward (dwarfReadUleb128 m) a :=
  (readLebGroups_onward h).bind fun r _ _ => Act.EndsIn.pure r.1

theorem dwarfReadSleb128_onward (h : LebEnds m a) : Onward (dwarfReadSleb128 m) a := by
  refine (readLebGroups_onward h).bind fun r b _ => ?_
  split
  · exact Act.EndsIn.pure _
  · exact Act.EndsIn.pure _

/-! ### Shift counts -/

/-- The shifts of the loop of the LEB128 readers: each count with the byte that is shifted. -/
def lebShifts (m : Mem) : ℕ → Word → Word → List (Word × Byte)
  | 0, _, _ => []
  | fuel + 1, shift, a =>
    (shift, m a) :: if m a &&& 0x80 ≠ 0 then lebShifts m fuel (shift + 7) (a + 1) else []

/-- The value is made up of these shifts. -/
theorem readLebGroups_eq_foldl {fuel : ℕ} {val shift b : Word} {r : Word × Word × Byte}
    (h : readLebGroups m fuel val shift a = (.ok r, b)) :
    r.1 = (lebShifts m fuel shift a).foldl (fun val g => accumulate val g.1 g.2) val := by
  induction fuel generalizing val shift a with
  | zero => cases h
  | succ fuel ih =>
    rw [lebShifts, List.foldl_cons]
    by_cases hlast : m a &&& 0x80 = 0
    · rw [readLebGroups_last fuel val shift hlast] at h
      cases h
      rw [if_neg (not_not_intro hlast)]
      rfl
    · rw [readLebGroups_more fuel val shift hlast] at h
      rw [if_pos hlast, ih h]

/-- The encoding at `a` has more than ten bytes. -/
def LongLeb (m : Mem) (a : Word) : Prop := ∀ n < 10, 128 ≤ (m (past a n)).toNat

/-- The loop, with room for `k` more groups in the word. -/
theorem lebShifts_lt_iff_of_room (k : ℕ) (hk : k ≤ 10) :
    ∀ {fuel : ℕ} {shift a : Word}, shift.toNat = 70 - 7 * k → k < fuel →
      ((∀ g ∈ lebShifts m fuel shift a, g.1.toNat < 64) ↔ ∃ n < k, (m (past a n)).toNat < 128) := by
  induction k with
  | zero =>
    intro fuel shift a hshift hfuel
    obtain ⟨fuel, rfl⟩ := Nat.exists_eq_succ_of_ne_zero (Nat.ne_of_gt hfuel)
    refine iff_of_false (fun hall => ?_) fun ⟨n, hn, _⟩ => Nat.not_lt_zero n hn
    have hhead : shift.toNat < 64 := hall (shift, m a) List.mem_cons_self
    omega
  | succ k ih =>
    intro fuel shift a hshift hfuel
    obtain ⟨fuel, rfl⟩ := Nat.exists_eq_succ_of_ne_zero (Nat.ne_of_gt (Nat.zero_lt_of_lt hfuel))
    have hnext : (shift + 7).toNat = 70 - 7 * k := by
      rw [BitVec.toNat_add]
      show (shift.toNat + 7) % 2 ^ 64 = _
      omega
    have hinside : (shift, m a).1.toNat < 64 := by
      show shift.toNat < 64
      omega
    rw [lebShifts, List.forall_mem_cons]
    by_cases hbyte : (m a).toNat < 128
    · -- the last byte
      rw [if_neg (not_not.mpr (and_0x80_of_lt hbyte))]
      refine iff_of_true ⟨hinside, by simp⟩ ⟨0, Nat.succ_pos k, ?_⟩
      rwa [past_zero]
    · rw [if_pos (and_0x80_of_le (Nat.le_of_not_lt hbyte)),
        ih (by omega) hnext (Nat.lt_of_succ_lt_succ hfuel)]
      constructor
      · rintro ⟨-, n, hn, hlast⟩
        rw [past_succ] at hlast
        exact ⟨n + 1, Nat.succ_lt_succ hn, hlast⟩
      · rintro ⟨n, hn, hlast⟩
        cases n with
        | zero =>
          rw [past_zero] at hlast
          exact absurd hlast hbyte
        | succ n =>
          rw [← past_succ] at hlast
          exact ⟨hinside, n, Nat.lt_of_succ_lt_succ hn, hlast⟩

/-- **The shift counts** stay inside the word unless the encoding has more than ten bytes. -/
theorem lebShifts_lt_iff : (∀ g ∈ lebShifts m (2 ^ 64) 0 a, g.1.toNat < 64) ↔ ¬LongLeb m a := by
  rw [lebShifts_lt_iff_of_room 10 (Nat.le_refl _) rfl (by decide)]
  unfold LongLeb
  simp only [not_forall, Nat.not_le, exists_prop]

/-! ### Encoded pointers -/

/-- The format of an encoded pointer is LEB128. -/
def LebFormat (encoding : Byte) : Prop :=
  encoding &&& dwEhPeFormatMask = dwEhPeUleb128 ∨ encoding &&& dwEhPeFormatMask = dwEhPeSleb128

theorem readEncodedFormat_onward {format : Byte} (hroom : a.toNat + 8 < 2 ^ 64)
    (hleb : format = dwEhPeUleb128 ∨ format = dwEhPeSleb128 → LebEnds m a) :
    Onward (readEncodedFormat m format) a := by
  revert hleb
  refine readEncodedFormat_cases m (P := fun format x =>
    (format = dwEhPeUleb128 ∨ format = dwEhPeSleb128 → LebEnds m a) → Onward x a)
    ?_ ?_ ?_ ?_ ?_ ?_ ?_ ?_ ?_ ?_ format
  · exact fun _ => onward_of_load (n := 8) rfl hroom
  · exact fun hleb => dwarfReadUleb128_onward (hleb (Or.inl rfl))
  · exact fun _ => (onward_of_load (n := 2) rfl (by omega)).bind fun _ _ _ => Act.EndsIn.pure _
  · exact fun _ => (onward_of_load (n := 4) rfl (by omega)).bind fun _ _ _ => Act.EndsIn.pure _
  · exact fun _ => onward_of_load (n := 8) rfl hroom
  · exact fun hleb => dwarfReadUleb128_onward (hleb (Or.inr rfl))
  · exact fun _ => onward_of_load (n := 2) rfl (by omega)
  · exact fun _ => onward_of_load (n := 4) rfl (by omega)
  · exact fun _ => onward_of_load (n := 8) rfl hroom
  · exact fun _ _ => Act.EndsIn.fail _

/-- Rounding up to the next multiple of eight goes on by less than eight. -/
theorem toNat_align (h : a.toNat + 7 < 2 ^ 64) :
    a.toNat ≤ ((a + 7) &&& (-8#64)).toNat ∧ ((a + 7) &&& (-8#64)).toNat ≤ a.toNat + 7 := by
  have hsum : (a + 7).toNat = a.toNat + 7 := by
    rw [BitVec.toNat_add]
    exact Nat.mod_eq_of_lt h
  have hmask : ((a + 7) &&& (-8#64)).toNat = (a + 7).toNat / 2 ^ 3 * 2 ^ 3 := toNat_and_not_low _ 3
  rw [hmask, hsum]
  omega

/-- **An encoded pointer.** The alignment and the widest format together take 15 bytes. -/
theorem dwarfReadEncodedPointer_onward {encoding : Byte} {pi : ProcInfo}
    (hroom : a.toNat + 15 < 2 ^ 64) (hleb : LebFormat encoding → LebEnds m a) :
    Onward (dwarfReadEncodedPointer m encoding pi) a := by
  refine Act.EndsIn.bind (onward_of_load (n := 0) (r := a) (by rw [past_zero]; rfl) (by omega))
    fun initialAddr b hget => ?_
  cases hget
  split
  · exact Act.EndsIn.pure _
  split
  · -- the address is rounded up before the read
    obtain ⟨hge, hle⟩ := toNat_align (a := a) (by omega)
    refine ⟨nofun, ?_⟩
    show a.toNat ≤ (past ((a + 7) &&& (-8#64)) 8).toNat
    rw [toNat_past (by omega)]
    omega
  · refine (readEncodedFormat_onward (by omega) hleb).bind fun val b _ => ?_
    split
    · exact Act.EndsIn.pure _
    refine Act.EndsIn.bind (Act.EndsIn.lift ?_) fun val b _ => ?_
    · unfold applyEncoding
      split_ifs <;> exact nofun
    · split
      · exact Act.EndsIn.pure _
      · exact Act.EndsIn.pure _

end

end LibunwindKern
