import LibunwindKern.Dwarf.StepOutcome
import LibunwindKern.X86.Step

/-!
# What a positive result of `unw_step` means

The loops over frames stop when `unw_step` does not return a positive value, so a
positive result has to mean that there is a frame: a return address that is not 0, and a
frame other than the one before the step (`StepContract`).

The second half always holds. The first half fails at the end of a stack, because
`unw_step` looks for the end in the location of `RBP` only. `EndOfStack` lists the frames
at which this happens, and `unwStep_contract_iff` says that there are no others.
-/

namespace LibunwindKern

open CProg ByteMem Unw

/-- **The return contract of `unw_step`.** A positive result comes with a return address
and with a frame that is not the old one. -/
def StepContract (s : St) (run : Res UnwError ℕ × St) : Prop :=
  ∀ n, run.1 = .ok n → 0 < n →
    run.2.c.ip ≠ 0 ∧ ¬(run.2.c.ip = s.c.ip ∧ run.2.c.cfa = s.c.cfa)

/-- The state in which `unw_step` calls `dwarf_step`. -/
def arm (s : St) : St := { s with c := armed s.c }

/-- The state in which the fallback sets its save locations. -/
def validated (s : St) : St := { s with c := { s.c with validate := true } }

/-- The return-address column has no location, or the word at its location is 0. -/
def NoReturnAddress (v : Validator) (m : Mem) (s : St) : Prop :=
  ∃ h : s.c.retAddrColumn.toNat < dwarfNumPreservedRegs,
    s.c.loc ⟨_, h⟩ = 0 ∨ (accessMem v m s.c.validate (s.c.loc ⟨_, h⟩) s.lga).1 = .ok 0

/-- The end of a stack at a frame whose `RBP` still has a location. -/
inductive EndOfStack (k : Kernel) (v : Validator) (m : Mem) (fuel : ℕ) (s : St) : Prop
  /-- A frame with unwind info: the rules of its row leave no return address. -/
  | row {sr : StateRecord} {cfa : Word} {s₁ s₂ s₃ : St}
      (row : findRow k m fuel (arm s) = (.ok sr, s₁))
      (evaluated : evalCfa v m fuel sr.rsCurrent s₁ = (.ok cfa, s₂))
      (locs : applyRules v m fuel sr.rsCurrent cfa (List.finRange dwarfNumPreservedRegs) s₂ =
        (.ok (), s₃))
      (rbp : s₃.c.loc RBP ≠ 0) (ret : NoReturnAddress v m (withCfa s₃ cfa))
      (accepted : (finishFrame sr.rsCurrent s.c.ip s.c.cfa (withIp (withCfa s₃ cfa) 0)).1 = .ok ())
  /-- A frame without unwind info: the word in the slot of its return address is 0. -/
  | fallback {t u : St} {ret : Except UnwError ℕ}
      (info : dwarfStep k v m fuel (arm s) = (.err .enoinfo, t))
      (locs : fallbackFrame v m (validated t) = (.ok (some ret), u))
      (rbp : u.c.loc RBP ≠ 0) (rip : u.c.loc RIP ≠ 0)
      (zero : (accessMem v m u.c.validate (u.c.loc RIP) u.lga).1 = .ok 0)
      (accepted : ¬(s.c.ip = 0 ∧ u.c.cfa = s.c.cfa))

/-! ### The end of a frame with unwind info -/

section

variable {k : Kernel} {v : Validator} {m : Mem} {fuel : ℕ} {s t u : St}

/-- Without a return address, the address that is read is 0. -/
theorem readReturnAddress_zero_iff :
    NoReturnAddress v m s ↔ ∃ g, readReturnAddress v m s = (.ok 0, { s with lga := g }) := by
  unfold readReturnAddress
  rw [Act.get_bind]
  constructor
  · rintro ⟨h, hret⟩
    rw [dif_pos h]
    -- a null location reads as 0, and so may a word in memory
    by_cases hloc : s.c.loc ⟨_, h⟩ = 0
    · rw [if_pos hloc]
      exact ⟨s.lga, rfl⟩
    · rw [if_neg hloc, read_eq, dwarfGet_of_ne _ _ _ hloc, hret.resolve_left hloc]
      exact ⟨_, rfl⟩
  · rintro ⟨g, hret⟩
    by_cases h : s.c.retAddrColumn.toNat < dwarfNumPreservedRegs
    · rw [dif_pos h] at hret
      refine ⟨h, ?_⟩
      by_cases hloc : s.c.loc ⟨_, h⟩ = 0
      · exact Or.inl hloc
      · rw [if_neg hloc, read_eq, dwarfGet_of_ne _ _ _ hloc] at hret
        exact Or.inr (congrArg Prod.fst hret)
    · rw [dif_neg h] at hret
      cases hret

/-- Reading the return address leaves the cursor alone. -/
theorem readReturnAddress_cursor {ip : Word} (h : readReturnAddress v m s = (.ok ip, t)) :
    ∃ g, t = { s with lga := g } := by
  unfold readReturnAddress at h
  rw [Act.get_bind] at h
  split at h
  · split at h
    · cases h
      exact ⟨s.lga, rfl⟩
    · rw [read_eq] at h
      exact ⟨_, (congrArg Prod.snd h).symm⟩
  · cases h

/-- The test of a new frame looks at the cursor only. -/
theorem finishFrame_lga (rs : RegState) (prevIp prevCfa : Word) (g : Lga) :
    (finishFrame rs prevIp prevCfa { s with lga := g }).1 = (finishFrame rs prevIp prevCfa s).1 := by
  unfold finishFrame tdepStashFrame
  rw [Act.get_bind, Act.get_bind]
  split_ifs with hsame hstash
  · rfl
  · rw [Act.get_bind, Act.get_bind]
    split_ifs <;> rfl
  · rfl

/-- The frames with unwind info at which `dwarf_step` succeeds without a return address
are the ends of the stack. -/
theorem dwarfStep_zero_iff :
    (∃ n t, dwarfStep k v m fuel (arm s) = (.ok n, t) ∧ t.c.loc RBP ≠ 0 ∧ t.c.ip = 0) ↔
      ∃ sr cfa s₁ s₂ s₃, findRow k m fuel (arm s) = (.ok sr, s₁) ∧
        evalCfa v m fuel sr.rsCurrent s₁ = (.ok cfa, s₂) ∧
        applyRules v m fuel sr.rsCurrent cfa (List.finRange dwarfNumPreservedRegs) s₂ =
          (.ok (), s₃) ∧ s₃.c.loc RBP ≠ 0 ∧ NoReturnAddress v m (withCfa s₃ cfa) ∧
        (finishFrame sr.rsCurrent s.c.ip s.c.cfa (withIp (withCfa s₃ cfa) 0)).1 = .ok () := by
  constructor
  · rintro ⟨n, t, hstep, hrbp, hip⟩
    obtain ⟨-, sr, cfa, ip, s₁, s₂, s₃, s₄, s₅, hrec, hframe⟩ := dwarfStep_eq_ok hstep
    have hip' : ip = 0 := (congrArg Prod.fst hframe).symm.trans hip
    have hloc : t.c.loc = s₃.c.loc := congrArg (fun f => f.2.2) hframe
    subst hip'
    obtain ⟨g, rfl⟩ := readReturnAddress_cursor hrec.ret
    refine ⟨sr, cfa, s₁, s₂, s₃, hrec.row, hrec.evaluated, hrec.locs, hloc ▸ hrbp, ?_, ?_⟩
    · exact readReturnAddress_zero_iff.mpr ⟨g, hrec.ret⟩
    · rw [← finishFrame_lga _ _ _ g]
      exact congrArg Prod.fst hrec.accepted
  · rintro ⟨sr, cfa, s₁, s₂, s₃, hrow, hcfa, hlocs, hrbp, hret, hok⟩
    obtain ⟨g, hread⟩ := readReturnAddress_zero_iff.mp hret
    rw [← finishFrame_lga _ _ _ g] at hok
    -- with these parts the step succeeds
    have hrec : StepsTo k v m fuel (arm s) sr cfa 0 s₁ s₂ s₃ _ _ :=
      ⟨hrow, hcfa, hlocs, hread, Prod.ext hok rfl⟩
    obtain ⟨t, hstep⟩ := dwarfStep_of_stepsTo hrec
    -- the step's own record is this one, because a call has one outcome
    obtain ⟨-, sr', cfa', ip', s₁', s₂', s₃', s₄', s₅', hrec', hframe⟩ := dwarfStep_eq_ok hstep
    obtain ⟨hsr, rfl⟩ := Prod.mk.inj (hrec'.row.symm.trans hrow)
    cases hsr
    obtain ⟨hcfaeq, rfl⟩ := Prod.mk.inj (hrec'.evaluated.symm.trans hcfa)
    cases hcfaeq
    obtain ⟨-, rfl⟩ := Prod.mk.inj (hrec'.locs.symm.trans hlocs)
    obtain ⟨hipeq, -⟩ := Prod.mk.inj (hrec'.ret.symm.trans hread)
    cases hipeq
    have hloc : t.c.loc = s₃'.c.loc := congrArg (fun f => f.2.2) hframe
    exact ⟨1, t, hstep, hloc ▸ hrbp, congrArg Prod.fst hframe⟩

/-- A step with unwind info always moves to another frame. -/
theorem dwarfStep_changes {n : ℕ} (h : dwarfStep k v m fuel (arm s) = (.ok n, t)) :
    ¬(t.c.ip = s.c.ip ∧ t.c.cfa = s.c.cfa) := by
  obtain ⟨-, sr, cfa, ip, s₁, s₂, s₃, s₄, s₅, hrec, hframe⟩ := dwarfStep_eq_ok h
  obtain ⟨g, rfl⟩ := readReturnAddress_cursor hrec.ret
  have hne := finishFrame_changes hrec.accepted
  have hip : t.c.ip = ip := congrArg Prod.fst hframe
  have hcfa : t.c.cfa = cfa := congrArg (fun f => f.2.1) hframe
  rw [hip, hcfa]
  exact hne

/-! ### The end of a frame without unwind info -/

/-- The save location of the return address in a signal frame. A system call has one,
because it was read. -/
theorem unwHandleSignalFrame_ret {n : ℕ} (h : unwHandleSignalFrame v m s = (.ok n, u)) :
    n = 0 ∨ u.c.loc RIP ≠ 0 := by
  unfold unwHandleSignalFrame at h
  rw [Act.get_bind] at h
  cases hf : s.c.sigcontextFormat with
  | none => rw [hf] at h; cases h
  | linuxRtSigframe => rw [hf] at h; cases h
  | freebsdSigframe =>
    rw [hf] at h
    simp only [setCursor_bind] at h
    obtain ⟨cfa, s₂, -, h⟩ := Act.bind_eq_ok h
    cases h
    exact Or.inl rfl
  | freebsdSyscall =>
    rw [hf] at h
    simp only [setLoc_bind] at h
    obtain ⟨ip, s₃, hip, h⟩ := Act.bind_eq_ok h
    obtain ⟨g, hget, rfl⟩ := read_eq_ok hip
    cases h
    refine Or.inr (fun hcfa => ?_)
    -- a null location cannot be read
    have hnull : s.c.cfa = 0 := hcfa
    rw [hnull, dwarfGet_null] at hget
    cases hget

/-- The variable `ret` is positive before the return address is read only for a system
call, whose return address has a location. -/
theorem fallbackFrame_ret {n : ℕ} (h : fallbackFrame v m s = (.ok (some (.ok n)), u)) :
    n = 0 ∨ u.c.loc RIP ≠ 0 := by
  unfold fallbackFrame at h
  obtain ⟨format, s₁, -, h⟩ := Act.bind_eq_ok h
  split at h
  · obtain ⟨ret, s₂, hret, h⟩ := Act.bind_eq_ok h
    cases ret with
    | error e => cases h
    | ok n' =>
      cases h
      obtain ⟨a, ha, hrun⟩ | ⟨e, he, -⟩ := Act.attempt_eq_ok hret
      · cases ha
        exact unwHandleSignalFrame_ret hrun
      · cases he
  · -- no signal frame: the chain of frame pointers is followed
    obtain ⟨plt, s₂, -, h⟩ := Act.bind_eq_ok h
    rw [Act.get_bind] at h
    split at h
    · cases h
    · split at h
      · cases h
      · obtain ⟨ret, s₃, hchain, h⟩ := Act.bind_eq_ok h
        cases h
        left
        unfold frameChain at hchain
        rw [Act.get_bind] at hchain
        obtain ⟨rbp, s₄, -, hchain⟩ := Act.bind_eq_ok hchain
        split at hchain
        · cases hchain
          rfl
        · unfold guessFrame at hchain
          rw [Act.get_bind] at hchain
          obtain ⟨r, s₅, -, hchain⟩ := Act.bind_eq_ok hchain
          obtain ⟨-, s₆, -, hchain⟩ := Act.bind_eq_ok hchain
          obtain ⟨prev, s₇, -, hchain⟩ := Act.bind_eq_ok hchain
          cases prev with
          | error e => cases hchain
          | ok prevRbp =>
            obtain ⟨-, s₈, -, hchain⟩ := Act.bind_eq_ok hchain
            cases r with
            | error e => cases hchain
            | ok _ =>
              cases hchain
              rfl

variable {prevIp prevCfa : Word} {ret : Except UnwError ℕ}

theorem fallbackReturn_of_read {ip : Word} {g : Lga} (ret : Except UnwError ℕ) (hrip : s.c.loc RIP ≠ 0)
    (hread : accessMem v m s.c.validate (s.c.loc RIP) s.lga = (.ok ip, g)) :
    fallbackReturn v m ret s = (.ok (.ok 1), { s with c := { s.c with ip := ip }, lga := g }) := by
  have hget : dwarfGet v m s.c (s.c.loc RIP) s.lga = (.ok ip, g) := by
    rw [dwarfGet_of_ne _ _ _ hrip, hread]
  unfold fallbackReturn
  rw [Act.get_bind, if_pos hrip, Act.bind_of_ok (read_of_ok hget)]
  rfl

theorem fallbackReturn_eq_ok {r : Except UnwError ℕ} (h : fallbackReturn v m ret s = (.ok r, t)) :
    (s.c.loc RIP ≠ 0 ∧ r = .ok 1 ∧ ∃ ip g,
      accessMem v m s.c.validate (s.c.loc RIP) s.lga = (.ok ip, g) ∧
        t = { s with c := { s.c with ip := ip }, lga := g }) ∨
      (s.c.loc RIP = 0 ∧ r = ret ∧ t = { s with c := { s.c with ip := 0 } }) := by
  unfold fallbackReturn at h
  rw [Act.get_bind] at h
  by_cases hrip : s.c.loc RIP = 0
  · rw [if_neg (not_not.mpr hrip)] at h
    cases h
    -- no location: `ret` is left as it is
    exact Or.inr ⟨hrip, rfl, rfl⟩
  · rw [if_pos hrip] at h
    obtain ⟨ip, s₁, hread, h⟩ := Act.bind_eq_ok h
    obtain ⟨g, hget, rfl⟩ := read_eq_ok hread
    rw [dwarfGet_of_ne _ _ _ hrip] at hget
    cases h
    exact Or.inl ⟨hrip, rfl, ip, g, hget, rfl⟩

/-- A fallback frame with a return address, and a new one, is a success. -/
theorem fallbackFinish_of_read {ip : Word} {g : Lga} (ret : Except UnwError ℕ)
    (hrbp : u.c.loc RBP ≠ 0) (hrip : u.c.loc RIP ≠ 0)
    (hread : accessMem v m u.c.validate (u.c.loc RIP) u.lga = (.ok ip, g))
    (hnew : ¬(ip = prevIp ∧ u.c.cfa = prevCfa)) :
    fallbackFinish v m prevIp prevCfa ret u =
      (.ok 1, { u with c := { u.c with retAddrColumn := 16, ip := ip }, lga := g }) := by
  have hret := fallbackReturn_of_read (s := { u with c := { u.c with retAddrColumn := 16 } }) ret
    hrip hread
  unfold fallbackFinish
  rw [setCursor_bind, Act.get_bind, if_neg hrbp, Act.bind_of_ok hret, Act.get_bind, if_neg hnew]
  rfl

/-- **A positive result of the fallback** comes from a return address that was read
through its location. -/
theorem fallbackFinish_pos {n : ℕ} (hpos : 0 < n) (hret : ∀ n, ret = .ok n → n = 0 ∨ u.c.loc RIP ≠ 0)
    (h : fallbackFinish v m prevIp prevCfa ret u = (.ok n, t)) :
    u.c.loc RBP ≠ 0 ∧ u.c.loc RIP ≠ 0 ∧ ∃ ip g,
      accessMem v m u.c.validate (u.c.loc RIP) u.lga = (.ok ip, g) ∧
        ¬(ip = prevIp ∧ u.c.cfa = prevCfa) ∧
        t = { u with c := { u.c with retAddrColumn := 16, ip := ip }, lga := g } := by
  unfold fallbackFinish at h
  rw [setCursor_bind, Act.get_bind] at h
  by_cases hrbp : u.c.loc RBP = 0
  · rw [if_pos hrbp] at h
    cases h
    exact absurd hpos (Nat.lt_irrefl 0)
  · rw [if_neg hrbp] at h
    obtain ⟨r, s₁, hr, h⟩ := Act.bind_eq_ok h
    rw [Act.get_bind] at h
    split at h
    · cases h
    · rename_i hnew
      obtain ⟨hrip, rfl, ip, g, hread, rfl⟩ | ⟨hrip, rfl, rfl⟩ := fallbackReturn_eq_ok hr
      · cases h
        exact ⟨hrbp, hrip, ip, g, hread, hnew, rfl⟩
      · -- the variable `ret` is what it was, which is not positive here
        cases r with
        | error e => cases h
        | ok n' =>
          cases h
          obtain rfl | hne := hret n rfl
          · exact absurd hpos (Nat.lt_irrefl 0)
          · exact absurd hrip hne

/-- The fallback is the frame it sets up, and the end that reads it. -/
theorem stepFallback_of_frame {r : Except UnwError ℕ}
    (h : fallbackFrame v m (validated s) = (.ok (some r), u)) :
    stepFallback v m s = fallbackFinish v m s.c.ip s.c.cfa r u := by
  unfold stepFallback
  rw [Act.get_bind, setCursor_bind]
  change (fallbackFrame v m >>= _) (validated s) = _
  rw [Act.bind_of_ok h]

/-- A positive result of the fallback has a frame. -/
theorem stepFallback_pos {n : ℕ} (hpos : 0 < n) (h : stepFallback v m s = (.ok n, t)) :
    ∃ r u, fallbackFrame v m (validated s) = (.ok (some r), u) ∧
      fallbackFinish v m s.c.ip s.c.cfa r u = (.ok n, t) := by
  unfold stepFallback at h
  rw [Act.get_bind, setCursor_bind] at h
  obtain ⟨r, u, hframe, h⟩ := Act.bind_eq_ok h
  cases r with
  | none =>
    cases h
    exact absurd hpos (Nat.lt_irrefl 0)
  | some r => exact ⟨r, u, hframe, h⟩

/-! ### The step -/

/-- The state after `dwarf_step`, with the caller's setting of `validate`. -/
def disarm (s t : St) : St := { t with c := { t.c with validate := s.c.validate } }

/-- `unw_step` after a `dwarf_step` that has found unwind info. -/
theorem unwStep_of_ok {n : ℕ} (h : dwarfStep k v m fuel (arm s) = (.ok n, t)) :
    unwStep k v m fuel s =
      if t.c.loc RBP = 0 then (.ok 0, withIp (disarm s t) 0) else (.ok n, disarm s t) := by
  unfold unwStep
  rw [Act.get_bind, setCursor_bind]
  change (Act.attempt (dwarfStep k v m fuel) >>= _) (arm s) = _
  rw [Act.bind_of_ok (Act.attempt_of_ok h), setCursor_bind]
  change (if t.c.loc RBP = 0 then _ else _ : Unw ℕ) (disarm s t) = _
  by_cases hrbp : t.c.loc RBP = 0
  · rw [if_pos hrbp, if_pos hrbp]
    rfl
  · rw [if_neg hrbp, if_neg hrbp]
    rfl

/-- `unw_step` after a `dwarf_step` that has found none. -/
theorem unwStep_of_enoinfo (h : dwarfStep k v m fuel (arm s) = (.err .enoinfo, t)) :
    unwStep k v m fuel s = stepFallback v m (disarm s t) := by
  unfold unwStep
  rw [Act.get_bind, setCursor_bind]
  change (Act.attempt (dwarfStep k v m fuel) >>= _) (arm s) = _
  rw [Act.bind_of_ok (Act.attempt_of_err h), setCursor_bind]
  rfl

/-- A result of `unw_step` that is not negative comes from one of the two. -/
theorem unwStep_eq_ok {n : ℕ} (h : unwStep k v m fuel s = (.ok n, u)) :
    (∃ n t, dwarfStep k v m fuel (arm s) = (.ok n, t)) ∨
      ∃ t, dwarfStep k v m fuel (arm s) = (.err .enoinfo, t) := by
  unfold unwStep at h
  rw [Act.get_bind, setCursor_bind] at h
  obtain ⟨ret, t, hret, h⟩ := Act.bind_eq_ok h
  obtain ⟨n, rfl, hok⟩ | ⟨e, rfl, herr⟩ := Act.attempt_eq_ok hret
  · exact Or.inl ⟨n, t, hok⟩
  · rw [setCursor_bind] at h
    by_cases he : e = .enoinfo
    · subst he
      exact Or.inr ⟨t, herr⟩
    · change (if e = .enoinfo then _ else _ : Unw ℕ) _ = _ at h
      rw [if_neg he] at h
      cases h

/-- **When the contract holds.** A positive result of `unw_step` comes with a return
address and a new frame exactly when the step is not one of the ends of a stack. -/
theorem unwStep_contract_iff (k : Kernel) (v : Validator) (m : Mem) (fuel : ℕ) (s : St) :
    StepContract s (unwStep k v m fuel s) ↔ ¬EndOfStack k v m fuel s := by
  constructor
  · intro hcontract hend
    cases hend with
    | row hrow hcfa hlocs hrbp hret hok =>
      obtain ⟨n, t, hstep, hloc, hip⟩ :=
        dwarfStep_zero_iff.mpr ⟨_, _, _, _, _, hrow, hcfa, hlocs, hrbp, hret, hok⟩
      obtain ⟨rfl, -⟩ := dwarfStep_eq_ok hstep
      have hrun := unwStep_of_ok hstep
      rw [if_neg hloc] at hrun
      rw [hrun] at hcontract
      exact (hcontract 1 rfl Nat.one_pos).1 hip
    | @fallback t u ret hinfo hlocs hrbp hrip hzero hok =>
      -- the failed lookup has left the frame, so the comparison is with the old one
      have hframe := dwarfStep_of_enoinfo hinfo
      have hip : t.c.ip = s.c.ip := congrArg Prod.fst hframe
      have hcfa : t.c.cfa = s.c.cfa := congrArg (fun f => f.2.1) hframe
      have hnew : ¬((0 : Word) = (disarm s t).c.ip ∧ u.c.cfa = (disarm s t).c.cfa) := by
        rintro ⟨h0, hc⟩
        exact hok ⟨hip ▸ h0.symm, hcfa ▸ hc⟩
      have hfinish := fallbackFinish_of_read ret hrbp hrip (Prod.ext hzero rfl) hnew
      have hrun := unwStep_of_enoinfo hinfo
      rw [stepFallback_of_frame (s := disarm s t) hlocs, hfinish] at hrun
      rw [hrun] at hcontract
      exact (hcontract 1 rfl Nat.one_pos).1 rfl
  · intro hend n hok hpos
    rcases hrun : unwStep k v m fuel s with ⟨r, u⟩
    rw [hrun] at hok
    cases hok
    obtain ⟨n', t, hstep⟩ | ⟨t, hinfo⟩ := unwStep_eq_ok hrun
    · have hcases := unwStep_of_ok hstep
      by_cases hrbp : t.c.loc RBP = 0
      · rw [if_pos hrbp, hrun] at hcases
        cases hcases
        exact absurd hpos (Nat.lt_irrefl 0)
      · rw [if_neg hrbp, hrun] at hcases
        cases hcases
        -- a step with unwind info never stays where it is
        have hnew := dwarfStep_changes hstep
        refine ⟨fun hzero => hend ?_, hnew⟩
        obtain ⟨sr, cfa, s₁, s₂, s₃, hrow, hcfa, hlocs, hloc, hret, hfin⟩ :=
          dwarfStep_zero_iff.mp ⟨n, t, hstep, hrbp, hzero⟩
        exact .row hrow hcfa hlocs hloc hret hfin
    · rw [unwStep_of_enoinfo hinfo] at hrun
      obtain ⟨ret, w, hlocs, hfinish⟩ := stepFallback_pos hpos hrun
      have hret : ∀ n, ret = .ok n → n = 0 ∨ w.c.loc RIP ≠ 0 := by
        rintro n rfl
        exact fallbackFrame_ret hlocs
      obtain ⟨hrbp, hrip, ip, g, hread, hnew, rfl⟩ := fallbackFinish_pos hpos hret hfinish
      have hframe := dwarfStep_of_enoinfo hinfo
      have hip : (disarm s t).c.ip = s.c.ip := congrArg Prod.fst hframe
      have hcfa : (disarm s t).c.cfa = s.c.cfa := congrArg (fun f => f.2.1) hframe
      rw [hip, hcfa] at hnew
      refine ⟨fun hzero => hend ?_, hnew⟩
      have hzero' : ip = 0 := hzero
      subst hzero'
      refine .fallback hinfo hlocs hrbp hrip (by rw [hread]) ?_
      rintro ⟨h0, hc⟩
      exact hnew ⟨h0.symm, hc⟩

end

/-! ### The bottom of a kernel stack -/

/-- A system without unwind info. -/
def bareKernel : Kernel where
  linkerFiles := []
  linkerDdbSearchSymbol _ := none
  linkerDdbSymbolValues _ := none
  memValidateFunc _ _ := true
  dynInfoList := []

/-- The memory of a stack whose last frame has the frame pointer `0x20100`, a zero saved
frame pointer and a zero return address. -/
def bottomMem : Mem := store64 (fun _ => 0) 0x30000 0x20100

/-- The cursor at that frame. The value of `RBP` is saved at `0x30000`. -/
def bottomCursor : Cursor where
  cfa := 0x20000
  ip := 0x10000
  argsSize := 0
  retAddrColumn := 16
  ehArgs _ := 0
  ehValidMask := 0
  loc := Function.update (fun _ => 0) RBP 0x30000
  stashFrames := false
  usePrevInstr := true
  piValid := false
  piIsDynamic := false
  pi := ProcInfo.zero
  frameInfo := ⟨0, .other, false, false, 0, 0, 0⟩
  sigcontextFormat := .none
  sigcontextAddr := 0
  validate := true
  uc := 0x40000

def bottomState : St := ⟨bottomCursor, Lga.empty, ⟨0, 0⟩, ⟨0, 0⟩, []⟩

/-- The step from the last frame returns 1 and leaves the instruction pointer 0. -/
theorem unwStep_past_bottom :
    (unwStep bareKernel msyncValidate bottomMem 0 bottomState).1 = .ok 1 ∧
      (unwStep bareKernel msyncValidate bottomMem 0 bottomState).2.c.ip = 0 ∧
      ¬StepContract bottomState (unwStep bareKernel msyncValidate bottomMem 0 bottomState) := by
  have hok : (unwStep bareKernel msyncValidate bottomMem 0 bottomState).1 = .ok 1 := by
    decide +kernel
  have hip : (unwStep bareKernel msyncValidate bottomMem 0 bottomState).2.c.ip = 0 := by
    decide +kernel
  exact ⟨hok, hip, fun h => (h 1 hok Nat.one_pos).1 hip⟩

end LibunwindKern
