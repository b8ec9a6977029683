import LibunwindKern.X86.StepResult

/-!
# Frames without unwind info

On x86-64 the return address of a frame is just below its CFA. `FallbackContract` says
so of the frames that `unw_step` makes up when there is no unwind info, and that a guess
which is rejected ends the walk with the CFA left alone.

The validator is the one the kernel installs, which refuses the first page only, so
whether a word can be read depends on its address (`readable`). The functions of the
fallback are described one by one: `unwIsSignalFrame_eq`, `isPltEntry_eq`,
`frameChain_eq`. The PLT case meets the contract. The frame-chain case moves the CFA by
the difference of two saved frame pointers, and `unwStep_fallback_iff` says which
differences are right.
-/

namespace LibunwindKern

open CProg ByteMem Unw

/-! ### The specification -/

/-- The installed validator accepts the word at this address. -/
def readable (addr : Word) : Bool := pageStart addr ≠ 0

/-- The kind of signal frame the code at `ip` is. -/
def signalFormat (m : Mem) (ip : Word) : SigcontextFormat :=
  if readable ip ∧ readable (ip + 8) ∧ readable (ip + 16) then
    if isSigreturnCode (load64 m ip) (load64 m (ip + 8)) (load64 m (ip + 16)) then .freebsdSigframe
    else if readable (ip - 5) ∧ isSyscallCode (load64 m (ip - 5)) then .freebsdSyscall
    else .none
  else .none

/-- The code at `ip` is a PLT entry. -/
def isPlt (m : Mem) (ip : Word) : Bool :=
  readable ip && (readable (ip + 8) && isPltCode (load64 m ip) (load64 m (ip + 8)))

/-- The frame-chain case is taken, with this frame pointer. -/
structure ChainFrame (m : Mem) (c : Cursor) (rbp : Word) : Prop where
  signal : signalFormat m c.ip = .none
  plt : isPlt m c.ip = false
  loc : c.loc RBP ≠ 0
  good : readable (c.loc RBP) = true
  saved : rbp = load64 m (c.loc RBP)
  nonzero : rbp ≠ 0

/-- The frame pointer is rejected: the word there cannot be read, or it is not a little
above the CFA. -/
def Rejected (c : Cursor) (rbp : Word) : Prop :=
  readable rbp = false ∨ rbp ≤ c.cfa ∨ 0x4000 < rbp - c.cfa

instance (c : Cursor) (rbp : Word) : Decidable (Rejected c rbp) :=
  inferInstanceAs (Decidable (_ ∨ _))

/-- **Fallback frames.** A frame made up by the PLT or the frame-chain case has its return
address at CFA - 8, and a guess that is rejected gives 0 and leaves the CFA alone. -/
structure FallbackContract (m : Mem) (s : St) (run : Res UnwError ℕ × St) : Prop where
  return_at_cfa : ∀ n, run.1 = .ok n → 0 < n → signalFormat m s.c.ip = .none →
    run.2.c.loc RIP = run.2.c.cfa - 8
  rejected : ∀ rbp, ChainFrame m s.c rbp → Rejected s.c rbp →
    run.1 = .ok 0 ∧ run.2.c.cfa = s.c.cfa

/-! ### The functions of the fallback -/

section

variable {m : Mem} {s t u : St}

theorem accessMem_msync (addr : Word) (g : Lga) :
    ∃ g', accessMem msyncValidate m true addr g =
      (if readable addr then .ok (load64 m addr) else .err .eunspec, g') := by
  refine ⟨(validateMem msyncValidate addr g).2, ?_⟩
  rw [accessMem_of_validate, validateMem_msync]
  rfl

theorem accessMemAt_eq (addr : Word) (hv : s.c.validate = true) :
    ∃ g, accessMemAt msyncValidate m addr s =
      (if readable addr then .ok (load64 m addr) else .err .eunspec, { s with lga := g }) := by
  obtain ⟨g, hg⟩ := accessMem_msync (m := m) addr s.lga
  refine ⟨g, ?_⟩
  unfold accessMemAt
  rw [read_eq, hv, hg]

/-- A word that can be read is read, and the rest goes on. -/
theorem accessMemAt_bind {α : Type} {f : Word → Unw α} {addr : Word} (hv : s.c.validate = true)
    (hgood : readable addr = true) :
    ∃ g, (accessMemAt msyncValidate m addr >>= f) s = f (load64 m addr) { s with lga := g } := by
  obtain ⟨g, hg⟩ := accessMemAt_eq (m := m) addr hv
  rw [if_pos hgood] at hg
  exact ⟨g, Act.bind_of_ok hg⟩

/-- A word that cannot be read ends the call. -/
theorem accessMemAt_bind_err {α : Type} {f : Word → Unw α} {addr : Word} (hv : s.c.validate = true)
    (hbad : ¬readable addr = true) :
    ∃ g, (accessMemAt msyncValidate m addr >>= f) s = (.err .eunspec, { s with lga := g }) := by
  obtain ⟨g, hg⟩ := accessMemAt_eq (m := m) addr hv
  rw [if_neg hbad] at hg
  exact ⟨g, Act.bind_of_err hg⟩

/-- The format the code has, or an error when there is none to be read. -/
theorem sigcontextFormatAt_eq (ip : Word) (hv : s.c.validate = true) :
    ∃ g, sigcontextFormatAt msyncValidate m ip s = (.ok (signalFormat m ip), { s with lga := g }) ∨
      (signalFormat m ip = .none ∧
        sigcontextFormatAt msyncValidate m ip s = (.err .eunspec, { s with lga := g })) := by
  unfold sigcontextFormatAt signalFormat
  -- the three words at the instruction pointer, each behind the check of its page
  by_cases h₀ : readable ip = true
  swap
  · obtain ⟨g, hg⟩ := accessMemAt_bind_err (m := m) hv h₀
    exact ⟨g, Or.inr ⟨if_neg fun h => h₀ h.1, hg⟩⟩
  obtain ⟨g₀, hg₀⟩ := accessMemAt_bind (m := m) hv h₀
  rw [hg₀]
  by_cases h₁ : readable (ip + 8) = true
  swap
  · obtain ⟨g, hg⟩ := accessMemAt_bind_err (m := m) (s := { s with lga := g₀ }) hv h₁
    exact ⟨g, Or.inr ⟨if_neg fun h => h₁ h.2.1, hg⟩⟩
  obtain ⟨g₁, hg₁⟩ := accessMemAt_bind (m := m) (s := { s with lga := g₀ }) hv h₁
  rw [hg₁]
  by_cases h₂ : readable (ip + 16) = true
  swap
  · obtain ⟨g, hg⟩ := accessMemAt_bind_err (m := m) (s := { s with lga := g₁ }) hv h₂
    exact ⟨g, Or.inr ⟨if_neg fun h => h₂ h.2.2, hg⟩⟩
  obtain ⟨g₂, hg₂⟩ := accessMemAt_bind (m := m) (s := { s with lga := g₁ }) hv h₂
  have hgood : readable ip = true ∧ readable (ip + 8) = true ∧ readable (ip + 16) = true :=
    ⟨h₀, h₁, h₂⟩
  rw [hg₂, if_pos hgood]
  by_cases hsig : isSigreturnCode (load64 m ip) (load64 m (ip + 8)) (load64 m (ip + 16)) = true
  · rw [if_pos hsig, if_pos hsig]
    exact ⟨g₂, Or.inl rfl⟩
  · -- not the trampoline, so the word in front of the instruction pointer decides
    rw [if_neg hsig, if_neg hsig]
    by_cases h₃ : readable (ip - 5) = true
    · obtain ⟨g₃, hg₃⟩ := accessMemAt_bind (m := m) (s := { s with lga := g₂ }) hv h₃
      refine ⟨g₃, Or.inl ?_⟩
      rw [hg₃]
      by_cases hsys : isSyscallCode (load64 m (ip - 5)) = true
      · have hboth : readable (ip - 5) = true ∧ isSyscallCode (load64 m (ip - 5)) = true :=
          ⟨h₃, hsys⟩
        rw [if_pos hsys, if_pos hboth]
        rfl
      · rw [if_neg hsys, if_neg fun h => hsys h.2]
        rfl
    · obtain ⟨g, hg⟩ := accessMemAt_bind_err (m := m) (s := { s with lga := g₂ }) hv h₃
      exact ⟨g, Or.inr ⟨if_neg fun h => h₃ h.1, hg⟩⟩

theorem unwIsSignalFrame_eq (hv : s.c.validate = true) :
    ∃ g, unwIsSignalFrame msyncValidate m s =
      (.ok (signalFormat m s.c.ip),
        { s with c := { s.c with sigcontextFormat := signalFormat m s.c.ip }, lga := g }) := by
  unfold unwIsSignalFrame
  rw [setCursor_bind, Act.get_bind]
  obtain ⟨g, hg | ⟨hnone, hg⟩⟩ :=
    sigcontextFormatAt_eq (m := m) (s := { s with c := { s.c with sigcontextFormat := .none } })
      s.c.ip hv
  · refine ⟨g, ?_⟩
    rw [Act.bind_of_ok (Act.attempt_of_ok hg)]
    rfl
  · refine ⟨g, ?_⟩
    rw [Act.bind_of_ok (Act.attempt_of_err hg), hnone]
    rfl

theorem isPltEntry_eq (hv : s.c.validate = true) :
    ∃ g, isPltEntry msyncValidate m s = (.ok (isPlt m s.c.ip), { s with lga := g }) := by
  unfold isPltEntry isPlt
  rw [Act.get_bind]
  cases h₀ : readable s.c.ip with
  | false =>
    obtain ⟨g, hg⟩ := accessMemAt_bind_err (m := m) hv (Bool.eq_false_iff.mp h₀)
    refine ⟨g, ?_⟩
    rw [Act.bind_of_ok (Act.attempt_of_err hg)]
    rfl
  | true =>
    obtain ⟨g₀, hg₀⟩ := accessMemAt_bind (m := m) (f := fun w0 => do
      let w1 ← accessMemAt msyncValidate m (s.c.ip + 8)
      pure (w0, w1)) hv h₀
    cases h₁ : readable (s.c.ip + 8) with
    | false =>
      obtain ⟨g₁, hg₁⟩ := accessMemAt_bind_err (m := m) (s := { s with lga := g₀ })
        (f := fun w1 => pure (load64 m s.c.ip, w1)) hv (Bool.eq_false_iff.mp h₁)
      refine ⟨g₁, ?_⟩
      rw [Act.bind_of_ok (Act.attempt_of_err (hg₀.trans hg₁))]
      rfl
    | true =>
      obtain ⟨g₁, hg₁⟩ := accessMemAt_bind (m := m) (s := { s with lga := g₀ })
        (f := fun w1 => pure (load64 m s.c.ip, w1)) hv h₁
      refine ⟨g₁, ?_⟩
      rw [Act.bind_of_ok (Act.attempt_of_ok (hg₀.trans hg₁))]
      rfl

/-- Reading a location that is not null, with validation on. -/
theorem read_dwarfGet_eq {loc : Word} (hloc : loc ≠ 0) (hv : s.c.validate = true) :
    ∃ g, read (fun c => dwarfGet msyncValidate m c loc) s =
      (if readable loc then .ok (load64 m loc) else .err .eunspec, { s with lga := g }) := by
  obtain ⟨g, hg⟩ := accessMem_msync (m := m) loc s.lga
  refine ⟨g, ?_⟩
  rw [read_eq, dwarfGet_of_ne _ _ _ hloc, hv, hg]

/-- `unw_get_reg` for `RBP` reads its location. -/
theorem unwGetReg_rbp (v : Validator) (c : Cursor) :
    unwGetReg v m c 6 = dwarfGet v m c (c.loc RBP) := by
  unfold unwGetReg tdepAccessReg
  rw [if_neg (by decide), if_neg (by decide), dif_neg (by decide), dif_pos (by decide)]
  rfl

/-- The cursor a guessed frame pointer leaves. -/
def chainCursor (m : Mem) (c : Cursor) (rbp : Word) : Cursor :=
  { c with
    frameInfo := guessedFrame c.frameInfo
    cfa := c.cfa + (load64 m rbp - rbp)
    loc := if Rejected c rbp then guessedLocs 0 0 else guessedLocs rbp (rbp + 8) }

theorem guessFrame_eq {rbp : Word} (hv : s.c.validate = true) (hloc : s.c.loc RBP ≠ 0)
    (hgood : readable (s.c.loc RBP) = true) (hsaved : rbp = load64 m (s.c.loc RBP))
    (hne : rbp ≠ 0) :
    ∃ r g, guessFrame msyncValidate m rbp s =
      (.ok r, { s with c := chainCursor m s.c rbp, lga := g }) := by
  obtain ⟨g₁, hg₁⟩ := read_dwarfGet_eq (m := m) hne hv
  -- the location of `RBP` can still be read, and gives the same value
  have hprev : ∀ g, ∃ g', read (fun c => unwGetReg msyncValidate m c 6)
      { s with c := { s.c with frameInfo := guessedFrame s.c.frameInfo }, lga := g } =
      (.ok rbp, { s with c := { s.c with frameInfo := guessedFrame s.c.frameInfo }, lga := g' }) := by
    intro g
    obtain ⟨g', hg'⟩ := read_dwarfGet_eq (m := m)
      (s := { s with c := { s.c with frameInfo := guessedFrame s.c.frameInfo }, lga := g }) hloc hv
    rw [if_pos hgood, ← hsaved] at hg'
    simp only [unwGetReg_rbp]
    exact ⟨g', hg'⟩
  obtain ⟨g₂, hg₂⟩ := hprev g₁
  unfold guessFrame
  rw [Act.get_bind]
  cases hr : readable rbp with
  | false =>
    rw [hr] at hg₁
    rw [Act.bind_of_ok (Act.attempt_of_err hg₁), setCursor_bind,
      Act.bind_of_ok (Act.attempt_of_ok hg₂)]
    refine ⟨.error .eunspec, g₂, ?_⟩
    have hrej : Rejected s.c rbp := Or.inl hr
    unfold chainCursor
    rw [if_pos hrej]
    rfl
  | true =>
    rw [hr] at hg₁
    rw [Act.bind_of_ok (Act.attempt_of_ok hg₁), setCursor_bind,
      Act.bind_of_ok (Act.attempt_of_ok hg₂)]
    refine ⟨.ok 0, g₂, ?_⟩
    have hiff : Rejected s.c rbp ↔ (rbp ≤ s.c.cfa ∨ 0x4000 < rbp - s.c.cfa) := by
      unfold Rejected
      rw [hr, or_iff_right (by decide)]
    unfold chainCursor
    simp only [hiff]
    rfl

theorem frameChain_eq {rbp : Word} (hv : s.c.validate = true) (hloc : s.c.loc RBP ≠ 0)
    (hgood : readable (s.c.loc RBP) = true) (hsaved : rbp = load64 m (s.c.loc RBP))
    (hne : rbp ≠ 0) :
    ∃ r g, frameChain msyncValidate m s =
      (.ok r, { s with c := chainCursor m s.c rbp, lga := g }) := by
  obtain ⟨g₁, hg₁⟩ := read_dwarfGet_eq (m := m) hloc hv
  rw [if_pos hgood, ← hsaved] at hg₁
  obtain ⟨r, g₂, hg₂⟩ :=
    guessFrame_eq (m := m) (s := { s with lga := g₁ }) hv hloc hgood hsaved hne
  refine ⟨r, g₂, ?_⟩
  unfold frameChain
  rw [Act.get_bind, Act.bind_of_ok hg₁, if_neg hne, hg₂]

@[simp] theorem chainCursor_cfa (c : Cursor) (rbp : Word) :
    (chainCursor m c rbp).cfa = c.cfa + (load64 m rbp - rbp) := by rw [chainCursor]

@[simp] theorem chainCursor_validate (c : Cursor) (rbp : Word) :
    (chainCursor m c rbp).validate = c.validate := by rw [chainCursor]

theorem chainCursor_of_rejected {c : Cursor} {rbp : Word} (h : Rejected c rbp) :
    (chainCursor m c rbp).loc = guessedLocs 0 0 := if_pos h

theorem chainCursor_of_accepted {c : Cursor} {rbp : Word} (h : ¬Rejected c rbp) :
    (chainCursor m c rbp).loc = guessedLocs rbp (rbp + 8) := if_neg h

/-- The frame chain that goes on has an accepted frame pointer. -/
theorem frameChain_cases {r : Except UnwError ℕ} (hv : s.c.validate = true)
    (hloc : s.c.loc RBP ≠ 0) (h : frameChain msyncValidate m s = (.ok r, u))
    (hrbp : u.c.loc RBP ≠ 0) :
    readable (s.c.loc RBP) = true ∧ load64 m (s.c.loc RBP) ≠ 0 ∧
      ¬Rejected s.c (load64 m (s.c.loc RBP)) ∧
      u.c = chainCursor m s.c (load64 m (s.c.loc RBP)) := by
  obtain ⟨g₁, hg₁⟩ := read_dwarfGet_eq (m := m) hloc hv
  cases hgood : readable (s.c.loc RBP) with
  | false =>
    rw [hgood] at hg₁
    unfold frameChain at h
    rw [Act.get_bind, Act.bind_of_err hg₁] at h
    cases h
  | true =>
    by_cases hne : load64 m (s.c.loc RBP) = 0
    · -- a zero frame pointer clears the locations
      rw [hgood, if_pos rfl] at hg₁
      unfold frameChain at h
      rw [Act.get_bind, Act.bind_of_ok hg₁, if_pos hne] at h
      cases h
      exact absurd rfl hrbp
    · obtain ⟨r', g, hg⟩ := frameChain_eq hv hloc hgood rfl hne
      rw [hg] at h
      cases h
      refine ⟨rfl, hne, fun hrej => hrbp ?_, rfl⟩
      change (chainCursor m s.c _).loc RBP = 0
      rw [chainCursor_of_rejected hrej]
      rfl

/-! ### The frame of the fallback -/

/-- The cursor after `unw_is_signal_frame` has said no. -/
def noSignal (c : Cursor) : Cursor := { c with sigcontextFormat := .none }

/-- Code that is no signal frame is looked at as a PLT entry next. -/
theorem fallbackFrame_of_no_signal (hv : s.c.validate = true)
    (hsig : signalFormat m s.c.ip = .none) :
    ∃ g, fallbackFrame msyncValidate m s =
      (if isPlt m s.c.ip then do
          setCursor pltFrame
          pure (some (.error .enoinfo))
        else if s.c.loc RBP = 0 then do
          setCursor fun c => { c with loc := fun _ => 0 }
          pure (some (.error .enoinfo))
        else do
          let ret ← frameChain msyncValidate m
          pure (some ret) : Unw (Option (Except UnwError ℕ)))
        { s with c := noSignal s.c, lga := g } := by
  obtain ⟨g₁, hg₁⟩ := unwIsSignalFrame_eq (m := m) hv
  rw [hsig] at hg₁
  obtain ⟨g₂, hg₂⟩ := isPltEntry_eq (m := m) (s := { s with c := noSignal s.c, lga := g₁ }) hv
  refine ⟨g₂, ?_⟩
  unfold fallbackFrame
  rw [Act.bind_of_ok hg₁, if_neg (not_not.mpr rfl)]
  change (isPltEntry msyncValidate m >>= _) { s with c := noSignal s.c, lga := g₁ } = _
  rw [Act.bind_of_ok hg₂]
  rfl

/-- **The frame-chain case**: the frame it sets up. -/
theorem fallbackFrame_of_chain {rbp : Word} (hv : s.c.validate = true)
    (h : ChainFrame m s.c rbp) :
    ∃ r u, fallbackFrame msyncValidate m s = (.ok (some r), u) ∧
      u.c = chainCursor m (noSignal s.c) rbp := by
  obtain ⟨g, hg⟩ := fallbackFrame_of_no_signal hv h.signal
  rw [h.plt, if_neg Bool.false_ne_true, if_neg h.loc] at hg
  obtain ⟨r, g', hg'⟩ := frameChain_eq (m := m) (s := { s with c := noSignal s.c, lga := g }) hv
    h.loc h.good h.saved h.nonzero
  refine ⟨r, { s with c := chainCursor m (noSignal s.c) rbp, lga := g' }, ?_, rfl⟩
  rw [hg, Act.bind_of_ok hg']
  rfl

/-- A frame that keeps a location for `RBP` and is no signal frame is a PLT frame or an
accepted guess. -/
theorem fallbackFrame_cases {r : Except UnwError ℕ} (hv : s.c.validate = true)
    (hsig : signalFormat m s.c.ip = .none)
    (h : fallbackFrame msyncValidate m s = (.ok (some r), u)) (hrbp : u.c.loc RBP ≠ 0) :
    u.c = pltFrame (noSignal s.c) ∨
      ∃ rbp, ChainFrame m s.c rbp ∧ ¬Rejected s.c rbp ∧ u.c = chainCursor m (noSignal s.c) rbp := by
  obtain ⟨g, hg⟩ := fallbackFrame_of_no_signal hv hsig
  rw [hg] at h
  cases hplt : isPlt m s.c.ip with
  | true =>
    rw [hplt, if_pos rfl] at h
    cases h
    exact Or.inl rfl
  | false =>
    rw [hplt, if_neg Bool.false_ne_true] at h
    by_cases hloc : s.c.loc RBP = 0
    · rw [if_pos hloc] at h
      cases h
      exact absurd rfl hrbp
    · rw [if_neg hloc] at h
      obtain ⟨ret, s₁, hchain, h⟩ := Act.bind_eq_ok h
      cases h
      obtain ⟨hgood, hne, hacc, hu⟩ := frameChain_cases
        (s := { s with c := noSignal s.c, lga := g }) hv hloc hchain hrbp
      exact Or.inr ⟨_, ⟨hsig, hplt, hloc, hgood, rfl, hne⟩, hacc, hu⟩

/-! ### The step -/

/-- A rejected guess ends the walk, with the CFA moved. -/
theorem fallbackFinish_of_rejected {c : Cursor} {rbp : Word} (prevIp prevCfa : Word)
    (r : Except UnwError ℕ) (h : Rejected c rbp) (hu : u.c = chainCursor m c rbp) :
    ∃ w, fallbackFinish msyncValidate m prevIp prevCfa r u = (.ok 0, w) ∧
      w.c.cfa = c.cfa + (load64 m rbp - rbp) := by
  have hloc : u.c.loc RBP = 0 := by
    rw [hu, chainCursor_of_rejected h]
    rfl
  refine ⟨{ u with c := { u.c with retAddrColumn := 16 } }, ?_, ?_⟩
  · unfold fallbackFinish
    rw [setCursor_bind, Act.get_bind, if_pos hloc]
    rfl
  · change u.c.cfa = _
    rw [hu, chainCursor_cfa]

/-- A page that can be read is not the first one. -/
theorem ne_zero_of_readable {addr : Word} (h : readable addr = true) : addr ≠ 0 := by
  rintro rfl
  exact absurd h (by decide)

/-- An accepted guess whose return address can be read, and leads to another frame, is a
success. -/
theorem fallbackFinish_of_accepted {c : Cursor} {rbp prevIp prevCfa : Word}
    (r : Except UnwError ℕ) (hv : c.validate = true) (h : ¬Rejected c rbp) (hne : rbp ≠ 0)
    (hgood : readable (rbp + 8) = true) (hu : u.c = chainCursor m c rbp)
    (hnew : ¬(load64 m (rbp + 8) = prevIp ∧ c.cfa + (load64 m rbp - rbp) = prevCfa)) :
    ∃ w, fallbackFinish msyncValidate m prevIp prevCfa r u = (.ok 1, w) ∧
      w.c.cfa = c.cfa + (load64 m rbp - rbp) ∧ w.c.loc RIP = rbp + 8 := by
  have hlocs : u.c.loc = guessedLocs rbp (rbp + 8) := by
    rw [hu, chainCursor_of_accepted h]
  have hrbp : u.c.loc RBP = rbp := by rw [hlocs]; rfl
  have hrip : u.c.loc RIP = rbp + 8 := by rw [hlocs]; rfl
  have hcfa : u.c.cfa = c.cfa + (load64 m rbp - rbp) := by rw [hu, chainCursor_cfa]
  have hval : u.c.validate = true := by rw [hu, chainCursor_validate, hv]
  have hrbp' : u.c.loc RBP ≠ 0 := by
    rw [hrbp]
    exact hne
  have hrip' : u.c.loc RIP ≠ 0 := by
    rw [hrip]
    exact ne_zero_of_readable hgood
  obtain ⟨g, hg⟩ := accessMem_msync (m := m) (rbp + 8) u.lga
  have hread : accessMem msyncValidate m u.c.validate (u.c.loc RIP) u.lga =
      (.ok (load64 m (rbp + 8)), g) := by
    rw [hval, hrip, hg, if_pos hgood]
  have hnew' : ¬(load64 m (rbp + 8) = prevIp ∧ u.c.cfa = prevCfa) := by
    rw [hcfa]
    exact hnew
  exact ⟨_, fallbackFinish_of_read r hrbp' hrip' hread hnew', hcfa, hrip⟩

theorem chainFrame_congr {c c' : Cursor} {rbp : Word} (hip : c.ip = c'.ip) (hloc : c.loc = c'.loc) :
    ChainFrame m c rbp ↔ ChainFrame m c' rbp := by
  constructor
  · rintro ⟨hsig, hplt, hne, hgood, hsaved, hrbp⟩
    exact ⟨hip ▸ hsig, hip ▸ hplt, hloc ▸ hne, hloc ▸ hgood, hloc ▸ hsaved, hrbp⟩
  · rintro ⟨hsig, hplt, hne, hgood, hsaved, hrbp⟩
    exact ⟨hip ▸ hsig, hip ▸ hplt, hloc ▸ hne, hloc ▸ hgood, hloc ▸ hsaved, hrbp⟩

theorem rejected_congr {c c' : Cursor} {rbp : Word} (hcfa : c.cfa = c'.cfa) :
    Rejected c rbp ↔ Rejected c' rbp := by
  unfold Rejected
  rw [hcfa]

section Step

variable {k : Kernel} {fuel : ℕ} {rbp : Word}
  (hinfo : dwarfStep k msyncValidate m fuel (arm s) = (.err .enoinfo, t))

include hinfo

/-- The fallback starts from the frame before the step. -/
theorem frame_of_enoinfo : t.c.ip = s.c.ip ∧ t.c.cfa = s.c.cfa ∧ t.c.loc = s.c.loc := by
  have hframe := dwarfStep_of_enoinfo hinfo
  exact ⟨congrArg Prod.fst hframe, congrArg (fun f => f.2.1) hframe,
    congrArg (fun f => f.2.2) hframe⟩

theorem unwStep_of_rejected (h : ChainFrame m s.c rbp) (hr : Rejected s.c rbp) :
    ∃ w, unwStep k msyncValidate m fuel s = (.ok 0, w) ∧
      w.c.cfa = s.c.cfa + (load64 m rbp - rbp) := by
  obtain ⟨hip, hcfa, hloc⟩ := frame_of_enoinfo hinfo
  have hchain : ChainFrame m (validated t).c rbp :=
    (chainFrame_congr (c := (validated t).c) hip hloc).mpr h
  have hrej : Rejected (noSignal (validated t).c) rbp := (rejected_congr hcfa).mpr hr
  obtain ⟨r, u, hframe, hu⟩ := fallbackFrame_of_chain (s := validated t) rfl hchain
  obtain ⟨w, hw, hwcfa⟩ := fallbackFinish_of_rejected t.c.ip t.c.cfa r hrej hu
  refine ⟨w, ?_, ?_⟩
  · rw [unwStep_of_enoinfo hinfo, stepFallback_of_frame (s := disarm s t) hframe]
    exact hw
  · rw [hwcfa, ← hcfa]
    rfl

theorem unwStep_of_accepted (h : ChainFrame m s.c rbp) (hr : ¬Rejected s.c rbp)
    (hgood : readable (rbp + 8) = true)
    (hnew : ¬(load64 m (rbp + 8) = s.c.ip ∧ load64 m rbp = rbp)) :
    ∃ w, unwStep k msyncValidate m fuel s = (.ok 1, w) ∧
      w.c.cfa = s.c.cfa + (load64 m rbp - rbp) ∧ w.c.loc RIP = rbp + 8 := by
  obtain ⟨hip, hcfa, hloc⟩ := frame_of_enoinfo hinfo
  have hchain : ChainFrame m (validated t).c rbp :=
    (chainFrame_congr (c := (validated t).c) hip hloc).mpr h
  have hacc : ¬Rejected (noSignal (validated t).c) rbp :=
    fun hrej => hr ((rejected_congr hcfa).mp hrej)
  have hnew' : ¬(load64 m (rbp + 8) = t.c.ip ∧ t.c.cfa + (load64 m rbp - rbp) = t.c.cfa) := by
    rintro ⟨hret, hsame⟩
    exact hnew ⟨hip ▸ hret, sub_eq_zero.mp (add_eq_left.mp hsame)⟩
  obtain ⟨r, u, hframe, hu⟩ := fallbackFrame_of_chain (s := validated t) rfl hchain
  obtain ⟨w, hw, hwcfa, hrip⟩ := fallbackFinish_of_accepted r rfl hacc h.nonzero hgood hu hnew'
  refine ⟨w, ?_, ?_, hrip⟩
  · rw [unwStep_of_enoinfo hinfo, stepFallback_of_frame (s := disarm s t) hframe]
    exact hw
  · rw [hwcfa, ← hcfa]
    rfl

/-- **A positive result** that is not from a signal frame is a PLT frame or an accepted
guess. -/
theorem unwStep_fallback_pos {n : ℕ} {w : St} (hpos : 0 < n)
    (hsig : signalFormat m s.c.ip = .none) (h : unwStep k msyncValidate m fuel s = (.ok n, w)) :
    (w.c.loc RIP = s.c.cfa ∧ w.c.cfa = s.c.cfa + 8) ∨
      ∃ rbp, ChainFrame m s.c rbp ∧ ¬Rejected s.c rbp ∧ readable (rbp + 8) = true ∧
        ¬(load64 m (rbp + 8) = s.c.ip ∧ load64 m rbp = rbp) ∧
        w.c.cfa = s.c.cfa + (load64 m rbp - rbp) ∧ w.c.loc RIP = rbp + 8 := by
  obtain ⟨hip, hcfa, hloc⟩ := frame_of_enoinfo hinfo
  rw [unwStep_of_enoinfo hinfo] at h
  obtain ⟨r, u, hframe, hfinish⟩ := stepFallback_pos hpos h
  have hret : ∀ n, r = .ok n → n = 0 ∨ u.c.loc RIP ≠ 0 := by
    rintro n rfl
    exact fallbackFrame_ret hframe
  obtain ⟨hrbp, -, ip, g, hread, hnew, rfl⟩ := fallbackFinish_pos hpos hret hfinish
  have hsig' : signalFormat m (validated t).c.ip = .none := hip ▸ hsig
  obtain hu | ⟨rbp, hchain, hacc, hu⟩ :=
    fallbackFrame_cases (s := validated t) rfl hsig' hframe hrbp
  · -- the PLT frame
    left
    refine ⟨?_, ?_⟩
    · change u.c.loc RIP = _
      rw [hu, ← hcfa]
      rfl
    · change u.c.cfa = _
      rw [hu, ← hcfa]
      rfl
  · -- the guess, whose return address has been read
    right
    have hacc' : ¬Rejected (noSignal (validated t).c) rbp := hacc
    have hrip : u.c.loc RIP = rbp + 8 := by
      rw [hu, chainCursor_of_accepted hacc']
      rfl
    have hucfa : u.c.cfa = t.c.cfa + (load64 m rbp - rbp) := by
      rw [hu, chainCursor_cfa]
      rfl
    have hval : u.c.validate = true := by
      rw [hu, chainCursor_validate]
      rfl
    obtain ⟨g', hg'⟩ := accessMem_msync (m := m) (rbp + 8) u.lga
    rw [hval, hrip, hg'] at hread
    cases hgood : readable (rbp + 8) with
    | false =>
      rw [hgood] at hread
      cases congrArg Prod.fst hread
    | true =>
      rw [hgood, if_pos rfl] at hread
      have hret : load64 m (rbp + 8) = ip := Res.ok.inj (congrArg Prod.fst hread)
      refine ⟨rbp, (chainFrame_congr (c := (validated t).c) hip hloc).mp hchain,
        fun hrej => hacc ((rejected_congr hcfa).mpr hrej), hgood, ?_, ?_, hrip⟩
      · -- a frame that is the same as before is no progress
        rintro ⟨hsame, hword⟩
        refine hnew ⟨hret.symm.trans (hsame.trans hip.symm), ?_⟩
        rw [hucfa, hword, sub_self, add_zero]
        rfl
      · change u.c.cfa = _
        rw [hucfa, hcfa]

end Step

/-- The words saved on the stack that make the guessed CFA right. -/
def ChainConsistent (m : Mem) (c : Cursor) : Prop :=
  ∀ rbp, ChainFrame m c rbp →
    (Rejected c rbp → load64 m rbp = rbp) ∧
      (¬Rejected c rbp → readable (rbp + 8) = true →
        ¬(load64 m (rbp + 8) = c.ip ∧ load64 m rbp = rbp) →
        load64 m rbp - rbp = rbp + 16 - c.cfa)

/-- The return address is 8 below the moved CFA. -/
theorem chain_cfa_iff {rbp cfa word : Word} :
    rbp + 8 = cfa + (word - rbp) - 8 ↔ word - rbp = rbp + 16 - cfa := by
  constructor
  · intro h
    bv_omega
  · intro h
    bv_omega

/-- **When fallback frames are right.** The PLT case always has its return address at
CFA - 8. The frame-chain case has it there, and leaves the CFA alone when it gives up,
exactly when the word saved at the frame pointer happens to be the one that makes it
so. -/
theorem unwStep_fallback_iff (k : Kernel) (m : Mem) (fuel : ℕ) (s t : St)
    (hinfo : dwarfStep k msyncValidate m fuel (arm s) = (.err .enoinfo, t)) :
    FallbackContract m s (unwStep k msyncValidate m fuel s) ↔ ChainConsistent m s.c := by
  constructor
  · intro hcontract rbp h
    constructor
    · -- a chain that is given up keeps the CFA, so the word is the frame pointer itself
      intro hr
      obtain ⟨w, hw, hwcfa⟩ := unwStep_of_rejected hinfo h hr
      have hkept := (hcontract.rejected rbp h hr).2
      rw [hw, hwcfa] at hkept
      exact sub_eq_zero.mp (add_eq_left.mp hkept)
    · -- a chain that is followed returns at the new CFA
      intro hr hgood hnew
      obtain ⟨w, hw, hwcfa, hrip⟩ := unwStep_of_accepted hinfo h hr hgood hnew
      have hat := hcontract.return_at_cfa 1 (by rw [hw]) Nat.one_pos h.signal
      rw [hw, hwcfa, hrip] at hat
      exact chain_cfa_iff.mp hat
  · intro hcond
    constructor
    · intro n hn hpos hsig
      rcases hw : unwStep k msyncValidate m fuel s with ⟨res, w⟩
      rw [hw] at hn
      cases hn
      obtain ⟨hrip, hwcfa⟩ | ⟨rbp, h, hr, hgood, hnew, hwcfa, hrip⟩ :=
        unwStep_fallback_pos hinfo hpos hsig hw
      · rw [hrip, hwcfa, add_sub_cancel_right]
      · rw [hrip, hwcfa]
        exact chain_cfa_iff.mpr ((hcond rbp h).2 hr hgood hnew)
    · intro rbp h hr
      obtain ⟨w, hw, hwcfa⟩ := unwStep_of_rejected hinfo h hr
      rw [hw, hwcfa, (hcond rbp h).1 hr, sub_self, add_zero]
      exact ⟨rfl, rfl⟩

end

/-! ### Two frames -/

/-- A stack on which the frame at `0x20100` has this saved frame pointer and the return
address `0x11000`. The frame pointer itself is saved at `0x30000`. -/
def chainMem (savedRbp : Word) : Mem :=
  store64 (store64 (store64 (fun _ => 0) 0x30000 0x20100) 0x20100 savedRbp) 0x20108 0x11000

/-- The step of a system without unwind info over that frame. -/
def chainRun (savedRbp : Word) : Res UnwError ℕ × St :=
  unwStep bareKernel msyncValidate (chainMem savedRbp) 0 bottomState

/-- A saved frame pointer that makes the CFA come out right. -/
theorem unwStep_fallback_consistent :
    FallbackContract (chainMem 0x20210) bottomState
        (unwStep bareKernel msyncValidate (chainMem 0x20210) 0 bottomState) ∧
      (chainRun 0x20210).1 = .ok 1 := by
  refine ⟨(unwStep_fallback_iff bareKernel (chainMem 0x20210) 0 bottomState
    (dwarfStep bareKernel msyncValidate (chainMem 0x20210) 0 (arm bottomState)).2
    (Prod.ext (by decide +kernel) rfl)).mpr ?_, by decide +kernel⟩
  intro rbp h
  have hrbp : rbp = 0x20100 := h.saved.trans (by decide +kernel)
  subst hrbp
  exact ⟨fun hr => absurd hr (by decide +kernel), fun _ _ _ => by decide +kernel⟩

/-- The frame of a caller whose own frame pointer is `0x20200`: the return address is
read from `0x20108`, and the new CFA is `0x20100`. -/
theorem unwStep_guess_off :
    (dwarfStep bareKernel msyncValidate (chainMem 0x20200) 0 (arm bottomState)).1 = .err .enoinfo ∧
      (chainRun 0x20200).1 = .ok 1 ∧ (chainRun 0x20200).2.c.loc RIP = 0x20108 ∧
      (chainRun 0x20200).2.c.cfa = 0x20100 ∧
      ¬FallbackContract (chainMem 0x20200) bottomState (chainRun 0x20200) := by
  have hok : (chainRun 0x20200).1 = .ok 1 := by decide +kernel
  have hrip : (chainRun 0x20200).2.c.loc RIP = 0x20108 := by decide +kernel
  have hcfa : (chainRun 0x20200).2.c.cfa = 0x20100 := by decide +kernel
  refine ⟨by decide +kernel, hok, hrip, hcfa, fun h => ?_⟩
  have hat := h.return_at_cfa 1 hok Nat.one_pos (by decide +kernel)
  rw [hrip, hcfa] at hat
  exact absurd hat (by decide)

end LibunwindKern
