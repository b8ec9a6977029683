import LibunwindKern.Dwarf.Fetch
import LibunwindKern.Dwarf.FrameBlind
import LibunwindKern.X86.FallbackProgram

/-!
# What the fallback starts from, and what it reads

The fallback of `unw_step` runs after `dwarf_step` has returned `-UNW_ENOINFO`. This code comes from
the lookup of the procedure and from nowhere else, so the frame is still the one that the step was
called for (`dwarfStep_enoinfo_untouched`).

Most of the fallback reads memory with `access_mem` only (`Checked`), and then with validation on.
The guess that `RBP` is a frame pointer follows `RBP` itself. `fallback_reads_iff` says that this is
the only read without validation.
-/

namespace LibunwindKern

open CProg ByteMem Unw

/-! ### What the fallback starts from -/

/-- Two cursors for the same frame. -/
structure SameFrame (c c' : Cursor) : Prop where
  ip : c'.ip = c.ip
  cfa : c'.cfa = c.cfa
  loc : ∀ i, c'.loc i = c.loc i
  retAddrColumn : c'.retAddrColumn = c.retAddrColumn
  usePrevInstr : c'.usePrevInstr = c.usePrevInstr
  ehArgs : ∀ i, c'.ehArgs i = c.ehArgs i
  ehValidMask : c'.ehValidMask = c.ehValidMask

/-- A step that finds no unwind info leaves the procedure info behind, and nothing else. -/
theorem dwarfStep_enoinfo_withPi {k : Kernel} {v : Validator} {m : Mem} {fuel : ℕ} {s t : St}
    (h : dwarfStep k v m fuel s = (.err .enoinfo, t)) : ∃ p, t = withPi s p :=
  fetch_enoinfo_withPi (Or.inl rfl) (fetchProcInfo_of_enoinfo h)

/-- **The fallback starts from an untouched frame.** -/
theorem dwarfStep_enoinfo_untouched (k : Kernel) (v : Validator) (m : Mem) (fuel : ℕ) (s t : St)
    (h : dwarfStep k v m fuel s = (.err .enoinfo, t)) : SameFrame s.c t.c := by
  obtain ⟨p, rfl⟩ := dwarfStep_enoinfo_withPi h
  exact ⟨rfl, rfl, fun _ => rfl, rfl, rfl, fun _ => rfl, rfl⟩

/-- The cursor at the bottom of the stack, in a system without unwind info. -/
theorem dwarfStep_bare_untouched :
    SameFrame bottomState.c (dwarfStep bareKernel msyncValidate bottomMem 0 bottomState).2.c :=
  dwarfStep_enoinfo_untouched bareKernel msyncValidate bottomMem 0 bottomState _
    (Act.run_of_outcome (by decide +kernel))

/-! ### Looking at the code -/

section Peeks

variable {v : Validator} {m : Mem}

/-- The call looks at memory, and changes nothing but the page cache. -/
def Peeks {α : Type} (x : Unw α) : Prop :=
  ∀ s, ∃ r g, Act.attempt x s = (.ok r, { s with lga := g })

theorem Peeks.pure {α : Type} (a : α) : Peeks (pure a : Unw α) := fun s => ⟨.ok a, s.lga, rfl⟩

theorem Peeks.bind {α β : Type} {x : Unw β} {f : β → Unw α} (hx : Peeks x) (hf : ∀ b, Peeks (f b)) :
    Peeks (x >>= f) := by
  intro s
  obtain ⟨r, g, hr⟩ := hx s
  rw [Act.attempt_bind, Act.bind_of_ok hr]
  cases r with
  | ok b => exact hf b { s with lga := g }
  | error e => exact ⟨.error e, g, rfl⟩

theorem accessMemAt_peeks (addr : Word) : Peeks (accessMemAt v m addr) := by
  intro s
  have hread : accessMemAt v m addr s = ((accessMem v m s.c.validate addr s.lga).1, _) :=
    read_eq _ s
  unfold accessMem at hread
  split_ifs at hread
  · exact ⟨_, _, Act.attempt_of_ok hread⟩
  · exact ⟨_, _, Act.attempt_of_err hread⟩
  · exact ⟨_, _, Act.attempt_of_ok hread⟩

theorem sigcontextFormatAt_peeks (ip : Word) : Peeks (sigcontextFormatAt v m ip) := by
  refine (accessMemAt_peeks _).bind fun w0 => (accessMemAt_peeks _).bind fun w1 => ?_
  refine (accessMemAt_peeks _).bind fun w2 => ?_
  split
  · exact Peeks.pure _
  · refine (accessMemAt_peeks _).bind fun b0 => ?_
    split
    · exact Peeks.pure _
    · exact Peeks.pure _

/-- `unw_is_signal_frame` changes the format in the cursor to its result, and the page cache. -/
theorem unwIsSignalFrame_run (v : Validator) (m : Mem) (s : St) :
    ∃ format g, unwIsSignalFrame v m s =
      (.ok format, { s with c := { s.c with sigcontextFormat := format }, lga := g }) := by
  obtain ⟨r, g, hr⟩ := sigcontextFormatAt_peeks (v := v) (m := m) s.c.ip
    { s with c := { s.c with sigcontextFormat := .none } }
  unfold unwIsSignalFrame
  rw [setCursor_bind, Act.get_bind, Act.bind_of_ok hr]
  cases r with
  | ok format => exact ⟨format, g, rfl⟩
  | error e => exact ⟨.none, g, rfl⟩

theorem isPltEntry_run (v : Validator) (m : Mem) (s : St) :
    ∃ plt g, isPltEntry v m s = (.ok plt, { s with lga := g }) := by
  have hwords : Peeks (accessMemAt v m s.c.ip >>= fun w0 =>
      accessMemAt v m (s.c.ip + 8) >>= fun w1 => pure (w0, w1)) :=
    (accessMemAt_peeks _).bind fun w0 => (accessMemAt_peeks _).bind fun w1 => Peeks.pure _
  obtain ⟨r, g, hr⟩ := hwords s
  unfold isPltEntry
  rw [Act.get_bind, Act.bind_of_ok hr]
  cases r with
  | ok w => exact ⟨_, g, rfl⟩
  | error e => exact ⟨false, g, rfl⟩

end Peeks

/-! ### What looking at the code sees -/

section Blind

variable {τ : Type} {put : τ → St → St} (h : FrameBlind put) (v : Validator) (m : Mem)
include h

theorem accessMemAt_blind (addr : Word) : Act.Ignores put (accessMemAt v m addr) :=
  h.read fun g s => by rw [h.validate]

theorem sigcontextFormatAt_blind (ip : Word) : Act.Ignores put (sigcontextFormatAt v m ip) := by
  refine (accessMemAt_blind h v m _).bind fun w0 => (accessMemAt_blind h v m _).bind fun w1 => ?_
  refine (accessMemAt_blind h v m _).bind fun w2 => ?_
  split
  · exact Act.Ignores.pure _
  · refine (accessMemAt_blind h v m _).bind fun b0 => ?_
    split
    · exact Act.Ignores.pure _
    · exact Act.Ignores.pure _

theorem unwIsSignalFrame_blind : Act.Ignores put (unwIsSignalFrame v m) := by
  have hformat : ∀ format, Act.Ignores put (Unw.setCursor fun c => { c with
      sigcontextFormat := format }) := fun format =>
    h.modify fun p => { p with sigcontextFormat := format }
  refine (hformat .none).bind fun _ => Act.Ignores.get_bind (fun s g => ?_) fun s => ?_
  · rw [h.ip]
  · refine (sigcontextFormatAt_blind h v m _).attempt.bind fun format => ?_
    cases format with
    | error e => exact Act.Ignores.pure _
    | ok format => exact (hformat format).bind fun _ => Act.Ignores.pure _

theorem isPltEntry_blind : Act.Ignores put (isPltEntry v m) := by
  refine Act.Ignores.get_bind (fun s g => ?_) fun s => ?_
  · rw [h.ip]
  · have hwords := (accessMemAt_blind h v m s.c.ip).bind fun w0 =>
      (accessMemAt_blind h v m (s.c.ip + 8)).bind fun w1 => Act.Ignores.pure (w0, w1)
    refine hwords.attempt.bind fun w => ?_
    cases w with
    | error e => exact Act.Ignores.pure _
    | ok w => exact Act.Ignores.pure _

end Blind

section Programs

open Prog

/-! ### The reads -/

/-- **A validated read**: words are read with `access_mem`, with validation on, and what an access
has not delivered is not used. -/
def ValidatedCall : Call FallbackCmd St → Prop
  | ⟨.access _, s⟩ => s.c.validate = true
  | ⟨.deref _, _⟩ => False
  | ⟨.uninitialised, _⟩ => False
  | _ => True

/-- The command leaves the `validate` flag alone. -/
def KeepsValidate : {β : Type} → FallbackCmd β → Prop
  | _, .setCursor f => ∀ c, (f c).validate = c.validate
  | _, _ => True

/-- The command is no read that goes round `access_mem`. -/
def Checked : {β : Type} → FallbackCmd β → Prop
  | _, .setCursor f => ∀ c, (f c).validate = c.validate
  | _, .deref _ => False
  | _, .uninitialised => False
  | _, _ => True

theorem Checked.keepsValidate {β : Type} (c : FallbackCmd β) (h : Checked c) : KeepsValidate c := by
  cases c with
  | setCursor f => exact h
  | _ => trivial

theorem checked_getProgram (loc : Word) : (getProgram loc).Every Checked := by
  unfold getProgram
  split
  · exact every_pure _
  · exact (every_cmd _).2 trivial

theorem checked_sigcontextProgram (ip : Word) : (sigcontextProgram ip).Every Checked := by
  unfold sigcontextProgram
  refine Every.andThen ((every_cmd _).2 trivial) fun w0 => ?_
  refine Every.andThen ((every_cmd _).2 trivial) fun w1 => ?_
  refine Every.andThen ((every_cmd _).2 trivial) fun w2 => ?_
  split
  · exact every_pure _
  · refine Every.andThen ((every_cmd _).2 trivial) fun b0 => ?_
    split
    · exact every_pure _
    · exact every_pure _

theorem checked_signalProgram : signalProgram.Every Checked := by
  unfold signalProgram
  refine (every_call _ _).2 ⟨fun c => rfl, fun _ => (every_call _ _).2 ⟨trivial, fun s => ?_⟩⟩
  refine Every.bind (checked_sigcontextProgram _) fun format => ?_
  cases format with
  | error e => exact every_pure _
  | ok format => exact (every_call _ _).2 ⟨fun c => rfl, fun _ => every_pure _⟩

theorem checked_handleSignalProgram : handleSignalProgram.Every Checked := by
  unfold handleSignalProgram
  refine (every_call _ _).2 ⟨trivial, fun s => ?_⟩
  cases s.c.sigcontextFormat with
  | freebsdSigframe =>
    refine (every_call _ _).2 ⟨fun c => rfl, fun _ => ?_⟩
    refine Every.andThen (checked_getProgram _) fun cfa => ?_
    exact (every_call _ _).2 ⟨fun c => rfl, fun _ => every_pure _⟩
  | freebsdSyscall =>
    refine (every_call _ _).2 ⟨fun c => rfl, fun _ => ?_⟩
    refine (every_call _ _).2 ⟨fun c => rfl, fun _ => ?_⟩
    refine Every.andThen (checked_getProgram _) fun ip => ?_
    exact (every_call _ _).2 ⟨fun c => rfl, fun _ => every_pure _⟩
  | _ => exact every_pure _

theorem checked_pltProgram : pltProgram.Every Checked := by
  unfold pltProgram
  refine (every_call _ _).2 ⟨trivial, fun s => Every.bind ?_ fun w => ?_⟩
  · refine Every.andThen ((every_cmd _).2 trivial) fun w0 => ?_
    exact Every.andThen ((every_cmd _).2 trivial) fun w1 => every_pure _
  · cases w with
    | error e => exact every_pure _
    | ok w => exact every_pure _

theorem checked_returnProgram (ret : Except UnwError ℕ) : (returnProgram ret).Every Checked := by
  unfold returnProgram
  refine (every_call _ _).2 ⟨trivial, fun s => ?_⟩
  split
  · refine Every.andThen (checked_getProgram _) fun ip => ?_
    exact (every_call _ _).2 ⟨fun c => rfl, fun _ => every_pure _⟩
  · exact (every_call _ _).2 ⟨fun c => rfl, fun _ => every_pure _⟩

theorem checked_finishProgram (prevIp prevCfa : Word) (ret : Except UnwError ℕ) :
    (finishProgram prevIp prevCfa ret).Every Checked := by
  unfold finishProgram
  refine (every_call _ _).2 ⟨fun c => rfl, fun _ => (every_call _ _).2 ⟨trivial, fun s => ?_⟩⟩
  split
  · exact every_pure _
  · refine Every.andThen (checked_returnProgram ret) fun ret => ?_
    refine (every_call _ _).2 ⟨trivial, fun s => ?_⟩
    split
    · exact every_pure _
    · cases ret with
      | ok n => exact every_pure _
      | error e => exact every_pure _

theorem keepsValidate_guessProgram (rbp : Word) : (guessProgram rbp).Every KeepsValidate := by
  unfold guessProgram rbpProgram
  refine (every_call _ _).2 ⟨trivial, fun s => ?_⟩
  refine Every.bind ((checked_getProgram rbp).mono Checked.keepsValidate) fun ret => ?_
  refine (every_call _ _).2 ⟨fun c => rfl, fun _ => Every.bind ?_ fun prevRbp => ?_⟩
  · refine (every_call _ _).2 ⟨trivial, fun t => ?_⟩
    exact (checked_getProgram _).mono Checked.keepsValidate
  · cases prevRbp with
    | error e => exact (every_call _ _).2 ⟨trivial, fun _ => every_pure _⟩
    | ok prevRbp =>
      refine (every_call _ _).2 ⟨trivial, fun word => ?_⟩
      refine (every_call _ _).2 ⟨fun c => rfl, fun _ => ?_⟩
      cases ret with
      | error e => exact (every_call _ _).2 ⟨fun c => rfl, fun _ => every_pure _⟩
      | ok n => exact (every_call _ _).2 ⟨fun c => rfl, fun _ => every_pure _⟩

theorem keepsValidate_frameChainProgram : frameChainProgram.Every KeepsValidate := by
  unfold frameChainProgram
  refine (every_call _ _).2 ⟨trivial, fun s => ?_⟩
  refine Every.andThen ((checked_getProgram _).mono Checked.keepsValidate) fun rbp => ?_
  split
  · exact (every_call _ _).2 ⟨fun c => rfl, fun _ => every_pure _⟩
  · exact keepsValidate_guessProgram rbp

theorem keepsValidate_plainFrameProgram : plainFrameProgram.Every KeepsValidate := by
  unfold plainFrameProgram
  refine Every.andThen (checked_pltProgram.mono Checked.keepsValidate) fun plt => ?_
  refine (every_call _ _).2 ⟨trivial, fun s => ?_⟩
  split
  · exact (every_call _ _).2 ⟨fun c => rfl, fun _ => every_pure _⟩
  · split
    · exact (every_call _ _).2 ⟨fun c => rfl, fun _ => every_pure _⟩
    · exact Every.andThen keepsValidate_frameChainProgram fun ret => every_pure _

theorem keepsValidate_frameProgram : frameProgram.Every KeepsValidate := by
  unfold frameProgram
  refine Every.andThen (checked_signalProgram.mono Checked.keepsValidate) fun format => ?_
  split
  · refine Every.bind (checked_handleSignalProgram.mono Checked.keepsValidate) fun ret => ?_
    cases ret with
    | error e => exact every_pure _
    | ok n => exact every_pure _
  · exact keepsValidate_plainFrameProgram

section Reads

variable {v : Validator} {m : Mem} {α : Type} {s t : St}

/-- Validation is on. -/
def Validating (s : St) : Prop := s.c.validate = true

theorem keepsValidate_preserves {β : Type} (c : FallbackCmd β) (h : KeepsValidate c) :
    Act.Preserves Validating (execFallback v m c) := by
  cases c with
  | state => exact fun s hs => hs
  | setCursor f => exact fun s hs => (h s.c).trans hs
  | access addr =>
    intro s hs
    show Validating (Act.attempt (accessMemAt v m addr) s).2
    rw [Act.attempt_snd]
    exact hs
  | deref addr => exact fun s hs => hs
  | uninitialised => exact fun s hs => hs

/-- Validation stays on. -/
theorem Validating.run {p : FallbackProg α} {r : Res UnwError α} (h : p.Every KeepsValidate)
    (hs : Validating s) (hrun : p.run (execFallback v m) s = (r, t)) : Validating t := by
  have hkeep : Validating (p.run (execFallback v m) s).2 :=
    h.run_preserves keepsValidate_preserves s hs
  rwa [hrun] at hkeep

/-- A program whose reads all go through `access_mem` validates them. -/
theorem validated_of_checked {p : FallbackProg α} (h : p.Every Checked) (hs : Validating s) :
    p.All (execFallback v m) ValidatedCall s := by
  refine h.all_of_inv Validating (fun c t hc ht => ?_)
    (fun c hc => keepsValidate_preserves c (Checked.keepsValidate c hc)) hs
  cases c with
  | access addr => exact ht
  | deref addr => exact hc
  | uninitialised => exact hc
  | _ => trivial

/-- An access comes back, with a word or without. -/
theorem get_run (loc : Word) (s : St) :
    ∃ r u, (getProgram loc).run (execFallback v m) s = (.ok r, u) := by
  unfold getProgram
  by_cases hloc : loc = 0
  · rw [if_pos hloc]
    exact ⟨_, _, rfl⟩
  · rw [if_neg hloc, access_reports]
    obtain ⟨r, g, hr⟩ := accessMemAt_peeks (v := v) (m := m) loc s
    exact ⟨r, _, hr⟩

theorem rbp_run (s : St) : ∃ r u, rbpProgram.run (execFallback v m) s = (.ok r, u) :=
  get_run (s.c.loc RBP) s

/-- **The guess follows `RBP`.** Its second access to the location of `RBP` is not looked at. -/
theorem not_validated_guess (rbp : Word) :
    ¬(guessProgram rbp).All (execFallback v m) ValidatedCall s := by
  intro h
  unfold guessProgram at h
  have hget := (all_bind.1 ((all_call.1 h).2 s s rfl)).2
  obtain ⟨ret, u, hret⟩ := get_run (v := v) (m := m) rbp s
  have hset := (all_call.1 (hget ret u hret)).2 () _ rfl
  obtain ⟨prevRbp, u', hprev⟩ := rbp_run (v := v) (m := m)
    { u with c := { u.c with frameInfo := guessedFrame u.c.frameInfo } }
  have hrest := (all_bind.1 hset).2 prevRbp u' hprev
  cases prevRbp with
  | error e => exact (all_call.1 hrest).1
  | ok prevRbp => exact (all_call.1 hrest).1

/-- The frame-chain case is validated as long as it has no frame pointer to follow. -/
theorem validated_frameChain_iff (hs : Validating s) :
    frameChainProgram.All (execFallback v m) ValidatedCall s ↔
      ∀ rbp u, read (fun c => dwarfGet v m c (s.c.loc RBP)) s = (.ok rbp, u) → rbp = 0 := by
  unfold frameChainProgram
  constructor
  · intro h rbp u hread
    by_contra hne
    have hloc := (all_call.1 h).2 s s rfl
    have hguess := ((get_reports (s.c.loc RBP)).all_andThen.1 hloc).2 rbp u hread
    rw [if_neg hne] at hguess
    exact not_validated_guess rbp hguess
  · intro h
    refine all_call.2 ⟨trivial, fun b t hb => ?_⟩
    cases hb
    have hget := checked_getProgram (s.c.loc RBP)
    refine (get_reports _).all_andThen.2 ⟨validated_of_checked hget hs, fun rbp u hread => ?_⟩
    have hu : Validating u := hs.run (hget.mono Checked.keepsValidate)
      ((get_reports _).run_eq_ok.2 hread)
    rw [if_pos (h rbp u hread)]
    exact validated_of_checked ((every_call _ _).2 ⟨fun c => rfl, fun _ => every_pure _⟩) hu

theorem validated_plainFrame_iff (hs : Validating s) :
    plainFrameProgram.All (execFallback v m) ValidatedCall s ↔
      ∀ u, isPltEntry v m s = (.ok false, u) → u.c.loc RBP ≠ 0 →
        ∀ rbp w, read (fun c => dwarfGet v m c (u.c.loc RBP)) u = (.ok rbp, w) → rbp = 0 := by
  have hkeep : ∀ {b u}, isPltEntry v m s = (.ok b, u) → Validating u := fun hplt =>
    hs.run (checked_pltProgram.mono Checked.keepsValidate) (plt_reports.run_eq_ok.2 hplt)
  unfold plainFrameProgram
  rw [plt_reports.all_andThen]
  constructor
  · rintro ⟨-, h⟩ u hplt hloc
    have hrest := (all_call.1 (h false u hplt)).2 u u rfl
    rw [if_neg Bool.false_ne_true, if_neg hloc] at hrest
    exact (validated_frameChain_iff (hkeep hplt)).1 (frameChain_reports.all_andThen.1 hrest).1
  · intro h
    refine ⟨validated_of_checked checked_pltProgram hs, fun plt u hplt => ?_⟩
    refine all_call.2 ⟨trivial, fun b t hb => ?_⟩
    cases hb
    have hu := hkeep hplt
    cases plt with
    | true =>
      -- a PLT frame: the CFA is moved, and nothing is read
      rw [if_pos rfl]
      exact validated_of_checked ((every_call _ _).2 ⟨fun c => rfl, fun _ => every_pure _⟩) hu
    | false =>
      rw [if_neg Bool.false_ne_true]
      by_cases hloc : u.c.loc RBP = 0
      · rw [if_pos hloc]
        exact validated_of_checked ((every_call _ _).2 ⟨fun c => rfl, fun _ => every_pure _⟩) hu
      · rw [if_neg hloc]
        refine frameChain_reports.all_andThen.2 ⟨?_, fun ret w _ => all_pure _⟩
        exact (validated_frameChain_iff hu).2 (h u hplt hloc)

/-- The words of a frame that is no signal frame. -/
theorem validated_frame_iff (hs : Validating s) :
    frameProgram.All (execFallback v m) ValidatedCall s ↔
      ∀ u, unwIsSignalFrame v m s = (.ok .none, u) →
        plainFrameProgram.All (execFallback v m) ValidatedCall u := by
  have hkeep : ∀ {f u}, unwIsSignalFrame v m s = (.ok f, u) → Validating u := fun hsignal =>
    hs.run (checked_signalProgram.mono Checked.keepsValidate) (signal_reports.run_eq_ok.2 hsignal)
  unfold frameProgram
  rw [signal_reports.all_andThen]
  constructor
  · rintro ⟨-, h⟩ u hsignal
    have hrest := h .none u hsignal
    rwa [if_neg (not_not.2 rfl)] at hrest
  · intro h
    refine ⟨validated_of_checked checked_signalProgram hs, fun format u hsignal => ?_⟩
    by_cases hnone : format = .none
    · subst hnone
      rw [if_neg (not_not.2 rfl)]
      exact h u hsignal
    · rw [if_pos hnone]
      refine all_bind.2 ⟨validated_of_checked checked_handleSignalProgram (hkeep hsignal), ?_⟩
      intro ret w _
      cases ret with
      | error e => exact all_pure _
      | ok n => exact all_pure _

theorem validated_step_iff :
    stepProgram.All (execFallback v m) ValidatedCall s ↔
      frameProgram.All (execFallback v m) ValidatedCall (validated s) := by
  unfold stepProgram
  constructor
  · intro h
    have hset := (all_call.1 ((all_call.1 h).2 s s rfl)).2 () _ rfl
    exact (frame_reports.all_andThen.1 hset).1
  · intro h
    refine all_call.2 ⟨trivial, fun b t hb => ?_⟩
    cases hb
    refine all_call.2 ⟨trivial, fun b t hb => ?_⟩
    cases hb
    refine frame_reports.all_andThen.2 ⟨h, fun ret u hframe => ?_⟩
    have hu : Validating u := Validating.run (s := validated s) keepsValidate_frameProgram rfl
      (frame_reports.run_eq_ok.2 hframe)
    cases ret with
    | none => exact all_pure _
    | some ret => exact validated_of_checked (checked_finishProgram _ _ ret) hu

end Reads

end Programs

/-! ### When the guess is made -/

/-- The guess is made, with this frame pointer: the code at the instruction pointer is no signal
trampoline, no system call and no PLT entry, and there is a word other than 0 where `RBP` is
saved. -/
def GuessTaken (v : Validator) (m : Mem) (s : St) (rbp : Word) : Prop :=
  ∃ u₁ u₂ u₃, unwIsSignalFrame v m s = (.ok .none, u₁) ∧ isPltEntry v m u₁ = (.ok false, u₂) ∧
    s.c.loc RBP ≠ 0 ∧ read (fun c => dwarfGet v m c (s.c.loc RBP)) u₂ = (.ok rbp, u₃) ∧ rbp ≠ 0

section Guess

variable {v : Validator} {m : Mem} {s : St}

/-- Put this procedure info into the state. -/
def putPi (p : PiState) (s : St) : St := withPi s p

theorem putPi_frameBlind : FrameBlind putPi where
  commutes _ _ _ := rfl
  getReg _ _ _ _ _ := rfl
  stashFrames _ _ := rfl

/-- The guess does not depend on the procedure info. -/
theorem GuessTaken.withPi {rbp : Word} (h : GuessTaken v m s rbp) (p : PiState) :
    GuessTaken v m (withPi s p) rbp := by
  obtain ⟨u₁, u₂, u₃, hsignal, hplt, hloc, hread, hne⟩ := h
  obtain ⟨hout₁, p₁, hstate₁⟩ := unwIsSignalFrame_blind putPi_frameBlind v m s p
  rw [hsignal] at hout₁ hstate₁
  obtain ⟨hout₂, p₂, hstate₂⟩ := isPltEntry_blind putPi_frameBlind v m u₁ p₁
  rw [hplt] at hout₂ hstate₂
  have hignores : Act.Ignores putPi (read fun c => dwarfGet v m c (s.c.loc RBP)) :=
    putPi_frameBlind.read fun _ _ => rfl
  obtain ⟨hout₃, p₃, hstate₃⟩ := hignores u₂ p₂
  rw [hread] at hout₃ hstate₃
  exact ⟨putPi p₁ u₁, putPi p₂ u₂, putPi p₃ u₃, Prod.ext hout₁ hstate₁, Prod.ext hout₂ hstate₂,
    hloc, Prod.ext hout₃ hstate₃, hne⟩

theorem guessTaken_withPi {rbp : Word} (p : PiState) :
    GuessTaken v m (withPi s p) rbp ↔ GuessTaken v m s rbp :=
  ⟨fun h => h.withPi ⟨s.c.pi, s.ciePool⟩, fun h => h.withPi p⟩

/-- The words of the fallback are all validated, unless the guess is made. -/
theorem validated_frame_iff_guess (hs : Validating s) :
    frameProgram.All (execFallback v m) ValidatedCall s ↔ ∀ rbp, ¬GuessTaken v m s rbp := by
  have hkeep : ∀ {u}, unwIsSignalFrame v m s = (.ok .none, u) →
      Validating u ∧ u.c.loc = s.c.loc := by
    intro u hsignal
    obtain ⟨format, g, hrun⟩ := unwIsSignalFrame_run v m s
    rw [hsignal] at hrun
    obtain rfl := congrArg Prod.snd hrun
    exact ⟨hs, rfl⟩
  have hplts : ∀ {u w b}, isPltEntry v m u = (.ok b, w) → w.c.loc = u.c.loc := by
    intro u w b hplt
    obtain ⟨plt, g, hrun⟩ := isPltEntry_run v m u
    rw [hplt] at hrun
    obtain rfl := congrArg Prod.snd hrun
    rfl
  rw [validated_frame_iff hs]
  constructor
  · rintro h rbp ⟨u₁, u₂, u₃, hsignal, hplt, hloc, hread, hne⟩
    obtain ⟨hu₁, hloc₁⟩ := hkeep hsignal
    have hloc₂ : u₂.c.loc = s.c.loc := (hplts hplt).trans hloc₁
    rw [← hloc₂] at hloc hread
    exact hne ((validated_plainFrame_iff hu₁).1 (h u₁ hsignal) u₂ hplt hloc rbp u₃ hread)
  · intro h u₁ hsignal
    obtain ⟨hu₁, hloc₁⟩ := hkeep hsignal
    refine (validated_plainFrame_iff hu₁).2 fun u₂ hplt hloc rbp u₃ hread => ?_
    have hloc₂ : u₂.c.loc = s.c.loc := (hplts hplt).trans hloc₁
    rw [hloc₂] at hloc hread
    by_contra hne
    exact h rbp ⟨u₁, u₂, u₃, hsignal, hplt, hloc, hread, hne⟩

end Guess

/-- **What the fallback reads.** When `dwarf_step` has found no unwind info, `unw_step` is the run
of the program, and all the words it reads are validated if and only if the guess is not made. -/
theorem fallback_reads_iff (k : Kernel) (v : Validator) (m : Mem) (fuel : ℕ) (s t : St)
    (hinfo : dwarfStep k v m fuel (arm s) = (.err .enoinfo, t)) :
    Act.attempt (unwStep k v m fuel) s = stepProgram.run (execFallback v m) (disarm s t) ∧
      (stepProgram.All (execFallback v m) ValidatedCall (disarm s t) ↔
        ∀ rbp, ¬GuessTaken v m (arm s) rbp) := by
  constructor
  · rw [stepProgram_reports]
    unfold Act.attempt
    rw [unwStep_of_enoinfo hinfo]
  · obtain ⟨p, rfl⟩ := dwarfStep_enoinfo_withPi hinfo
    rw [validated_step_iff, validated_frame_iff_guess (v := v) (m := m) (s := validated _) rfl]
    exact forall_congr' fun rbp => not_congr (guessTaken_withPi (v := v) (m := m) (s := arm s) p)

/-- The cursor of a frame that has not saved `RBP`. -/
def noRbpState : St := { bottomState with c := { bottomCursor with loc := fun _ => 0 } }

theorem fallback_reads_no_rbp :
    stepProgram.All (execFallback msyncValidate bottomMem) ValidatedCall
      (disarm noRbpState (dwarfStep bareKernel msyncValidate bottomMem 0 (arm noRbpState)).2) := by
  have hinfo : (dwarfStep bareKernel msyncValidate bottomMem 0 (arm noRbpState)).1 =
      .err .enoinfo := by decide +kernel
  refine (fallback_reads_iff bareKernel msyncValidate bottomMem 0 noRbpState _
    (Act.run_of_outcome hinfo)).2.2 ?_
  rintro rbp ⟨u₁, u₂, u₃, -, -, hloc, -⟩
  exact hloc rfl

/-- The addresses that are followed without validation. -/
def derefs (calls : List (Call FallbackCmd St)) : List Word :=
  calls.filterMap fun x =>
    match x with
    | ⟨.deref addr, _⟩ => some addr
    | _ => none

theorem derefs_of_validated {calls : List (Call FallbackCmd St)}
    (h : ∀ x ∈ calls, ValidatedCall x) : derefs calls = [] := by
  refine List.filterMap_eq_nil_iff.2 fun x hx => ?_
  have hx := h x hx
  obtain ⟨cmd, s⟩ := x
  cases cmd with
  | deref addr => exact absurd hx id
  | _ => rfl

/-- A frame whose saved `RBP` is `0x10`, in the first page. -/
def wildMem : Mem := store64 (fun _ => 0) 0x30000 0x10

/-- The word at `RBP` cannot be read, and is followed all the same. -/
theorem fallback_follows_wild_rbp :
    (dwarfStep bareKernel msyncValidate wildMem 0 (arm bottomState)).1 = .err .enoinfo ∧
      (accessMemAt msyncValidate wildMem 0x10 (arm bottomState)).1 = .err .eunspec ∧
      derefs (stepProgram.calls (execFallback msyncValidate wildMem) (disarm bottomState
        (dwarfStep bareKernel msyncValidate wildMem 0 (arm bottomState)).2)) = [0x10] ∧
      ¬stepProgram.All (execFallback msyncValidate wildMem) ValidatedCall (disarm bottomState
        (dwarfStep bareKernel msyncValidate wildMem 0 (arm bottomState)).2) := by
  have hderefs : derefs (stepProgram.calls (execFallback msyncValidate wildMem) (disarm bottomState
      (dwarfStep bareKernel msyncValidate wildMem 0 (arm bottomState)).2)) = [0x10] := by
    decide +kernel
  refine ⟨by decide +kernel, by decide +kernel, hderefs, fun h => ?_⟩
  rw [derefs_of_validated h] at hderefs
  cases hderefs

end LibunwindKern
