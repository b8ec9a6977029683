import LibunwindKern.Trace.Entries
import LibunwindKern.X86.UsePrevInstr

/-!
# When the two backtraces agree

For a call both unwinders read the return address from the stack. `slow_backtrace` stores
it as it is and `tdep_trace` stores `rip - d->use_prev_instr`, one less. So the two agree if
neither stores anything (`EndsAtOnce`), and otherwise only if the return addresses they have
read differ by one (`ReadsApart`).

No entry of a cache is a signal frame (`Traced.signalFree`), so there is always a call.

* `tdepTrace_first`: what the fast backtrace does with the first frame.
* `slowBacktrace_first`: what the slow one does.
* `backtraces_agree_iff`: when their results are the same.
-/

namespace LibunwindKern

open CProg ByteMem Unw Fast

/-! ### The first frame -/

/-- The tracer with `stash_frames` set. -/
def Tracer.stashing (s : Tracer) : Tracer :=
  { s with session := { s.session with
      st := { s.session.st with c := { s.session.st.c with stashFrames := true } } } }

/-- What the fast backtrace knows about the first frame: the properties `f` from the cache, and
the registers. `u` is the state after the lookup. -/
structure FirstFrame (K : KernMalloc) (k : Kernel) (v : Validator) (fuel : ℕ) (t : Tid)
    (s : Tracer) (f : FrameInfo) (r : TraceRegs) (u : Tracer) : Prop where
  regs : r = { firstRegs s.session with rip := lookupIp s.session.st.c s.session.st.c.ip }
  found : ∃ cache u₀, onTrace (traceCacheGet K t) s.stashing = (.ok cache, u₀) ∧ cache ≠ 0 ∧
    traceLookup K k v fuel cache r u₀ = (.ok (some f), u)

/-- The fast backtrace does not go beyond this frame: it is marked as the last one, or its
return address is bogus. -/
def WalkEnds (v : Validator) (f : FrameInfo) (r : TraceRegs) (u : Tracer) : Prop :=
  f.lastFrame = true ∨ ∃ r' u', nextFrame v f r u = (.ok r', u') ∧ r'.rip < 0x4000

/-- `unw_step` finds no caller of the frame. -/
def NoCaller (k : Kernel) (v : Validator) (m : Mem) (fuel : ℕ) (s : St) : Prop :=
  (unwStep k v m fuel s).1 = .ok 0 ∨ ∃ e, (unwStep k v m fuel s).1 = .err e

/-- The first frame is the last one for both backtraces. -/
def EndsAtOnce (K : KernMalloc) (k : Kernel) (v : Validator) (fuel : ℕ) (t : Tid)
    (s : Tracer) : Prop :=
  (∃ f r u, FirstFrame K k v fuel t s f r u ∧ WalkEnds v f r u) ∧
    NoCaller k v s.session.mem fuel s.session.st

/-- The return address that `unw_step` finds for the first frame is one less than the one that
the fast backtrace reads. -/
def ReadsApart (K : KernMalloc) (k : Kernel) (v : Validator) (fuel : ℕ) (t : Tid)
    (s : Tracer) : Prop :=
  ∃ f r u r' u' n w, FirstFrame K k v fuel t s f r u ∧ nextFrame v f r u = (.ok r', u') ∧
    unwStep k v s.session.mem fuel s.session.st = (.ok (n + 1), w) ∧ w.c.ip = r'.rip - 1

section Fast

variable {K : KernMalloc} {k : Kernel} {v : Validator} {fuel : ℕ} {t : Tid} {s s' u : Tracer}

theorem onTrace_session {α : Type} (x : TraceAct α) (s : Tracer) :
    (onTrace x s).2.session = s.session := by
  unfold onTrace
  split <;> rfl

/-- A turn of the loop that comes back with a result other than an error. -/
theorem traceTurn_eq {cache : Word} {r : TraceRegs} {turn : Except UnwError Unit ⊕ TraceRegs}
    (h : traceTurn K k v fuel cache r s = (.ok turn, s')) (hok : ∀ e, turn ≠ .inl (.error e)) :
    ∃ f u, traceLookup K k v fuel cache { r with rip := lookupIp s.session.st.c r.rip } s =
        (.ok (some f), u) ∧
      (turn = .inl (.ok ()) ∧
          WalkEnds v f { r with rip := lookupIp s.session.st.c r.rip } u ∨
        ¬WalkEnds v f { r with rip := lookupIp s.session.st.c r.rip } u ∧
          ∃ r', nextFrame v f { r with rip := lookupIp s.session.st.c r.rip } u = (.ok r', s') ∧
            turn = .inr r') := by
  unfold traceTurn at h
  rw [Act.get_bind] at h
  obtain ⟨f, u, hlookup, h⟩ := Act.bind_eq_ok h
  cases f with
  | none =>
    cases h
    exact absurd rfl (hok _)
  | some f =>
    refine ⟨f, u, hlookup, ?_⟩
    change (if f.virtualAddress ≠ _ then _ else _ : Fast _) u = _ at h
    split at h
    · cases h
    · split at h
      · next hlast =>
        -- the last frame
        cases h
        exact Or.inl ⟨rfl, Or.inl hlast⟩
      · next hlast =>
        obtain ⟨next, u', hnext, h⟩ := Act.bind_eq_ok h
        obtain ⟨r', rfl, hrun⟩ | ⟨e, rfl, hrun⟩ := Act.attempt_eq_ok hnext
        · change (if r'.rip < 0x4000 then _ else _ : Fast _) u' = _ at h
          split at h
          · next hlow =>
            -- an instruction pointer in the first pages
            cases h
            exact Or.inl ⟨rfl, Or.inr ⟨r', _, hrun, hlow⟩⟩
          · next hhigh =>
            cases h
            refine Or.inr ⟨?_, r', hrun, rfl⟩
            rintro (hlast' | ⟨r'', u'', hrun', hlow⟩)
            · exact hlast hlast'
            · rw [hrun] at hrun'
              cases hrun'
              exact hhigh hlow
        · cases h
          exact absurd rfl (hok e)

/-- The first turn of the loop. -/
theorem traceLoop_first {cache : Word} {n : ℕ} {r : TraceRegs} {addrs : List Word}
    (h : traceLoop K k v fuel cache (n + 1) r s = (.ok (.ok (), addrs), s')) :
    ∃ f u, traceLookup K k v fuel cache { r with rip := lookupIp s.session.st.c r.rip } s =
        (.ok (some f), u) ∧
      (addrs = [] ∧ WalkEnds v f { r with rip := lookupIp s.session.st.c r.rip } u ∨
        ¬WalkEnds v f { r with rip := lookupIp s.session.st.c r.rip } u ∧ ∃ r' u' rest,
          nextFrame v f { r with rip := lookupIp s.session.st.c r.rip } u = (.ok r', u') ∧
            addrs = lookupIp u'.session.st.c r'.rip :: rest) := by
  unfold traceLoop at h
  obtain ⟨turn, u', hturn, h⟩ := Act.bind_eq_ok h
  cases turn with
  | inl ret =>
    cases h
    obtain ⟨f, u, hlookup, ⟨-, hends⟩ | ⟨-, r', -, hturn'⟩⟩ := traceTurn_eq hturn (by simp)
    · exact ⟨f, u, hlookup, Or.inl ⟨rfl, hends⟩⟩
    · cases hturn'
  | inr r' =>
    obtain ⟨f, u, hlookup, ⟨hturn', -⟩ | ⟨hgoes, r'', hnext, hturn'⟩⟩ :=
      traceTurn_eq hturn (by simp)
    · cases hturn'
    · cases hturn'
      change (traceLoop K k v fuel cache n r' >>= fun rest =>
        pure (rest.1, lookupIp u'.session.st.c r'.rip :: rest.2)) u' = _ at h
      obtain ⟨rest, w, -, h⟩ := Act.bind_eq_ok h
      obtain ⟨-, haddrs⟩ := Prod.mk.inj (Res.ok.inj (congrArg Prod.fst h))
      exact ⟨f, u, hlookup, Or.inr ⟨hgoes, r', u', rest.2, hnext, haddrs.symm⟩⟩

theorem tdepTrace_eq {size : ℤ} (hsize : 0 < size) (s : Tracer) :
    tdepTrace K k v fuel t size s =
      (onTrace (traceCacheGet K t) >>= fun cache =>
        if cache = 0 then do
          Fast.setCursor fun c => { c with stashFrames := false }
          pure (.error .enomem, [])
        else
          traceLoop K k v fuel cache size.toNat (firstRegs s.session) :
        Fast (Except UnwError Unit × List Word)) s.stashing := by
  unfold tdepTrace
  rw [if_neg (not_le.mpr hsize)]
  rfl

/-- **The first frame of the fast backtrace.** -/
theorem tdepTrace_first {size : ℤ} {addrs : List Word} (hsize : 0 < size)
    (h : tdepTrace K k v fuel t size s = (.ok (.ok (), addrs), s')) :
    ∃ f r u, FirstFrame K k v fuel t s f r u ∧
      (addrs = [] ∧ WalkEnds v f r u ∨
        ¬WalkEnds v f r u ∧ ∃ r' u' rest, nextFrame v f r u = (.ok r', u') ∧
          addrs = lookupIp u'.session.st.c r'.rip :: rest) := by
  obtain ⟨n, hn⟩ : ∃ n, size.toNat = n + 1 := ⟨size.toNat - 1, by omega⟩
  rw [tdepTrace_eq hsize] at h
  obtain ⟨cache, u₀, hcache, h⟩ := Act.bind_eq_ok h
  have hsession : u₀.session = s.stashing.session := by
    have hkeeps := onTrace_session (traceCacheGet K t) s.stashing
    rwa [hcache] at hkeeps
  by_cases hnull : cache = 0
  · rw [if_pos hnull] at h
    cases h
  · rw [if_neg hnull, hn] at h
    obtain ⟨f, u, hlookup, hfirst⟩ := traceLoop_first h
    rw [hsession] at hlookup hfirst
    exact ⟨f, _, u, ⟨rfl, cache, u₀, hcache, hnull, hlookup⟩, hfirst⟩

theorem FirstFrame.unique {f f' : FrameInfo} {r r' : TraceRegs} {u u' : Tracer}
    (h : FirstFrame K k v fuel t s f r u) (h' : FirstFrame K k v fuel t s f' r' u') :
    f = f' ∧ r = r' ∧ u = u' := by
  obtain ⟨rfl, cache, u₀, hcache, -, hlookup⟩ := h
  obtain ⟨rfl, cache', u₀', hcache', -, hlookup'⟩ := h'
  rw [hcache] at hcache'
  cases hcache'
  rw [hlookup] at hlookup'
  cases hlookup'
  exact ⟨rfl, rfl, rfl⟩

/-- The first frame is not a signal frame, if no entry of the caches is one. -/
theorem FirstFrame.type_ne {f : FrameInfo} {r : TraceRegs} (h : FirstFrame K k v fuel t s f r u)
    (hfree : s.trace.SignalFree) : f.frameType ≠ .sigreturn := by
  obtain ⟨-, cache, u₀, hcache, -, hlookup⟩ := h
  have hget : TracerStaysFree s.stashing (onTrace (traceCacheGet K t) s.stashing).2 :=
    onTrace_staysFree traceCacheGet_staysFree s.stashing
  rw [hcache] at hget
  exact traceLookup_type (hget hfree) hlookup

/-- Reading memory leaves `use_prev_instr` alone. -/
theorem accessMemFast_keeps (addr : Word) :
    Act.Keeps (fun s : Tracer => s.session.st.c.usePrevInstr) (accessMemFast v addr) := by
  have hread : ∀ m : Mem, Act.Keeps (fun s : St => s.c.usePrevInstr)
      (Act.get >>= fun s : St =>
        if s.c.validate then Unw.read fun c => dwarfGet v m c addr else pure (load64 m addr)) := by
    intro m
    refine Act.Keeps.bind Act.Keeps.get fun s => ?_
    split
    · exact read_keeps (fun _ _ => rfl) _
    · exact Act.Keeps.pure _
  exact fun s => hread s.session.mem s.session.st

theorem standardRegs_keeps (f : FrameInfo) (rbp cfa : Word) :
    Act.Keeps (fun s : Tracer => s.session.st.c.usePrevInstr) (standardRegs v f rbp cfa) := by
  refine Act.Keeps.bind (accessMemFast_keeps _) fun rip => ?_
  refine Act.Keeps.bind ?_ fun rbp => Act.Keeps.pure _
  unfold savedRbp
  split
  · exact accessMemFast_keeps _
  · exact Act.Keeps.pure _

/-- The frame after a call needs to back up. -/
theorem nextFrame_usePrevInstr {f : FrameInfo} {r r' : TraceRegs} {u u' : Tracer}
    (htype : f.frameType ≠ .sigreturn) (h : nextFrame v f r u = (.ok r', u')) :
    u'.session.st.c.usePrevInstr = true := by
  have hstandard : ∀ {u : Tracer}, standardNext v f r u = (.ok r', u') →
      u'.session.st.c.usePrevInstr = true := by
    intro u h
    obtain ⟨⟨⟩, u₁, hset, h⟩ := Act.bind_eq_ok h
    have hkeeps := standardRegs_keeps (v := v) f r.rbp
      ((if f.cfaRegRsp then r.rsp else r.rbp) + f.cfaRegOffset.signExtend 64) u₁
    rw [h] at hkeeps
    cases hset
    exact hkeeps
  unfold nextFrame at h
  cases hf : f.frameType with
  | guessed =>
    rw [hf] at h
    obtain ⟨⟨⟩, u₁, -, h⟩ := Act.bind_eq_ok h
    exact hstandard h
  | standard =>
    rw [hf] at h
    exact hstandard h
  | sigreturn => exact absurd hf htype
  | other =>
    rw [hf] at h
    cases h

end Fast

section Slow

variable {k : Kernel} {v : Validator} {m : Mem} {fuel : ℕ} {size : ℤ} {uc : Word} {s t : St}

/-- **The first frame of the slow backtrace.** -/
theorem slowBacktrace_first (hsize : 0 < size) (hinit : unwInitLocal v m uc s = (.ok (), t)) :
    (NoCaller k v m fuel t → (slowBacktrace k v m fuel size uc s).1 = .ok []) ∧
      ∀ addrs, (slowBacktrace k v m fuel size uc s).1 = .ok addrs → ¬NoCaller k v m fuel t →
        ∃ n w rest, unwStep k v m fuel t = (.ok (n + 1), w) ∧ addrs = w.c.ip :: rest := by
  obtain ⟨n, hn⟩ : ∃ n, size.toNat = n + 1 := ⟨size.toNat - 1, by omega⟩
  have hslow : slowBacktrace k v m fuel size uc s = slowLoop k v m fuel (n + 1) t := by
    unfold slowBacktrace
    rw [Act.bind_of_ok (Act.attempt_of_ok hinit), hn]
  rw [hslow]
  unfold slowLoop NoCaller
  rcases hstep : unwStep k v m fuel t with ⟨r, w⟩
  obtain ⟨i, rfl⟩ | ⟨e, rfl⟩ | hr := r.ok_or_err_or_stuck
  · rw [Act.bind_of_ok (Act.attempt_of_ok hstep)]
    cases i with
    | zero => exact ⟨fun _ => rfl, fun addrs _ hcaller => absurd (Or.inl rfl) hcaller⟩
    | succ i =>
      refine ⟨by simp, fun addrs h _ => ?_⟩
      change ((slowLoop k v m fuel n >>= fun rest => pure (w.c.ip :: rest)) w).1 = _ at h
      obtain ⟨rest, w', -, hret⟩ := Act.bind_eq_ok (Act.run_of_outcome h)
      exact ⟨i, w, rest, rfl, (Res.ok.inj (congrArg Prod.fst hret)).symm⟩
  · rw [Act.bind_of_ok (Act.attempt_of_err hstep)]
    exact ⟨fun _ => rfl, fun addrs _ hcaller => absurd (Or.inr ⟨e, rfl⟩) hcaller⟩
  · -- the step has not come back, and neither does the backtrace
    rw [Act.attempt_bind_of_stuck hstep hr]
    refine ⟨?_, fun addrs h => absurd h (Res.bind_ne_ok hr.1 _ _)⟩
    rintro (hzero | ⟨e, he⟩)
    · exact absurd hzero (hr.1 0)
    · exact absurd he (hr.2 e)

end Slow

/-! ### Agreement -/

/-- **When the fast and the slow backtrace agree.** If the fast backtrace of a context succeeds,
the slow one gives the same addresses if the first frame is the last one for both. Otherwise,
whatever has been traced before, it does so only if the return addresses the two have read
differ by one. -/
theorem backtraces_agree_iff (K : KernMalloc) (k : Kernel) (v : Validator) (m : Mem) (fuel : ℕ)
    (t : Tid) (size : ℤ) (uc : Word) (ts : TraceSt) (s s₁ : St) (u : Tracer) (addrs : List Word)
    (hsize : 0 < size) (hinit : unwInitLocal v m uc s = (.ok (), s₁))
    (hfast : tdepTrace K k v fuel t size ⟨⟨s₁, m⟩, ts⟩ = (.ok (.ok (), addrs), u)) :
    (EndsAtOnce K k v fuel t ⟨⟨s₁, m⟩, ts⟩ →
      (slowBacktrace k v m fuel size uc s).1 = .ok addrs) ∧
    (Traced K ts → (slowBacktrace k v m fuel size uc s).1 = .ok addrs →
      EndsAtOnce K k v fuel t ⟨⟨s₁, m⟩, ts⟩ ∨ ReadsApart K k v fuel t ⟨⟨s₁, m⟩, ts⟩) := by
  obtain ⟨f, r, u₁, hfirst, hwalk⟩ := tdepTrace_first hsize hfast
  have hnone : NoCaller k v m fuel s₁ → (slowBacktrace k v m fuel size uc s).1 = .ok [] :=
    (slowBacktrace_first hsize hinit).1
  constructor
  · rintro ⟨⟨f', r', u', hfirst', hends⟩, hcaller⟩
    obtain ⟨rfl, rfl, rfl⟩ := hfirst.unique hfirst'
    obtain ⟨rfl, -⟩ | ⟨hgoes, -⟩ := hwalk
    · exact hnone hcaller
    · exact absurd hends hgoes
  · intro htraced hslow
    by_cases hcaller : NoCaller k v m fuel s₁
    · -- the slow backtrace stores nothing, and so does the fast one
      left
      have hempty : addrs = [] := Res.ok.inj (hslow.symm.trans (hnone hcaller))
      obtain ⟨-, hends⟩ | ⟨-, r', u', rest, -, haddrs⟩ := hwalk
      · exact ⟨⟨f, r, u₁, hfirst, hends⟩, hcaller⟩
      · rw [hempty] at haddrs
        cases haddrs
    · right
      obtain ⟨n, w, rest, hstep, haddrs⟩ := (slowBacktrace_first hsize hinit).2 addrs hslow hcaller
      obtain ⟨hempty, -⟩ | ⟨-, r', u', rest', hnext, haddrs'⟩ := hwalk
      · rw [hempty] at haddrs
        cases haddrs
      · refine ⟨f, r, u₁, r', u', n, w, hfirst, hnext, hstep, ?_⟩
        -- the frame has been called, so the fast backtrace has backed up
        have hprev : u'.session.st.c.usePrevInstr = true :=
          nextFrame_usePrevInstr (hfirst.type_ne htraced.signalFree) hnext
        have hhead : lookupIp u'.session.st.c r'.rip = w.c.ip :=
          (List.cons.inj (haddrs'.symm.trans haddrs)).1
        calc w.c.ip = lookupIp u'.session.st.c r'.rip := hhead.symm
          _ = r'.rip - 1 := if_pos hprev

/-- The context of an outermost frame: there is no unwind info for it, and `RBP` is 0. -/
def outermostMem : Mem := savedContext 0x10000 0x20000 0 fun _ => 0

def outermostTracer : Tracer := ⟨⟨initState outermostMem, outermostMem⟩, bootTrace⟩

/-- Both backtraces of the outermost frame are empty. -/
theorem backtraces_agree_outermost :
    EndsAtOnce bumpKernel bareKernel msyncValidate 0 1 outermostTracer ∧
      (slowBacktrace bareKernel msyncValidate outermostMem 0 8 0x40000 bottomState).1 = .ok [] := by
  have hinit : (unwInitLocal msyncValidate outermostMem 0x40000 bottomState).1 = .ok () := by
    decide +kernel
  have hfast : (tdepTrace bumpKernel bareKernel msyncValidate 0 1 8 outermostTracer).1 =
      .ok (.ok (), []) := by decide +kernel
  have hstep : (unwStep bareKernel msyncValidate outermostMem 0 (initState outermostMem)).1 =
      .ok 0 := by decide +kernel
  obtain ⟨f, r, u, hfirst, hwalk⟩ := tdepTrace_first (by decide) (Act.run_of_outcome hfast)
  have hends : EndsAtOnce bumpKernel bareKernel msyncValidate 0 1 outermostTracer := by
    obtain ⟨-, hends⟩ | ⟨-, r', u', rest, -, haddrs⟩ := hwalk
    · exact ⟨⟨f, r, u, hfirst, hends⟩, Or.inl hstep⟩
    · cases haddrs
  refine ⟨hends, ?_⟩
  exact (backtraces_agree_iff bumpKernel bareKernel msyncValidate outermostMem 0 1 8 0x40000
    bootTrace bottomState (initState outermostMem) _ [] (by decide) (Act.run_of_outcome hinit)
    (Act.run_of_outcome hfast)).1 hends

/-- The context of a call from `0x11000`, in the procedure with two rows. -/
def calledMem : Mem := savedContext 0x5012 0x20000 0x20100 (store64 twoRowsMem 0x20008 0x11000)

def calledTracer : Tracer := ⟨⟨initState calledMem, calledMem⟩, bootTrace⟩

/-- The fast backtrace of a call stores the return address less one. -/
theorem backtraces_off_by_one :
    (tdepTrace bumpKernel twoRowsKernel msyncValidate 9 1 1 calledTracer).1 =
        .ok (.ok (), [0x10fff]) ∧
      (slowBacktrace twoRowsKernel msyncValidate calledMem 9 1 0x40000 bottomState).1 =
        .ok [0x11000] := by
  decide +kernel

end LibunwindKern
