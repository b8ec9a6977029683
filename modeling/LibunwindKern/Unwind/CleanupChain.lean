import LibunwindKern.Unwind.TwoPhase

/-!
# Landing pads and `_Unwind_Resume`

The model of `_Unwind_Resume` (`Unwind.c`), which the code at a landing pad calls when it has cleaned
up and the exception goes on. `abort` is modelled as a panic.

An exception is one call of `_Unwind_RaiseException` and then one call of `_Unwind_Resume` for every
landing pad that was installed. Each of them is a run of phase 2 of its own, which starts at the frame
that it was called from. `resumeChain` is the whole chain, for any landing pads.

Phase 2 calls one personality at most, because it panics when that one answers
`_URC_CONTINUE_UNWIND`. So the chain does not leave the frame it landed in first.

* `phase2_visits_first`: phase 2 visits the innermost frame with a personality.
* `StaysIn` is the invariant of the chain: all calls since the search are for that frame.
* `raise_enters_handler_iff`: when there are landing pads with which an exception gets to its handler.
-/

namespace LibunwindKern.Unwind

open CProg ByteMem

/-- `abort ();` after phase 2, which only comes back with a reason code. -/
def abortOnReturn {κ ω : Type} : Exit κ → UnwAct κ ω (Exit κ)
  | .resumed c => pure (.resumed c)
  | .reason _ => Act.lift .panic

/-- `_Unwind_Resume`. It does not return. -/
def unwindResume {υ κ ω : Type} (env : Env υ κ ω) (fuel : ℕ) : UnwAct κ ω (Exit κ) := do
  let r ← unwindInitContext env
  match r with
  | none => Act.lift .panic
  | some _ => do
    let e ← unwindPhase2 env fuel
    abortOnReturn e

variable {ω : Type}

/-! ### The chain -/

/-- The code at a landing pad, which ends in a call of `_Unwind_Resume` from `ip`. `self` is the frame
of `_Unwind_Resume`. -/
structure LandingPad (ω : Type) where
  run : World ω → World ω
  ip : Word
  self : Frame

/-- The stack that `_Unwind_Resume` sees when it is called from the landing pad of the frame `c`. -/
def LandingPad.stack (p : LandingPad ω) (c : StackCursor) (last : Int) (h : last ≤ 0) : Stack :=
  ⟨p.self, ⟨p.ip, c.frame.handler⟩ :: c.outer, last, h⟩

/-- How a routine ends, and the state it leaves. -/
abbrev Run (ω : Type) : Type := Res Empty (Exit StackCursor) × UnwState StackCursor ω

/-- The calls of `_Unwind_Resume` that follow the run of an unwinding routine. -/
def resumeChain (cb : Callbacks ω) (last : Int) (h : last ≤ 0) (fuel : ℕ) :
    List (LandingPad ω) → Run ω → Run ω
  | [], r => r
  | p :: pads, r =>
    match r.1 with
    | .ok (.resumed c) =>
      resumeChain cb last h fuel pads
        (unwindResume (stackEnv (p.stack c last h) cb) fuel { r.2 with world := p.run r.2.world })
    | _ => r

/-- The exception object has two words that are reserved for the unwinder. The callbacks leave them
alone. -/
def KeepsReserved (cb : Callbacks ω) : Prop :=
  ∀ handler actions cls context w,
    (cb.personality handler actions cls context w).2.exc.private1 = w.exc.private1

/-- The same for a landing pad. -/
def LandingPad.KeepsReserved (p : LandingPad ω) : Prop :=
  ∀ w, (p.run w).exc.private1 = w.exc.private1

/-! ### One run of phase 2 -/

section Phase2

variable {st : Stack} {cb : Callbacks ω} {cls : Word} {g : Frame} {outer : List Frame}
  {actions : Action} {handler : Word}

/-- What a personality is told. -/
def frameActions (param : Word) (g : Frame) : Action :=
  if param = g.ip then uaCleanupPhase ||| uaHandlerFrame else uaCleanupPhase

/-- **Phase 2 visits the innermost frame with a personality**, and no other one. -/
theorem phase2_visits_first (cls param : Word) (hg : g.handler ≠ 0) :
    ∀ (pre : List Frame) (fuel : ℕ) (self : Frame)
    (w : World ω) (cs : List (Call StackCursor)), (∀ x ∈ pre, x.handler = 0) → pre.length < fuel →
      Act.iter (phase2Turn (stackEnv st cb) 0 cls param) fuel uaCleanupPhase
        ⟨⟨⟨self, pre ++ g :: outer⟩, false⟩, w, cs⟩ =
      (visit cb ⟨g, outer⟩ (frameActions param g) cls w fun w' => ⟨.panic, w', []⟩).run
        ⟨⟨g, outer⟩, false⟩ cs
  | [], fuel, self, w, cs, _, hfuel => by
    obtain ⟨fuel, rfl⟩ := Nat.exists_eq_succ_of_ne_zero (Nat.ne_of_gt hfuel)
    have hturn : phase2Turn (stackEnv st cb) 0 cls param uaCleanupPhase
        ⟨⟨⟨self, g :: outer⟩, false⟩, w, cs⟩ =
        phase2Personality (stackEnv st cb) g.handler (frameActions param g) cls
          ⟨⟨⟨g, outer⟩, false⟩, w, cs⟩ := phase2Turn_of_handler hg
    by_cases hc : (cb.personality g.handler (frameActions param g) cls ⟨⟨g, outer⟩, false⟩ w).1 =
        .continueUnwind
    · exact iter_of_personality_continue (c := ⟨g, outer⟩) fuel hc hturn
    · exact iter_of_personality (c := ⟨g, outer⟩) fuel _ hc hturn
  | x :: pre, fuel, self, w, cs, hpre, hfuel => by
    obtain ⟨fuel, rfl⟩ := Nat.exists_eq_succ_of_ne_zero (Nat.ne_of_gt (Nat.zero_lt_of_lt hfuel))
    rw [List.cons_append, Act.iter_of_inl fuel ((phase2Turn_cons 0).trans
      (phase2Frame_of_no_handler 0 (hpre x List.mem_cons_self)))]
    exact phase2_visits_first cls param hg pre fuel x w cs
      (fun y hy => hpre y (List.mem_cons_of_mem _ hy))
      (Nat.lt_of_succ_lt_succ hfuel)

/-- The call is for the frame with this personality and these frames outside it. -/
def InFrame (handler : Word) (outer : List Frame) : Call StackCursor → Prop
  | .personality h _ context => h = handler ∧ context.cursor.outer = outer
  | .stop _ _ => False
  | .resume c => c.frame.handler = handler ∧ c.outer = outer

/-- **The invariant of the chain.** Since the calls `before`, all calls were for this frame, and if
the run resumed a frame, it was this one. -/
structure StaysIn (handler : Word) (outer : List Frame) (before : List (Call StackCursor))
    (r : Run ω) : Prop where
  calls : ∃ cs, r.2.calls = before ++ cs ∧ ∀ call ∈ cs, InFrame handler outer call
  resumed : ∀ c, r.1 = .ok (.resumed c) → c.frame.handler = handler ∧ c.outer = outer
  reserved : r.2.world.exc.private1 = 0

theorem visit_staysIn (cls : Word) (actions : Action) (hkeep : KeepsReserved cb) {w : World ω}
    (hw : w.exc.private1 = 0) (before : List (Call StackCursor)) {cs : List (Call StackCursor)}
    (hbefore : ∀ call ∈ cs, InFrame g.handler outer call) (context : UnwindContext StackCursor) :
    StaysIn g.handler outer before
      ((visit cb ⟨g, outer⟩ actions cls w fun w' => ⟨.panic, w', []⟩).run context (before ++ cs)) := by
  have hreserved := (hkeep g.handler actions cls ⟨⟨g, outer⟩, false⟩ w).trans hw
  have hcall : InFrame g.handler outer (.personality g.handler actions ⟨⟨g, outer⟩, false⟩) :=
    ⟨rfl, rfl⟩
  -- the calls of the run, behind the ones that were made before
  have hmade : ∀ more : List (Call StackCursor), (∀ call ∈ more, InFrame g.handler outer call) →
      ∀ call ∈ cs ++ .personality g.handler actions ⟨⟨g, outer⟩, false⟩ :: more,
        InFrame g.handler outer call := by
    intro more hmore call hmem
    obtain hmem | hmem := List.mem_append.1 hmem
    · exact hbefore call hmem
    · obtain rfl | hmem := List.mem_cons.1 hmem
      · exact hcall
      · exact hmore call hmem
  unfold visit answered Walk.after Walk.run
  dsimp only
  split_ifs
  · exact ⟨⟨_, List.append_assoc _ _ _, hmade [] nofun⟩, nofun, hreserved⟩
  · exact ⟨⟨_, List.append_assoc _ _ _, hmade [_] (List.forall_mem_singleton.2 ⟨rfl, rfl⟩)⟩, nofun,
      hreserved⟩
  · refine ⟨⟨_, List.append_assoc _ _ _, hmade [_] (List.forall_mem_singleton.2 ⟨rfl, rfl⟩)⟩,
      fun c hc => ?_, hreserved⟩
    cases hc
    exact ⟨rfl, rfl⟩
  · exact ⟨⟨_, List.append_assoc _ _ _, hmade [] nofun⟩, nofun, hreserved⟩

/-- A call of `_Unwind_Resume` does not return. It is a run of phase 2. -/
theorem unwindResume_eq (fuel : ℕ) {s : UnwState StackCursor ω} (hs : s.world.exc.private1 = 0) :
    unwindResume (stackEnv st cb) fuel s =
      (Act.iter (phase2Turn (stackEnv st cb) 0 s.world.exc.exceptionClass s.world.exc.private2) fuel
          uaCleanupPhase >>= abortOnReturn) ⟨⟨⟨st.self, st.frames⟩, false⟩, s.world, s.calls⟩ := by
  have hinit : unwindInitContext (stackEnv st cb) s =
      (.ok (some ()), ⟨⟨⟨st.self, st.frames⟩, false⟩, s.world, s.calls⟩) := rfl
  unfold unwindResume
  rw [Act.bind_of_ok hinit]
  dsimp only
  refine Act.bind_congr_left _ ?_
  unfold unwindPhase2
  rw [Act.get_bind]
  show Act.iter (phase2Turn _ s.world.exc.private1 _ _) fuel
    (if s.world.exc.private1 = 0 then _ else _) _ = _
  rw [hs, if_pos rfl]

/-- A call of `_Unwind_Resume` from a landing pad of the frame stays there. -/
theorem unwindResume_staysIn (ip : Word) (hkeep : KeepsReserved cb) (hg : handler ≠ 0)
    {fuel : ℕ} (hfuel : 0 < fuel) {before cs : List (Call StackCursor)}
    (hbefore : ∀ call ∈ cs, InFrame handler outer call) {s : UnwState StackCursor ω}
    (hs : s.world.exc.private1 = 0) (hcalls : s.calls = before ++ cs)
    (hframes : st.frames = ⟨ip, handler⟩ :: outer) :
    StaysIn handler outer before (unwindResume (stackEnv st cb) fuel s) := by
  have hphase2 := @phase2_visits_first _ st cb ⟨ip, handler⟩ outer s.world.exc.exceptionClass
    s.world.exc.private2 hg [] fuel st.self s.world s.calls nofun hfuel
  rw [List.nil_append, ← hframes, hcalls] at hphase2
  have hstays := visit_staysIn (g := ⟨ip, handler⟩) s.world.exc.exceptionClass
    (frameActions s.world.exc.private2 ⟨ip, handler⟩) hkeep hs before hbefore
    ⟨⟨⟨ip, handler⟩, outer⟩, false⟩
  rw [unwindResume_eq fuel hs, hcalls]
  rw [← hphase2] at hstays
  -- an answer that does not resume a frame ends in `abort`
  rcases hrun : Act.iter (phase2Turn (stackEnv st cb) 0 s.world.exc.exceptionClass
    s.world.exc.private2) fuel uaCleanupPhase
    ⟨⟨⟨st.self, st.frames⟩, false⟩, s.world, before ++ cs⟩ with ⟨r, t⟩
  rw [hrun] at hstays
  obtain ⟨e, rfl⟩ | hr := r.ok_or_ne
  · rw [Act.bind_of_ok hrun]
    cases e with
    | resumed c => exact hstays
    | reason _ => exact ⟨hstays.calls, nofun, hstays.reserved⟩
  · rw [Act.bind_of_not_ok hrun hr]
    exact ⟨hstays.calls, fun c hc => absurd hc (Res.bind_ne_ok hr _ _), hstays.reserved⟩

/-- **The chain stays in the frame** that it landed in first. -/
theorem resumeChain_staysIn (hkeep : KeepsReserved cb) (hg : handler ≠ 0) {last : Int}
    (hlast : last ≤ 0) {fuel : ℕ} (hfuel : 0 < fuel) {before : List (Call StackCursor)} :
    ∀ (pads : List (LandingPad ω)) (r : Run ω), (∀ p ∈ pads, p.KeepsReserved) →
      StaysIn handler outer before r →
        StaysIn handler outer before (resumeChain cb last hlast fuel pads r)
  | [], _, _, h => h
  | p :: pads, (q, t), hpads, h => by
    unfold resumeChain
    split
    · next c hc =>
      obtain ⟨hhandler, houter⟩ := h.resumed c hc
      obtain ⟨cs, hcalls, hframe⟩ := h.calls
      refine resumeChain_staysIn hkeep hg hlast hfuel pads _
        (fun p' hp' => hpads p' (List.mem_cons_of_mem _ hp')) ?_
      refine unwindResume_staysIn p.ip hkeep hg hfuel hframe
        ((hpads p List.mem_cons_self t.world).trans h.reserved) hcalls ?_
      show (⟨p.ip, c.frame.handler⟩ : Frame) :: c.outer = _
      rw [hhandler, houter]
    · exact h

/-- A chain that ends with a resumed frame begins with one. -/
theorem resumeChain_resumed {last : Int} {hlast : last ≤ 0} {fuel : ℕ} {c : StackCursor} :
    ∀ (pads : List (LandingPad ω)) (r : Run ω),
      (resumeChain cb last hlast fuel pads r).1 = .ok (.resumed c) → ∃ c', r.1 = .ok (.resumed c')
  | [], _, h => ⟨c, h⟩
  | _ :: _, r, h => by
    unfold resumeChain at h
    split at h
    · next c' hc' => exact ⟨c', hc'⟩
    · exact ⟨c, h⟩

end Phase2

/-! ### Getting to the handler -/

/-- The visit of a frame that installs its context. -/
theorem visit_of_install {cb : Callbacks ω} {c : StackCursor} {actions : Action} {cls : Word}
    {w : World ω} {next : World ω → Walk ω}
    (hinstall : (cb.personality c.frame.handler actions cls ⟨c, false⟩ w).1 = .installContext)
    (hresume : cb.unwResume c (cb.personality c.frame.handler actions cls ⟨c, false⟩ w).2 = false) :
    visit cb c actions cls w next =
      ⟨.ok (.resumed c), (cb.personality c.frame.handler actions cls ⟨c, false⟩ w).2,
        [.personality c.frame.handler actions ⟨c, false⟩, .resume c]⟩ := by
  unfold visit answered Walk.after
  rw [hinstall, if_neg (by decide), if_pos rfl, hresume]
  rfl

/-- The innermost frame with a personality is not outside the frame with the handler. -/
theorem length_le_of_innermost {α : Type} {p : α → Prop} {inner post pre outer : List α} {f g : α}
    (h : inner ++ f :: post = pre ++ g :: outer) (hpre : ∀ x ∈ pre, ¬p x) (hf : p f) :
    pre.length ≤ inner.length := by
  by_contra hlt
  obtain ⟨mid, hmid⟩ := List.prefix_of_prefix_length_le (List.prefix_append inner (f :: post))
    (h ▸ List.prefix_append pre (g :: outer)) (Nat.le_of_not_le hlt)
  cases mid with
  | nil => exact hlt (by rw [← hmid, List.append_nil])
  | cons x mid =>
    -- what comes behind `inner` is `f`
    rw [← hmid, List.append_assoc, List.append_cancel_left_eq] at h
    obtain ⟨rfl, -⟩ := List.cons.inj h
    exact hpre f (by rw [← hmid]; simp) hf

/-- **A run that finds its handler** in the frame `f` visits `g`, the innermost frame with a
personality, and no other one in phase 2. -/
theorem raiseException_innermost {st : Stack} {cb : Callbacks ω} {s : UnwState StackCursor ω}
    {bound : ℕ} {inner post pre outer : List Frame} {f g : Frame}
    (hst : st.frames = inner ++ f :: post) (hfound : FoundAt cb s.world.exc.exceptionClass inner f)
    (hfirst : st.frames = pre ++ g :: outer) (hpre : ∀ x ∈ pre, x.handler = 0) (hg : g.handler ≠ 0)
    (hbound : inner.length < bound) :
    unwindRaiseException (stackEnv st cb) bound s =
      (visit cb ⟨g, outer⟩ (frameActions f.ip g)
        (cleanupWorld cb s.world.exc.exceptionClass f post inner s.world).exc.exceptionClass
        (cleanupWorld cb s.world.exc.exceptionClass f post inner s.world)
        fun w' => ⟨.panic, w', []⟩).run ⟨⟨g, outer⟩, false⟩
        (s.calls ++ (searchWalk cb s.world.exc.exceptionClass f post inner s.world).2) := by
  have hlen : pre.length ≤ inner.length :=
    length_le_of_innermost (p := fun x : Frame => x.handler ≠ 0) (hst.symm.trans hfirst)
      (fun x hx h => h (hpre x hx)) hfound.hasHandler
  rw [raiseException_eq_phase2 hst hfound hbound, ← hst, hfirst]
  exact phase2_visits_first _ _ hg pre bound st.self _ _ hpre (Nat.lt_of_le_of_lt hlen hbound)

/-- The frame that handles the exception is resumed, by `_Unwind_RaiseException` or after some landing
pads. -/
def EntersHandler (st : Stack) (cb : Callbacks ω) (fuel : ℕ) (s : UnwState StackCursor ω)
    (post : List Frame) : Prop :=
  ∃ pads : List (LandingPad ω), (∀ p ∈ pads, p.KeepsReserved) ∧ ∃ c,
    (resumeChain cb st.last st.last_nonpos fuel pads
      (unwindRaiseException (stackEnv st cb) fuel s)).1 = .ok (.resumed c) ∧ c.outer = post

/-- **When an exception gets to its handler.** The search found the handler in the frame `f`. There
are landing pads with which the frame is resumed exactly when no frame inside it has a personality,
the one of `f` answers `_URC_INSTALL_CONTEXT`, and `unw_resume` works. -/
theorem raise_enters_handler_iff (st : Stack) (cb : Callbacks ω) (s : UnwState StackCursor ω)
    (fuel : ℕ) (pre : List Frame) (f : Frame) (post : List Frame)
    (hst : st.frames = pre ++ f :: post) (hf : FoundAt cb s.world.exc.exceptionClass pre f)
    (hkeep : KeepsReserved cb) (hfuel : pre.length < fuel) :
    EntersHandler st cb fuel s post ↔
      (∀ g ∈ pre, g.handler = 0) ∧
      (let w := cleanupWorld cb s.world.exc.exceptionClass f post pre s.world
       let answer := cb.personality f.handler (uaCleanupPhase ||| uaHandlerFrame)
         w.exc.exceptionClass ⟨⟨f, post⟩, false⟩ w
       answer.1 = .installContext ∧ cb.unwResume ⟨f, post⟩ answer.2 = false) := by
  have hmark : (cleanupWorld cb s.world.exc.exceptionClass f post pre s.world).exc.private1 = 0 := rfl
  -- the run, when `f` is the innermost frame with a personality
  have hlast : (∀ g ∈ pre, g.handler = 0) → _ := fun hnone =>
    raiseException_innermost hst hf hst hnone hf.hasHandler hfuel
  rw [frameActions, if_pos rfl] at hlast
  constructor
  · rintro ⟨pads, hpads, c, hrun, hc⟩
    have hnone : ∀ g ∈ pre, g.handler = 0 := by
      cases hfirst : pre.find? fun x => x.handler ≠ 0 with
      | none => exact fun g hg => by simpa using List.find?_eq_none.1 hfirst g hg
      | some g =>
        -- the chain stays in the first frame with a personality, which is inside the handler frame
        obtain ⟨hg, pre₁, pre₂, rfl, hpre₁⟩ := List.find?_eq_some_iff_append.1 hfirst
        rw [decide_eq_true_eq] at hg
        have hinner : st.frames = pre₁ ++ g :: (pre₂ ++ f :: post) := by
          rw [hst, List.append_assoc, List.cons_append]
        rw [raiseException_innermost hst hf hinner (fun x hx => by simpa using hpre₁ x hx) hg hfuel]
          at hrun
        have hstart : StaysIn g.handler (pre₂ ++ f :: post)
            (s.calls ++ (searchWalk cb s.world.exc.exceptionClass f post (pre₁ ++ g :: pre₂)
              s.world).2) _ :=
          visit_staysIn
            (cleanupWorld cb s.world.exc.exceptionClass f post (pre₁ ++ g :: pre₂)
              s.world).exc.exceptionClass
            (frameActions f.ip g) hkeep hmark _ (List.forall_mem_nil _) ⟨⟨g, pre₂ ++ f :: post⟩, false⟩
        rw [List.append_nil] at hstart
        have hstays := resumeChain_staysIn hkeep hg st.last_nonpos (Nat.zero_lt_of_lt hfuel) pads _
          hpads hstart
        have houter := congrArg List.length ((hstays.resumed c hrun).2.symm.trans hc)
        simp at houter
        omega
    refine ⟨hnone, ?_⟩
    rw [hlast hnone] at hrun
    obtain ⟨c', hc'⟩ := resumeChain_resumed pads _ hrun
    unfold visit answered Walk.after Walk.run at hc'
    dsimp only at hc' ⊢
    split_ifs at hc' with hcontinue hinstall hresume
    · exact ⟨hinstall, by simpa using hresume⟩
    · cases hc'
  · rintro ⟨hnone, hinstall, hresume⟩
    refine ⟨[], nofun, ⟨f, post⟩, ?_, rfl⟩
    rw [hlast hnone, visit_of_install hinstall hresume]
    rfl

/-- The stack of `twoFrames`, but the inner frame has no personality. -/
def bareInnerFrame : Stack := { twoFrames with frames := [⟨1, 0⟩, ⟨2, 0x100⟩] }

/-- The handler in the outer frame is entered past a frame without a personality. It is not entered
past a frame that installs a landing pad. -/
theorem raise_enters_handler_bare :
    EntersHandler bareInnerFrame (innerAnswers .installContext) 2 raising [] ∧
      ¬EntersHandler twoFrames (innerAnswers .installContext) 2 raising [] := by
  have hbare : FoundAt (innerAnswers .installContext) raising.world.exc.exceptionClass [⟨1, 0⟩]
      ⟨2, 0x100⟩ :=
    ⟨fun g hg h => absurd (List.mem_singleton.1 hg ▸ rfl) h, by decide, rfl⟩
  constructor
  · exact (raise_enters_handler_iff bareInnerFrame (innerAnswers .installContext) raising 2 [⟨1, 0⟩]
      ⟨2, 0x100⟩ [] rfl hbare (fun _ _ _ _ _ => rfl) (by decide)).2 ⟨by decide, by decide, rfl⟩
  · intro henters
    have hnone := ((raise_enters_handler_iff twoFrames (innerAnswers .installContext) raising 2
      [⟨1, 0x100⟩] ⟨2, 0x100⟩ [] rfl (innerAnswers_foundAt .installContext) (fun _ _ _ _ _ => rfl)
      (by decide)).1 henters).1 ⟨1, 0x100⟩ List.mem_cons_self
    exact absurd hnone (by decide)

end LibunwindKern.Unwind
