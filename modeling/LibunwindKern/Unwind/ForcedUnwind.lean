import LibunwindKern.Unwind.TwoPhase

/-!
# Forced unwinding

`forcedWalk` says what `_Unwind_ForcedUnwind` is for: at every frame the stop
function is called with `_UA_CLEANUP_PHASE | _UA_FORCE_UNWIND`, then the
personality of the frame, if it has one, with the same flags. The walk goes on as
long as the stop function answers `_URC_NO_REASON` and the personalities answer
`_URC_CONTINUE_UNWIND`. At the end of the stack the stop function is called once
more with `_UA_END_OF_STACK` added.

The loop is the one of the second phase of an exception, so the same defect
decides when the code does this: `forcedUnwind_visits_iff` says that a run agrees
with `forcedWalk` exactly when it never comes to a personality that answers
`_URC_CONTINUE_UNWIND`, which can only be the innermost one.
-/

namespace LibunwindKern.Unwind

open CProg ByteMem

variable {ω : Type}

/-! ### The specification -/

/-- The flags of every call of a forced unwinding before the end of the stack. -/
def forcedActions : Action := uaCleanupPhase ||| uaForceUnwind

/-- What a forced unwinding has to do from the frame `self` on, when the frames
outside it are the list argument. -/
def forcedWalk (cb : Callbacks ω) (last : Int) (stop exceptionClass stopParameter : Word) :
    List Frame → Frame → World ω → Walk ω
  | [], self, w =>
    if last < 0 then ⟨.ok (.reason .fatalPhase2Error), w, []⟩
    else
      Walk.after (.stop (forcedActions ||| uaEndOfStack) ⟨⟨self, []⟩, true⟩)
        ⟨.ok (.reason .fatalPhase2Error),
          (cb.stop stop (forcedActions ||| uaEndOfStack) exceptionClass ⟨⟨self, []⟩, true⟩
            stopParameter w).2, []⟩
  | g :: fs, _, w =>
    let r := cb.stop stop forcedActions exceptionClass ⟨⟨g, fs⟩, false⟩ stopParameter w
    Walk.after (.stop forcedActions ⟨⟨g, fs⟩, false⟩)
      (if r.1 ≠ .noReason then ⟨.ok (.reason .fatalPhase2Error), r.2, []⟩
      else if g.handler = 0 then
        forcedWalk cb last stop exceptionClass stopParameter fs g r.2
      else
        visit cb ⟨g, fs⟩ forcedActions exceptionClass r.2
          (forcedWalk cb last stop exceptionClass stopParameter fs g))

/-- The world in which phase 2 of a forced unwinding starts. -/
def World.force (w : World ω) (stop stopParameter : Word) : World ω :=
  { w with exc := { w.exc with private1 := stop, private2 := stopParameter } }

/-- **Forced unwinding visits every frame.** A run of `_Unwind_ForcedUnwind` from
`s` ends as `forcedWalk` says, leaves the world it says and makes its calls. -/
structure VisitsEveryFrame (st : Stack) (cb : Callbacks ω) (stop stopParameter : Word)
    (s : UnwState StackCursor ω)
    (run : Res Empty (Exit StackCursor) × UnwState StackCursor ω) : Prop where
  outcome : run.1 =
    (forcedWalk cb st.last stop s.world.exc.exceptionClass stopParameter st.frames st.self
      (s.world.force stop stopParameter)).outcome
  world : run.2.world =
    (forcedWalk cb st.last stop s.world.exc.exceptionClass stopParameter st.frames st.self
      (s.world.force stop stopParameter)).world
  calls : run.2.calls = s.calls ++
    (forcedWalk cb st.last stop s.world.exc.exceptionClass stopParameter st.frames st.self
      (s.world.force stop stopParameter)).calls

/-- The walk reaches a personality, and it answers `_URC_CONTINUE_UNWIND`: the stop
function answers `_URC_NO_REASON` up to the innermost frame with a personality. -/
def ReachesContinue (cb : Callbacks ω) (stop exceptionClass stopParameter : Word) :
    List Frame → World ω → Prop
  | [], _ => False
  | g :: fs, w =>
    let r := cb.stop stop forcedActions exceptionClass ⟨⟨g, fs⟩, false⟩ stopParameter w
    r.1 = .noReason ∧
      if g.handler = 0 then ReachesContinue cb stop exceptionClass stopParameter fs r.2
      else
        (cb.personality g.handler forcedActions exceptionClass ⟨⟨g, fs⟩, false⟩ r.2).1 =
          .continueUnwind

variable {st : Stack} {cb : Callbacks ω} {cls stop param : Word} {w : World ω}
  {cs : List (Call StackCursor)} {self g : Frame} {fs : List Frame}

/-- The calls of a forced unwinding to which nobody objects: the stop function once
at every frame, before the personality of that frame if there is one, and once
more at the end of the stack. -/
def everyCall : List Frame → Frame → List (Call StackCursor)
  | [], self => [.stop (forcedActions ||| uaEndOfStack) ⟨⟨self, []⟩, true⟩]
  | g :: fs, _ =>
    .stop forcedActions ⟨⟨g, fs⟩, false⟩ ::
      (if g.handler = 0 then everyCall fs g
      else .personality g.handler forcedActions ⟨⟨g, fs⟩, false⟩ :: everyCall fs g)

/-- When nobody objects, the specification makes every call, in order, and returns
`_URC_FATAL_PHASE2_ERROR` at the end of the stack. -/
theorem forcedWalk_of_quiet
    (hstop : ∀ actions c w', (cb.stop stop actions cls c param w').1 = .noReason)
    (hpers : ∀ handler actions c w', (cb.personality handler actions cls c w').1 = .continueUnwind) :
    ∀ (fs : List Frame) (self : Frame) (w : World ω),
      (forcedWalk cb 0 stop cls param fs self w).outcome = .ok (.reason .fatalPhase2Error) ∧
      (forcedWalk cb 0 stop cls param fs self w).calls = everyCall fs self := by
  intro fs
  induction fs with
  | nil => intro self w; exact ⟨rfl, rfl⟩
  | cons g fs ih =>
    intro self w
    unfold forcedWalk everyCall
    simp only [hstop, ne_eq, not_true_eq_false, if_false, Walk.after]
    by_cases hg : g.handler = 0
    · rw [if_pos hg, if_pos hg]
      exact ⟨(ih g _).1, congrArg _ (ih g _).2⟩
    · rw [if_neg hg, if_neg hg]
      unfold visit answered Walk.after
      rw [if_pos (hpers _ _ _ _)]
      exact ⟨(ih g _).1, congrArg _ (congrArg _ (ih g _).2)⟩

/-! ### One turn of the loop -/

/-- The stop function ends the walk. -/
theorem forcedTurn_of_stop (hs : stop ≠ 0)
    (h : (cb.stop stop forcedActions cls ⟨⟨g, fs⟩, false⟩ param w).1 ≠ .noReason) :
    phase2Turn (stackEnv st cb) stop cls param forcedActions ⟨⟨⟨self, g :: fs⟩, false⟩, w, cs⟩ =
      (.ok (.inr (.reason .fatalPhase2Error)),
        ⟨⟨⟨g, fs⟩, false⟩, (cb.stop stop forcedActions cls ⟨⟨g, fs⟩, false⟩ param w).2,
          cs ++ [.stop forcedActions ⟨⟨g, fs⟩, false⟩]⟩) := by
  rw [phase2Turn_cons]
  unfold phase2Stop
  rw [if_neg hs, callStop_bind, if_neg (by exact h)]
  rfl

/-- The stop function lets the walk go on to the frame. -/
theorem forcedTurn_of_noReason (st : Stack) (self : Frame) (cs : List (Call StackCursor))
    (hs : stop ≠ 0)
    (h : (cb.stop stop forcedActions cls ⟨⟨g, fs⟩, false⟩ param w).1 = .noReason) :
    phase2Turn (stackEnv st cb) stop cls param forcedActions ⟨⟨⟨self, g :: fs⟩, false⟩, w, cs⟩ =
      phase2Frame (stackEnv st cb) stop cls param forcedActions
        ⟨⟨⟨g, fs⟩, false⟩, (cb.stop stop forcedActions cls ⟨⟨g, fs⟩, false⟩ param w).2,
          cs ++ [.stop forcedActions ⟨⟨g, fs⟩, false⟩]⟩ := by
  rw [phase2Turn_cons]
  unfold phase2Stop
  rw [if_neg hs, callStop_bind, if_pos (by exact h)]
  rfl

/-- With a stop function the marker of the exception is not looked at. -/
theorem phase2Frame_of_stop (hs : stop ≠ 0) (h : g.handler ≠ 0) {actions : Action} :
    phase2Frame (stackEnv st cb) stop cls param actions ⟨⟨⟨g, fs⟩, false⟩, w, cs⟩ =
      phase2Personality (stackEnv st cb) g.handler actions cls ⟨⟨⟨g, fs⟩, false⟩, w, cs⟩ := by
  change (if g.handler = 0 then _ else if stop = 0 then _ else _ :
    UnwAct StackCursor ω (Action ⊕ Exit StackCursor)) _ = _
  rw [if_neg h, if_neg hs]

/-- The turn after the last frame. -/
theorem forcedTurn_nil (st : Stack) (cb : Callbacks ω) (cls param : Word) (self : Frame)
    (w : World ω) (cs : List (Call StackCursor)) (hs : stop ≠ 0) :
    ∃ context,
      phase2Turn (stackEnv st cb) stop cls param forcedActions ⟨⟨⟨self, []⟩, false⟩, w, cs⟩ =
        (.ok (.inr (.reason .fatalPhase2Error)),
          ⟨context, (forcedWalk cb st.last stop cls param [] self w).world,
            cs ++ (forcedWalk cb st.last stop cls param [] self w).calls⟩) := by
  unfold forcedWalk phase2Turn
  rw [stepContext_bind]
  change ∃ context, (if st.last < 0 then _ else if st.last = 0 then _ else _ :
    UnwAct StackCursor ω (Action ⊕ Exit StackCursor)) _ = _
  rcases lt_or_eq_of_le st.last_nonpos with hlast | hlast
  · rw [if_pos hlast, if_pos hlast, List.append_nil]
    exact ⟨_, rfl⟩
  · have hnot : ¬st.last < 0 := by rw [hlast]; decide
    rw [if_neg hnot, if_neg hnot, if_pos hlast, Act.modify_bind]
    refine ⟨⟨⟨self, []⟩, true⟩, ?_⟩
    unfold phase2Stop
    rw [if_neg hs, callStop_bind]
    -- whatever the stop function answers, the end of the stack ends the walk
    change (if (cb.stop stop _ cls _ param w).1 = _ then _ else _ :
      UnwAct StackCursor ω (Action ⊕ Exit StackCursor)) _ = _
    split <;> rfl

/-! ### The whole run -/

/-- **A forced unwinding that reaches no continuing personality** does what
`forcedWalk` says. -/
theorem forced_run_pass (st : Stack) (hs : stop ≠ 0) :
    ∀ (fs : List Frame) (fuel : ℕ) (self : Frame) (w : World ω) (cs : List (Call StackCursor)),
      fs.length < fuel → ¬ReachesContinue cb stop cls param fs w →
      ∃ context,
        Act.iter (phase2Turn (stackEnv st cb) stop cls param) fuel forcedActions
          ⟨⟨⟨self, fs⟩, false⟩, w, cs⟩ =
            (forcedWalk cb st.last stop cls param fs self w).run context cs := by
  intro fs
  induction fs with
  | nil =>
    -- the end of the stack: the stop function is called once more
    intro fuel self w cs hfuel _
    obtain ⟨fuel, rfl⟩ := Nat.exists_eq_succ_of_ne_zero (Nat.ne_of_gt hfuel)
    obtain ⟨context, hturn⟩ := forcedTurn_nil st cb cls param self w cs hs
    refine ⟨context, ?_⟩
    rw [Act.iter_of_inr fuel hturn]
    unfold Walk.run forcedWalk
    split <;> rfl
  | cons g fs ih =>
    intro fuel self w cs hfuel hreach
    obtain ⟨fuel, rfl⟩ := Nat.exists_eq_succ_of_ne_zero (Nat.ne_of_gt (Nat.zero_lt_of_lt hfuel))
    unfold ReachesContinue at hreach
    unfold forcedWalk
    simp only at hreach ⊢
    by_cases hstop : (cb.stop stop forcedActions cls ⟨⟨g, fs⟩, false⟩ param w).1 = .noReason
    · rw [if_neg (not_not.mpr hstop)]
      have hturn := forcedTurn_of_noReason st self cs hs hstop
      by_cases hg : g.handler = 0
      · -- the turn goes round again
        rw [if_pos hg] at hreach ⊢
        rw [Act.iter_of_inl fuel (hturn.trans (phase2Frame_of_no_handler stop hg))]
        obtain ⟨context, hrun⟩ := ih fuel g _ (cs ++ [.stop forcedActions ⟨⟨g, fs⟩, false⟩])
          (Nat.lt_of_succ_lt_succ hfuel) (fun h => hreach ⟨hstop, h⟩)
        exact ⟨context, hrun.trans (Walk.run_after _ _ _).symm⟩
      · rw [if_neg hg] at hreach ⊢
        refine ⟨⟨⟨g, fs⟩, false⟩, ?_⟩
        rw [Walk.run_after]
        exact iter_of_personality (c := ⟨g, fs⟩) fuel _ (fun h => hreach ⟨hstop, h⟩)
          (hturn.trans (phase2Frame_of_stop hs hg))
    · rw [if_pos hstop]
      exact ⟨_, Act.iter_of_inr fuel (forcedTurn_of_stop hs hstop)⟩

/-- **A forced unwinding that reaches a continuing personality** panics there,
and the specification goes on: the two differ in the outcome or in the calls. -/
theorem forced_run_panic (st : Stack) (hs : stop ≠ 0) :
    ∀ (fs : List Frame) (fuel : ℕ) (self : Frame) (w : World ω) (cs : List (Call StackCursor)),
      fs.length < fuel → ReachesContinue cb stop cls param fs w →
      ∃ context w' calls,
        Act.iter (phase2Turn (stackEnv st cb) stop cls param) fuel forcedActions
          ⟨⟨⟨self, fs⟩, false⟩, w, cs⟩ = (.panic, ⟨context, w', cs ++ calls⟩) ∧
        ((forcedWalk cb st.last stop cls param fs self w).outcome = .panic →
          calls.length < (forcedWalk cb st.last stop cls param fs self w).calls.length) := by
  intro fs
  induction fs with
  | nil => intro _ _ _ _ _ h; exact h.elim
  | cons g fs ih =>
    intro fuel self w cs hfuel hreach
    obtain ⟨fuel, rfl⟩ := Nat.exists_eq_succ_of_ne_zero (Nat.ne_of_gt (Nat.zero_lt_of_lt hfuel))
    unfold ReachesContinue at hreach
    obtain ⟨hstop, hreach⟩ := hreach
    unfold forcedWalk
    simp only
    rw [if_neg (not_not.mpr hstop)]
    have hturn := forcedTurn_of_noReason st self cs hs hstop
    by_cases hg : g.handler = 0
    · rw [if_pos hg] at hreach ⊢
      rw [Act.iter_of_inl fuel (hturn.trans (phase2Frame_of_no_handler stop hg))]
      obtain ⟨context, w', calls, hrun, hlen⟩ :=
        ih fuel g _ (cs ++ [.stop forcedActions ⟨⟨g, fs⟩, false⟩])
          (Nat.lt_of_succ_lt_succ hfuel) hreach
      refine ⟨context, w', .stop forcedActions ⟨⟨g, fs⟩, false⟩ :: calls, ?_, ?_⟩
      · rw [hrun, List.append_assoc]
        rfl
      · intro hp
        exact Nat.succ_lt_succ (hlen hp)
    · rw [if_neg hg] at hreach ⊢
      have hrun := iter_of_personality_continue (c := ⟨g, fs⟩) fuel hreach
        (hturn.trans (phase2Frame_of_stop hs hg))
      unfold visit answered at hrun ⊢
      rw [if_pos hreach] at hrun ⊢
      rw [Walk.run_after, Walk.run, List.append_nil, List.append_assoc] at hrun
      refine ⟨_, _, _, hrun, ?_⟩
      intro hp
      -- the walk only panics in a later frame, so it makes a further call
      cases fs with
      | nil =>
        exfalso
        change (forcedWalk cb st.last stop cls param [] g _).outcome = .panic at hp
        unfold forcedWalk at hp
        split at hp <;> cases hp
      | cons g' fs' =>
        exact Nat.succ_lt_succ (Nat.succ_lt_succ (Nat.succ_pos _))

/-- **When forced unwinding visits every frame.** A run of `_Unwind_ForcedUnwind`
agrees with the specification exactly when it does not come to a personality that
answers `_URC_CONTINUE_UNWIND`. -/
theorem forcedUnwind_visits_iff (st : Stack) (cb : Callbacks ω) (s : UnwState StackCursor ω)
    (stop stopParameter : Word) (fuel : ℕ) (hs : stop ≠ 0) (hfuel : st.frames.length < fuel) :
    VisitsEveryFrame st cb stop stopParameter s
        (unwindForcedUnwind (stackEnv st cb) stop stopParameter fuel s) ↔
      ¬ReachesContinue cb stop s.world.exc.exceptionClass stopParameter st.frames
        (s.world.force stop stopParameter) := by
  have hrun : unwindForcedUnwind (stackEnv st cb) stop stopParameter fuel s =
      Act.iter (phase2Turn (stackEnv st cb) stop s.world.exc.exceptionClass stopParameter) fuel
        forcedActions
        ⟨⟨⟨st.self, st.frames⟩, false⟩, s.world.force stop stopParameter, s.calls⟩ := by
    unfold unwindForcedUnwind
    rw [if_neg hs, Act.bind_of_ok (x := unwindInitContext (stackEnv st cb)) (s := s) rfl]
    change Act.iter _ _ (if stop = 0 then _ else _) _ = _
    rw [if_neg hs]
    rfl
  rw [hrun]
  constructor
  · -- after the panic, calls are missing
    intro hvisits hreach
    obtain ⟨context, w', calls, hpanic, hlen⟩ := forced_run_panic st hs st.frames fuel
      st.self _ s.calls hfuel hreach
    have hout := hvisits.outcome
    have hcalls := hvisits.calls
    rw [hpanic] at hout hcalls
    have := hlen hout.symm
    rw [← List.append_cancel_left hcalls] at this
    exact Nat.lt_irrefl _ this
  · intro hreach
    obtain ⟨context, hpass⟩ := forced_run_pass st hs st.frames fuel st.self
      (s.world.force stop stopParameter) s.calls hfuel hreach
    rw [hpass]
    exact ⟨rfl, rfl, rfl⟩

/-- A stack of two frames without personalities. -/
def bareFrames : Stack := ⟨⟨0, 0⟩, [⟨1, 0⟩, ⟨2, 0⟩], 0, Int.le_refl 0⟩

/-- Without personalities the walk visits every frame. -/
theorem forcedUnwind_visits_bare :
    VisitsEveryFrame bareFrames (innerAnswers .continueUnwind) 0x200 0 raising
      (unwindForcedUnwind (stackEnv bareFrames (innerAnswers .continueUnwind)) 0x200 0 3
        raising) :=
  (forcedUnwind_visits_iff bareFrames (innerAnswers .continueUnwind) raising 0x200 0 3
    (by decide) (by decide)).mpr (by
      rintro ⟨-, -, h⟩
      exact h)

/-- One frame whose personality has nothing to clean up: the run panics instead of
reaching the end of the stack. -/
theorem forcedUnwind_panics_continue :
    (unwindForcedUnwind (stackEnv twoFrames (innerAnswers .continueUnwind)) 0x200 0 3 raising).1 =
        .panic ∧
      ¬VisitsEveryFrame twoFrames (innerAnswers .continueUnwind) 0x200 0 raising
        (unwindForcedUnwind (stackEnv twoFrames (innerAnswers .continueUnwind)) 0x200 0 3
          raising) := by
  refine ⟨by decide, ?_⟩
  intro h
  exact absurd h.outcome (by decide)

end LibunwindKern.Unwind
