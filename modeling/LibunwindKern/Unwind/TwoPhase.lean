import LibunwindKern.Unwind.Phases

/-!
# Two-phase agreement of `_Unwind_RaiseException`

`cleanupWalk` says what phase 2 is for, on the stack itself: given that phase 1
stopped at the frame `f` after the frames `pre`, the personality of every frame of
`pre` that has one is called in order with `_UA_CLEANUP_PHASE`, then the one of
`f` with `_UA_HANDLER_FRAME` added. A frame of `pre` that answers
`_URC_CONTINUE_UNWIND` is passed over, the first frame that answers
`_URC_INSTALL_CONTEXT` is resumed, and the only panic before that is for `f`
answering `_URC_CONTINUE_UNWIND`.

* `searchLoop_run` is the search phase: on a stack whose handler frame is `f` the
  loop stops there, having asked exactly the frames with a personality.
* `phase2_run_pass` and `phase2_run_panic` are the two ways the loop of
  `_Unwind_Phase2` can go. The code agrees with `cleanupWalk` up to the first
  personality it calls, and panics when that one answers `_URC_CONTINUE_UNWIND`,
  whether or not it is the one of the handler frame.
* `raiseException_agrees_iff` puts them together: the two phases agree exactly
  when no frame before the handler frame has a personality, or the innermost one
  does not answer `_URC_CONTINUE_UNWIND` to its cleanup call.
-/

namespace LibunwindKern.Unwind

open CProg ByteMem

variable {ω : Type}

/-! ### The specification -/

/-- What a walk over a stack amounts to: how it ends, the world it leaves, and
the calls it makes. -/
structure Walk (ω : Type) where
  outcome : Res Empty (Exit StackCursor)
  world : World ω
  calls : List (Call StackCursor)

/-- Put a call before the calls of a walk. -/
def Walk.after (c : Call StackCursor) (k : Walk ω) : Walk ω := { k with calls := c :: k.calls }

/-- What follows the answer of a personality: the frame is resumed when the answer
is `_URC_INSTALL_CONTEXT`, and `next` is what follows `_URC_CONTINUE_UNWIND`. -/
def answered (cb : Callbacks ω) (c : StackCursor) (next : World ω → Walk ω)
    (reason : ReasonCode) (w : World ω) : Walk ω :=
  if reason = .continueUnwind then next w
  else if reason = .installContext then
    ⟨if cb.unwResume c w then .panic else .ok (.resumed c), w, [.resume c]⟩
  else ⟨.ok (.reason .fatalPhase2Error), w, []⟩

/-- The visit of a frame whose personality is called. -/
def visit (cb : Callbacks ω) (c : StackCursor) (actions : Action) (exceptionClass : Word)
    (w : World ω) (next : World ω → Walk ω) : Walk ω :=
  Walk.after (.personality c.frame.handler actions ⟨c, false⟩)
    (answered cb c next (cb.personality c.frame.handler actions exceptionClass ⟨c, false⟩ w).1
      (cb.personality c.frame.handler actions exceptionClass ⟨c, false⟩ w).2)

/-- What phase 2 has to do when the handler frame is `f`, the frames still inside
it are the list argument and the frames outside it are `post`. -/
def cleanupWalk (cb : Callbacks ω) (exceptionClass : Word) (f : Frame) (post : List Frame) :
    List Frame → World ω → Walk ω
  | [], w =>
    visit cb ⟨f, post⟩ (uaCleanupPhase ||| uaHandlerFrame) exceptionClass w
      fun w' => ⟨.panic, w', []⟩
  | g :: pre, w =>
    if g.handler = 0 then cleanupWalk cb exceptionClass f post pre w
    else
      visit cb ⟨g, pre ++ f :: post⟩ uaCleanupPhase exceptionClass w
        (cleanupWalk cb exceptionClass f post pre)

/-- The search phase stops with `_URC_HANDLER_FOUND` at `f`, after the frames
`pre`. -/
structure FoundAt (cb : Callbacks ω) (exceptionClass : Word) (pre : List Frame) (f : Frame) :
    Prop where
  passed : ∀ g ∈ pre, g.handler ≠ 0 → cb.searchAnswer exceptionClass g.ip = .continueUnwind
  hasHandler : f.handler ≠ 0
  found : cb.searchAnswer exceptionClass f.ip = .handlerFound

/-- The world and the calls of a search phase that asks the frames `pre` and then
`f`. -/
def searchWalk (cb : Callbacks ω) (exceptionClass : Word) (f : Frame) (post : List Frame) :
    List Frame → World ω → World ω × List (Call StackCursor)
  | [], w =>
    ((cb.personality f.handler uaSearchPhase exceptionClass ⟨⟨f, post⟩, false⟩ w).2,
      [.personality f.handler uaSearchPhase ⟨⟨f, post⟩, false⟩])
  | g :: pre, w =>
    if g.handler = 0 then searchWalk cb exceptionClass f post pre w
    else
      let c : UnwindContext StackCursor := ⟨⟨g, pre ++ f :: post⟩, false⟩
      let k := searchWalk cb exceptionClass f post pre
        (cb.personality g.handler uaSearchPhase exceptionClass c w).2
      (k.1, .personality g.handler uaSearchPhase c :: k.2)

/-- The frame marker as `_Unwind_RaiseException` stores it before phase 2. -/
def World.mark (w : World ω) (ip : Word) : World ω :=
  { w with exc := { w.exc with private1 := 0, private2 := ip } }

/-- The world in which phase 2 starts. -/
def cleanupWorld (cb : Callbacks ω) (exceptionClass : Word) (f : Frame) (post pre : List Frame)
    (w : World ω) : World ω :=
  (searchWalk cb exceptionClass f post pre w).1.mark f.ip

/-- **Two-phase agreement.** A run of `_Unwind_RaiseException` from `s` ends as
`cleanupWalk` says, leaves the world it says, and makes the calls of the search
phase followed by the calls of `cleanupWalk`. -/
structure TwoPhaseAgreement (cb : Callbacks ω) (pre : List Frame) (f : Frame) (post : List Frame)
    (s : UnwState StackCursor ω)
    (run : Res Empty (Exit StackCursor) × UnwState StackCursor ω) : Prop where
  outcome : run.1 =
    (cleanupWalk cb (cleanupWorld cb s.world.exc.exceptionClass f post pre s.world).exc.exceptionClass
      f post pre (cleanupWorld cb s.world.exc.exceptionClass f post pre s.world)).outcome
  world : run.2.world =
    (cleanupWalk cb (cleanupWorld cb s.world.exc.exceptionClass f post pre s.world).exc.exceptionClass
      f post pre (cleanupWorld cb s.world.exc.exceptionClass f post pre s.world)).world
  calls : run.2.calls =
    s.calls ++ (searchWalk cb s.world.exc.exceptionClass f post pre s.world).2 ++
      (cleanupWalk cb
        (cleanupWorld cb s.world.exc.exceptionClass f post pre s.world).exc.exceptionClass
        f post pre (cleanupWorld cb s.world.exc.exceptionClass f post pre s.world)).calls

/-- The innermost of the frames `pre` that has a personality answers
`_URC_CONTINUE_UNWIND` to its cleanup call in the world `w`. -/
def InnermostContinues (cb : Callbacks ω) (exceptionClass : Word) (rest : List Frame)
    (w : World ω) : List Frame → Prop
  | [] => False
  | g :: pre =>
    if g.handler = 0 then InnermostContinues cb exceptionClass rest w pre
    else
      (cb.personality g.handler uaCleanupPhase exceptionClass ⟨⟨g, pre ++ rest⟩, false⟩ w).1 =
        .continueUnwind

/-! ### The personality call of phase 2 -/

variable {st : Stack} {cb : Callbacks ω} {c : StackCursor} {cls : Word} {actions : Action}
  {w : World ω} {cs : List (Call StackCursor)}

/-- The end of a run that goes on from the calls `cs` as the walk `k` says. -/
def Walk.run (k : Walk ω) (context : UnwindContext StackCursor) (cs : List (Call StackCursor)) :
    Res Empty (Exit StackCursor) × UnwState StackCursor ω :=
  (k.outcome, ⟨context, k.world, cs ++ k.calls⟩)

theorem Walk.run_after (k : Walk ω) (call : Call StackCursor)
    (context : UnwindContext StackCursor) :
    (k.after call).run context cs = k.run context (cs ++ [call]) := by
  simp [Walk.run, Walk.after]

/-- An answer other than `_URC_CONTINUE_UNWIND` ends the loop of phase 2. -/
theorem iter_of_answer {body : Action → UnwAct StackCursor ω (Action ⊕ Exit StackCursor)}
    {a : Action} {s : UnwState StackCursor ω} {reason : ReasonCode} (fuel : ℕ)
    (next : World ω → Walk ω) (h : reason ≠ .continueUnwind)
    (hturn : body a s = phase2Answer (stackEnv st cb) reason ⟨⟨c, false⟩, w, cs⟩) :
    Act.iter body (fuel + 1) a s = (answered cb c next reason w).run ⟨c, false⟩ cs := by
  unfold phase2Answer at hturn
  unfold answered
  rw [if_neg h] at hturn ⊢
  by_cases hi : reason = .installContext
  · rw [if_pos hi] at hturn ⊢
    have hresume : resumeContext (stackEnv st cb) ⟨⟨c, false⟩, w, cs⟩ =
      (if cb.unwResume c w then .panic else .ok (.resumed c),
        ⟨⟨c, false⟩, w, cs ++ [.resume c]⟩) := rfl
    cases hr : cb.unwResume c w with
    | true =>
      rw [hr, if_pos rfl] at hresume
      exact Act.iter_of_panic fuel (hturn.trans (Act.bind_of_panic hresume))
    | false =>
      rw [hr, if_neg Bool.false_ne_true] at hresume
      exact Act.iter_of_inr fuel (hturn.trans (Act.bind_of_ok hresume))
  · rw [if_neg hi] at hturn ⊢
    rw [Act.iter_of_inr fuel hturn, Walk.run, List.append_nil]

/-- A turn that calls a personality which does not answer `_URC_CONTINUE_UNWIND`
ends the loop, as the visit of that frame says. -/
theorem iter_of_personality {body : Action → UnwAct StackCursor ω (Action ⊕ Exit StackCursor)}
    {a : Action} {s : UnwState StackCursor ω} (fuel : ℕ) (next : World ω → Walk ω)
    (h : (cb.personality c.frame.handler actions cls ⟨c, false⟩ w).1 ≠ .continueUnwind)
    (hturn : body a s =
      phase2Personality (stackEnv st cb) c.frame.handler actions cls ⟨⟨c, false⟩, w, cs⟩) :
    Act.iter body (fuel + 1) a s = (visit cb c actions cls w next).run ⟨c, false⟩ cs := by
  unfold visit
  rw [Walk.run_after]
  exact iter_of_answer fuel next h hturn

/-- A turn that calls a personality which answers `_URC_CONTINUE_UNWIND` panics,
having called nothing else. -/
theorem iter_of_personality_continue
    {body : Action → UnwAct StackCursor ω (Action ⊕ Exit StackCursor)}
    {a : Action} {s : UnwState StackCursor ω} (fuel : ℕ)
    (h : (cb.personality c.frame.handler actions cls ⟨c, false⟩ w).1 = .continueUnwind)
    (hturn : body a s =
      phase2Personality (stackEnv st cb) c.frame.handler actions cls ⟨⟨c, false⟩, w, cs⟩) :
    Act.iter body (fuel + 1) a s =
      (visit cb c actions cls w fun w' => ⟨.panic, w', []⟩).run ⟨c, false⟩ cs := by
  unfold visit answered
  rw [Walk.run_after, if_pos h, Walk.run, List.append_nil]
  apply Act.iter_of_panic fuel
  rw [hturn]
  unfold phase2Personality phase2Answer
  rw [callPersonality_bind, if_pos (by exact h)]
  rfl

/-! ### One turn over a stack -/

variable {self f g : Frame} {fs post pre : List Frame} {param : Word}

/-- A turn of phase 2 steps to the next frame of the stack. -/
theorem phase2Turn_cons (stop : Word) :
    phase2Turn (stackEnv st cb) stop cls param actions ⟨⟨⟨self, g :: fs⟩, false⟩, w, cs⟩ =
      phase2Stop (stackEnv st cb) stop cls param actions ⟨⟨⟨g, fs⟩, false⟩, w, cs⟩ := rfl

/-- A frame without a personality is passed over. -/
theorem phase2Frame_of_no_handler (stop : Word) (h : g.handler = 0) :
    phase2Frame (stackEnv st cb) stop cls param actions ⟨⟨⟨g, fs⟩, false⟩, w, cs⟩ =
      (.ok (.inl actions), ⟨⟨⟨g, fs⟩, false⟩, w, cs⟩) := by
  unfold phase2Frame
  simp [stackEnv, h]

/-- Without a stop function the personality of a frame is told whether the frame
is the marked one. -/
theorem phase2Turn_of_handler (h : g.handler ≠ 0) :
    phase2Turn (stackEnv st cb) 0 cls param actions ⟨⟨⟨self, g :: fs⟩, false⟩, w, cs⟩ =
      phase2Personality (stackEnv st cb) g.handler
        (if param = g.ip then actions ||| uaHandlerFrame else actions) cls
        ⟨⟨⟨g, fs⟩, false⟩, w, cs⟩ := by
  change (if g.handler = 0 then _ else phase2Personality _ _ _ _ :
    UnwAct StackCursor ω (Action ⊕ Exit StackCursor)) _ = _
  rw [if_neg h]
  rfl

theorem phase2Turn_of_marked (h : g.handler ≠ 0) :
    phase2Turn (stackEnv st cb) 0 cls g.ip actions ⟨⟨⟨self, g :: fs⟩, false⟩, w, cs⟩ =
      phase2Personality (stackEnv st cb) g.handler (actions ||| uaHandlerFrame) cls
        ⟨⟨⟨g, fs⟩, false⟩, w, cs⟩ := by
  rw [phase2Turn_of_handler h, if_pos rfl]

theorem phase2Turn_of_unmarked (h : g.handler ≠ 0) (hip : param ≠ g.ip) :
    phase2Turn (stackEnv st cb) 0 cls param actions ⟨⟨⟨self, g :: fs⟩, false⟩, w, cs⟩ =
      phase2Personality (stackEnv st cb) g.handler actions cls ⟨⟨⟨g, fs⟩, false⟩, w, cs⟩ := by
  rw [phase2Turn_of_handler h, if_neg hip]

/-! ### Phase 2 over a stack -/

/-- The handler flag is set at no frame before the handler frame: a frame with
the marked IP and a personality would have handled the exception. -/
theorem FoundAt.ip_ne {cls : Word} (hf : FoundAt cb cls pre f) (hg : g ∈ pre)
    (h : g.handler ≠ 0) : f.ip ≠ g.ip := by
  intro hip
  have hcont := hf.passed g hg h
  rw [← hip, hf.found] at hcont
  cases hcont

/-- **Phase 2 when the innermost personality does not continue.** The loop does
what `cleanupWalk` says. -/
theorem phase2_run_pass (st : Stack) (cs : List (Call StackCursor))
    (hip : ∀ g ∈ pre, g.handler ≠ 0 → f.ip ≠ g.ip) (hf : f.handler ≠ 0) :
    ∀ (fuel : ℕ) (self : Frame), pre.length < fuel →
      ¬InnermostContinues cb cls (f :: post) w pre →
      ∃ context,
        Act.iter (phase2Turn (stackEnv st cb) 0 cls f.ip) fuel uaCleanupPhase
          ⟨⟨⟨self, pre ++ f :: post⟩, false⟩, w, cs⟩ =
            (cleanupWalk cb cls f post pre w).run context cs := by
  induction pre with
  | nil =>
    intro fuel self hfuel _
    obtain ⟨fuel, rfl⟩ := Nat.exists_eq_succ_of_ne_zero (Nat.ne_of_gt hfuel)
    refine ⟨⟨⟨f, post⟩, false⟩, ?_⟩
    -- the handler frame may panic, as the specification does
    by_cases hc : (cb.personality f.handler (uaCleanupPhase ||| uaHandlerFrame) cls
        ⟨⟨f, post⟩, false⟩ w).1 = .continueUnwind
    · exact iter_of_personality_continue (c := ⟨f, post⟩) fuel hc (phase2Turn_of_marked hf)
    · exact iter_of_personality (c := ⟨f, post⟩) fuel _ hc (phase2Turn_of_marked hf)
  | cons g pre ih =>
    intro fuel self hfuel hcont
    obtain ⟨fuel, rfl⟩ := Nat.exists_eq_succ_of_ne_zero (Nat.ne_of_gt (Nat.zero_lt_of_lt hfuel))
    unfold InnermostContinues at hcont
    unfold cleanupWalk
    by_cases hg : g.handler = 0
    · rw [if_pos hg] at hcont ⊢
      rw [List.cons_append,
        Act.iter_of_inl fuel ((phase2Turn_cons 0).trans (phase2Frame_of_no_handler 0 hg))]
      refine ih (fun g' hg' => hip g' (List.mem_cons_of_mem _ hg')) fuel g ?_ hcont
      exact Nat.lt_of_succ_lt_succ hfuel
    · rw [if_neg hg] at hcont ⊢
      refine ⟨⟨⟨g, pre ++ f :: post⟩, false⟩, ?_⟩
      exact iter_of_personality (c := ⟨g, pre ++ f :: post⟩) fuel _ hcont
        (phase2Turn_of_unmarked hg (hip g List.mem_cons_self hg))

/-- **Phase 2 when the innermost personality continues.** The loop panics after
that one call. -/
theorem phase2_run_panic (st : Stack) (cs : List (Call StackCursor))
    (hip : ∀ g ∈ pre, g.handler ≠ 0 → f.ip ≠ g.ip) :
    ∀ (fuel : ℕ) (self : Frame), pre.length < fuel →
      InnermostContinues cb cls (f :: post) w pre →
      ∃ context w' call,
        Act.iter (phase2Turn (stackEnv st cb) 0 cls f.ip) fuel uaCleanupPhase
          ⟨⟨⟨self, pre ++ f :: post⟩, false⟩, w, cs⟩ =
            (.panic, ⟨context, w', cs ++ [call]⟩) := by
  induction pre with
  | nil => intro _ _ _ h; exact h.elim
  | cons g pre ih =>
    intro fuel self hfuel hcont
    obtain ⟨fuel, rfl⟩ := Nat.exists_eq_succ_of_ne_zero (Nat.ne_of_gt (Nat.zero_lt_of_lt hfuel))
    unfold InnermostContinues at hcont
    by_cases hg : g.handler = 0
    · rw [if_pos hg] at hcont
      rw [List.cons_append,
        Act.iter_of_inl fuel ((phase2Turn_cons 0).trans (phase2Frame_of_no_handler 0 hg))]
      refine ih (fun g' hg' => hip g' (List.mem_cons_of_mem _ hg')) fuel g ?_ hcont
      exact Nat.lt_of_succ_lt_succ hfuel
    · rw [if_neg hg] at hcont
      have hturn : phase2Turn (stackEnv st cb) 0 cls f.ip uaCleanupPhase
          ⟨⟨⟨self, g :: (pre ++ f :: post)⟩, false⟩, w, cs⟩ = _ :=
        phase2Turn_of_unmarked hg (hip g List.mem_cons_self hg)
      have hrun := iter_of_personality_continue (c := ⟨g, pre ++ f :: post⟩) fuel hcont hturn
      unfold visit answered at hrun
      rw [if_pos hcont] at hrun
      exact ⟨_, _, _, hrun⟩

/-- The walk calls at least the personality of the handler frame. -/
theorem cleanupWalk_calls_ne_nil : ∀ (pre : List Frame) (w : World ω),
    (cleanupWalk cb cls f post pre w).calls ≠ [] := by
  intro pre
  induction pre with
  | nil => intro w; exact List.cons_ne_nil _ _
  | cons g pre ih =>
    intro w
    unfold cleanupWalk
    by_cases hg : g.handler = 0
    · rw [if_pos hg]
      exact ih w
    · rw [if_neg hg]
      exact List.cons_ne_nil _ _

/-- When the innermost personality continues, the walk makes a second call. -/
theorem one_lt_length_cleanupWalk (h : InnermostContinues cb cls (f :: post) w pre) :
    1 < (cleanupWalk cb cls f post pre w).calls.length := by
  induction pre with
  | nil => exact h.elim
  | cons g pre ih =>
    unfold InnermostContinues at h
    unfold cleanupWalk
    by_cases hg : g.handler = 0
    · rw [if_pos hg] at h ⊢
      exact ih h
    · rw [if_neg hg] at h ⊢
      unfold visit answered Walk.after
      rw [if_pos h, List.length_cons]
      exact Nat.succ_lt_succ (List.length_pos_iff.mpr (cleanupWalk_calls_ne_nil pre _))

/-! ### Phase 1 over a stack -/

/-- A turn of the search at a frame without a personality. -/
theorem searchTurn_of_no_handler (h : g.handler = 0) :
    searchTurn (stackEnv st cb) cls () ⟨⟨⟨self, g :: fs⟩, false⟩, w, cs⟩ =
      (.ok (.inl ()), ⟨⟨⟨g, fs⟩, false⟩, w, cs⟩) := by
  simp [searchTurn, stackEnv, stepStack, h]

/-- A turn of the search at a frame with a personality: the answer depends on the
IP only. -/
theorem searchTurn_of_handler (h : g.handler ≠ 0) :
    searchTurn (stackEnv st cb) cls () ⟨⟨⟨self, g :: fs⟩, false⟩, w, cs⟩ =
      (if cb.searchAnswer cls g.ip = .continueUnwind then .ok (.inl ())
        else if cb.searchAnswer cls g.ip = .handlerFound then .ok (.inr none)
        else .ok (.inr (some .fatalPhase1Error)),
        ⟨⟨⟨g, fs⟩, false⟩,
          (cb.personality g.handler uaSearchPhase cls ⟨⟨g, fs⟩, false⟩ w).2,
          cs ++ [.personality g.handler uaSearchPhase ⟨⟨g, fs⟩, false⟩]⟩) := by
  change (if g.handler = 0 then _ else _ :
    UnwAct StackCursor ω (Unit ⊕ Option ReasonCode)) _ = _
  rw [if_neg h, callPersonality_bind]
  change (if (cb.personality g.handler uaSearchPhase cls ⟨⟨g, fs⟩, false⟩ w).1 = _ then _
    else if (cb.personality g.handler uaSearchPhase cls ⟨⟨g, fs⟩, false⟩ w).1 = _ then _ else _ :
    UnwAct StackCursor ω (Unit ⊕ Option ReasonCode)) _ = _
  rw [cb.search_by_ip]
  by_cases hc : cb.searchAnswer cls g.ip = .continueUnwind
  · rw [if_pos hc, if_pos hc]
    rfl
  · rw [if_neg hc, if_neg hc]
    by_cases hf : cb.searchAnswer cls g.ip = .handlerFound
    · rw [if_pos hf, if_pos hf]
      rfl
    · rw [if_neg hf, if_neg hf]
      rfl

/-- **The search phase.** On a stack whose handler frame is `f` the search loop
breaks there, after the calls of `searchWalk`. -/
theorem searchLoop_run (st : Stack) (post : List Frame) :
    ∀ (pre : List Frame) (fuel : ℕ) (self : Frame) (w : World ω)
      (cs : List (Call StackCursor)), FoundAt cb cls pre f → pre.length < fuel →
      Act.iter (searchTurn (stackEnv st cb) cls) fuel ()
        ⟨⟨⟨self, pre ++ f :: post⟩, false⟩, w, cs⟩ =
      (.ok none, ⟨⟨⟨f, post⟩, false⟩, (searchWalk cb cls f post pre w).1,
        cs ++ (searchWalk cb cls f post pre w).2⟩) := by
  intro pre
  induction pre with
  | nil =>
    intro fuel self w cs hf hfuel
    obtain ⟨fuel, rfl⟩ := Nat.exists_eq_succ_of_ne_zero (Nat.ne_of_gt hfuel)
    refine Act.iter_of_inr fuel ?_
    rw [List.nil_append, searchTurn_of_handler hf.hasHandler, hf.found, if_neg (by decide),
      if_pos rfl]
    rfl
  | cons g pre ih =>
    intro fuel self w cs hf hfuel
    obtain ⟨fuel, rfl⟩ := Nat.exists_eq_succ_of_ne_zero (Nat.ne_of_gt (Nat.zero_lt_of_lt hfuel))
    have hrest : FoundAt cb cls pre f :=
      ⟨fun g' hg' => hf.passed g' (List.mem_cons_of_mem _ hg'), hf.hasHandler, hf.found⟩
    have hfuel' : pre.length < fuel := Nat.lt_of_succ_lt_succ hfuel
    unfold searchWalk
    by_cases hg : g.handler = 0
    · rw [if_pos hg, List.cons_append, Act.iter_of_inl fuel (searchTurn_of_no_handler hg)]
      exact ih fuel g w cs hrest hfuel'
    · -- the personality of the frame is asked, and passes
      have hturn : searchTurn (stackEnv st cb) cls ()
          ⟨⟨⟨self, g :: (pre ++ f :: post)⟩, false⟩, w, cs⟩ = _ := searchTurn_of_handler hg
      rw [hf.passed g List.mem_cons_self hg, if_pos rfl] at hturn
      rw [if_neg hg, List.cons_append, Act.iter_of_inl fuel hturn, ih fuel g _ _ hrest hfuel']
      simp

/-- A run of `_Unwind_RaiseException` that finds a handler is a run of phase 2
from the initial cursor, in the world the search phase left with the IP of the
handler frame as its marker. -/
theorem raiseException_eq_phase2 {s : UnwState StackCursor ω} {fuel : ℕ}
    (hst : st.frames = pre ++ f :: post) (hf : FoundAt cb s.world.exc.exceptionClass pre f)
    (hfuel : pre.length < fuel) :
    unwindRaiseException (stackEnv st cb) fuel s =
      Act.iter
        (phase2Turn (stackEnv st cb) 0
          (cleanupWorld cb s.world.exc.exceptionClass f post pre s.world).exc.exceptionClass f.ip)
        fuel uaCleanupPhase
        ⟨⟨⟨st.self, pre ++ f :: post⟩, false⟩,
          cleanupWorld cb s.world.exc.exceptionClass f post pre s.world,
          s.calls ++ (searchWalk cb s.world.exc.exceptionClass f post pre s.world).2⟩ := by
  have hloop := searchLoop_run st post pre fuel st.self s.world s.calls hf hfuel
  have hinit : unwindInitContext (stackEnv st cb) s =
      (.ok (some ()), ⟨⟨⟨st.self, pre ++ f :: post⟩, false⟩, s.world, s.calls⟩) := by
    unfold unwindInitContext stackEnv
    rw [hst]
  unfold unwindRaiseException
  rw [Act.get_bind, Act.bind_of_ok hinit]
  simp only
  rw [Act.bind_of_ok hloop]
  unfold enterPhase2 stackEnv
  rw [← hst]
  rfl

/-- **When the two phases agree.** A run that finds its handler at the frame `f`
agrees with the specification exactly when the innermost personality before `f`,
if there is one, does not answer `_URC_CONTINUE_UNWIND` to its cleanup call. -/
theorem raiseException_agrees_iff (st : Stack) (cb : Callbacks ω) (s : UnwState StackCursor ω)
    (fuel : ℕ) (pre : List Frame) (f : Frame) (post : List Frame)
    (hst : st.frames = pre ++ f :: post) (hf : FoundAt cb s.world.exc.exceptionClass pre f)
    (hfuel : pre.length < fuel) :
    TwoPhaseAgreement cb pre f post s (unwindRaiseException (stackEnv st cb) fuel s) ↔
      ¬InnermostContinues cb
        (cleanupWorld cb s.world.exc.exceptionClass f post pre s.world).exc.exceptionClass
        (f :: post) (cleanupWorld cb s.world.exc.exceptionClass f post pre s.world) pre := by
  have hip : ∀ g ∈ pre, g.handler ≠ 0 → f.ip ≠ g.ip := fun g hg h => hf.ip_ne hg h
  rw [raiseException_eq_phase2 hst hf hfuel]
  constructor
  · intro hagree hcont
    obtain ⟨context, w', call, hrun⟩ := phase2_run_panic st
      (s.calls ++ (searchWalk cb s.world.exc.exceptionClass f post pre s.world).2)
      hip fuel st.self hfuel hcont
    have hcalls := hagree.calls
    rw [hrun] at hcalls
    -- the run made one cleanup call, the specification makes at least two
    have hlen := congrArg List.length (List.append_cancel_left hcalls)
    have := one_lt_length_cleanupWalk hcont
    rw [← hlen] at this
    exact absurd this (Nat.lt_irrefl 1)
  · intro hcont
    obtain ⟨context, hrun⟩ := phase2_run_pass st
      (s.calls ++ (searchWalk cb s.world.exc.exceptionClass f post pre s.world).2)
      hip hf.hasHandler fuel st.self hfuel hcont
    rw [hrun]
    exact ⟨rfl, rfl, rfl⟩

/-- Two frames with one personality each. The outer one, at IP `2`, handles the
exception and installs its context. The inner one, at IP `1`, gives `answer` to
its cleanup call. -/
def innerAnswers (answer : ReasonCode) : Callbacks Unit where
  unwResume _ _ := false
  personality _ actions _ context w :=
    (if actions = uaSearchPhase then
        (if context.cursor.frame.ip = 2 then .handlerFound else .continueUnwind)
      else if context.cursor.frame.ip = 2 then .installContext else answer, w)
  stop _ _ _ _ _ w := (.noReason, w)
  searchAnswer _ ip := if ip = 2 then .handlerFound else .continueUnwind
  search_by_ip _ _ _ _ := by simp

/-- The stack of `innerAnswers`. -/
def twoFrames : Stack := ⟨⟨0, 0⟩, [⟨1, 0x100⟩, ⟨2, 0x100⟩], 0, le_rfl⟩

/-- The state in which an exception is raised. -/
def raising : UnwState StackCursor Unit := ⟨⟨⟨⟨0, 0⟩, []⟩, false⟩, ⟨⟨7, 0, 0⟩, ()⟩, []⟩

theorem innerAnswers_foundAt (answer : ReasonCode) :
    FoundAt (innerAnswers answer) raising.world.exc.exceptionClass [⟨1, 0x100⟩] ⟨2, 0x100⟩ where
  passed g hg _ := by
    rw [List.mem_singleton] at hg
    rw [hg]
    rfl
  hasHandler := by decide
  found := rfl

/-- The inner frame installs its context: the two phases agree. -/
theorem raiseException_agrees_inner_install :
    TwoPhaseAgreement (innerAnswers .installContext) [⟨1, 0x100⟩] ⟨2, 0x100⟩ [] raising
      (unwindRaiseException (stackEnv twoFrames (innerAnswers .installContext)) 2 raising) :=
  (raiseException_agrees_iff twoFrames (innerAnswers .installContext) raising 2 [⟨1, 0x100⟩]
    ⟨2, 0x100⟩ [] rfl (innerAnswers_foundAt .installContext) (by decide)).mpr (by
      intro h
      exact absurd (show ReasonCode.installContext = ReasonCode.continueUnwind from h) (by decide))

/-- The inner frame has nothing to clean up and answers `_URC_CONTINUE_UNWIND`:
the run panics there, although the handler of the outer frame installs its
context. -/
theorem raiseException_panics_inner_continue :
    FoundAt (innerAnswers .continueUnwind) raising.world.exc.exceptionClass
        [⟨1, 0x100⟩] ⟨2, 0x100⟩ ∧
      (unwindRaiseException (stackEnv twoFrames (innerAnswers .continueUnwind)) 2 raising).1 =
        .panic ∧
      ¬TwoPhaseAgreement (innerAnswers .continueUnwind) [⟨1, 0x100⟩] ⟨2, 0x100⟩ [] raising
        (unwindRaiseException (stackEnv twoFrames (innerAnswers .continueUnwind)) 2 raising) := by
  refine ⟨innerAnswers_foundAt .continueUnwind, by decide, ?_⟩
  intro h
  exact absurd h.outcome (by decide)

end LibunwindKern.Unwind
