import LibunwindKern.Lib.Lockstep
import LibunwindKern.Unwind.CleanupChain

/-!
# The two phases on two kinds of stacks

The two phases see a stack only through the functions of `Env`. `Simulates R E E'` says that the
relation `R` of the cursors is kept by these functions: on related cursors they answer the same, and
a step that succeeds leads to related cursors. After a step that fails, or ends the stack, the
cursors need not be related any more, since no personality routine sees them.

`unwindPhase2_alike` is what follows for phase 2. It makes the same calls in both environments, with
the same arguments and in the same order, and ends in the same way. Where it resumes a frame, it is
the same frame. The entry points follow from it: `raiseException_alike`, `forcedUnwind_alike`,
`resumeOrRethrow_alike` and `unwindResume_alike`.

The stop function of a forced unwinding is called once more after the last frame, with a context at
the end of the stack. The cursors are not related there, so it has to answer without looking at them.
-/

namespace LibunwindKern.Unwind

open CProg ByteMem

variable {υ υ' κ κ' ω : Type}

/-- The environments answer the same on related cursors. -/
structure Simulates (R : κ → κ' → Prop) (E : Env υ κ ω) (E' : Env υ' κ' ω) : Prop where
  start : ∃ uc uc' c c', E.unwGetcontext = some uc ∧ E.unwInitLocal uc = some c ∧
    E'.unwGetcontext = some uc' ∧ E'.unwInitLocal uc' = some c' ∧ R c c'
  step : ∀ {c c'}, R c c' → (E.unwStep c).1 = (E'.unwStep c').1
  kept : ∀ {c c'}, R c c' → 0 < (E.unwStep c).1 → R (E.unwStep c).2 (E'.unwStep c').2
  procInfo : ∀ {c c'}, R c c' → E.unwGetProcInfo c = E'.unwGetProcInfo c'
  ip : ∀ {c c'}, R c c' → E.unwGetIp c = E'.unwGetIp c'
  resume : ∀ {c c'}, R c c' → ∀ w, E.unwResume c w = E'.unwResume c' w
  personality : ∀ {c c'}, R c c' → ∀ handler actions cls b w,
    E.personality handler actions cls ⟨c, b⟩ w = E'.personality handler actions cls ⟨c', b⟩ w
  stop : ∀ {c c'}, R c c' → ∀ stop actions cls param w,
    E.stop stop actions cls ⟨c, false⟩ param w = E'.stop stop actions cls ⟨c', false⟩ param w
  stopAtEnd : ∀ c c' stop actions cls param w,
    E.stop stop actions cls ⟨c, true⟩ param w = E'.stop stop actions cls ⟨c', true⟩ param w

/-- The same call, for related cursors. A stop function may also be called at the end of the stack. -/
inductive SameCall (R : κ → κ' → Prop) : Call κ → Call κ' → Prop
  | personality {handler : Word} {actions : Action} {c : κ} {c' : κ'} {b : Bool} (h : R c c') :
      SameCall R (.personality handler actions ⟨c, b⟩) (.personality handler actions ⟨c', b⟩)
  | stop {actions : Action} {c : κ} {c' : κ'} {b : Bool} (h : b = false → R c c') :
      SameCall R (.stop actions ⟨c, b⟩) (.stop actions ⟨c', b⟩)
  | resume {c : κ} {c' : κ'} (h : R c c') : SameCall R (.resume c) (.resume c')

/-- The same end, at related cursors. -/
inductive SameExit (R : κ → κ' → Prop) : Exit κ → Exit κ' → Prop
  | reason (r : ReasonCode) : SameExit R (.reason r) (.reason r)
  | resumed {c : κ} {c' : κ'} (h : R c c') : SameExit R (.resumed c) (.resumed c')

/-- The same world, after the same calls. -/
structure SameLog (R : κ → κ' → Prop) (s : UnwState κ ω) (s' : UnwState κ' ω) : Prop where
  world : s.world = s'.world
  calls : List.Forall₂ (SameCall R) s.calls s'.calls

/-- Related cursors as well, before the end of the stack. -/
structure SameRun (R : κ → κ' → Prop) (s : UnwState κ ω) (s' : UnwState κ' ω) : Prop extends
    SameLog R s s' where
  cursor : R s.context.cursor s'.context.cursor
  inside : s.context.endOfStack = false ∧ s'.context.endOfStack = false

/-- The end of the stack, where the cursors do not matter any more. -/
structure SameEndOfStack (R : κ → κ' → Prop) (s : UnwState κ ω) (s' : UnwState κ' ω) : Prop extends
    SameLog R s s' where
  outside : s.context.endOfStack = true ∧ s'.context.endOfStack = true

/-- Two runs of an unwinding routine that end alike. -/
abbrev SameEnd (R : κ → κ' → Prop) :
    Res Empty (Exit κ) × UnwState κ ω → Res Empty (Exit κ') × UnwState κ' ω → Prop :=
  EndAlike (fun e e' t t' => SameExit R e e' ∧ SameLog R t t') (SameLog R)

/-- A turn of a loop of an unwinding routine, in lockstep. -/
abbrev SameTurn {ι α α' : Type} (R : κ → κ' → Prop)
    (Q : α → α' → UnwState κ ω → UnwState κ' ω → Prop) :
    Res Empty (ι ⊕ α) × UnwState κ ω → Res Empty (ι ⊕ α') × UnwState κ' ω → Prop :=
  EndAlike (Turn (fun i i' t t' => i = i' ∧ SameRun R t t') Q) (SameLog R)

section Lockstep

variable {R : κ → κ' → Prop} {E : Env υ κ ω} {E' : Env υ' κ' ω} {s : UnwState κ ω}
  {s' : UnwState κ' ω}

theorem SameLog.snoc (h : SameLog R s s') {call : Call κ} {call' : Call κ'}
    (hcall : SameCall R call call') :
    List.Forall₂ (SameCall R) (s.calls ++ [call]) (s'.calls ++ [call']) :=
  List.rel_append h.calls (.cons hcall .nil)

/-- A step. The cursors are related after one that succeeds. -/
theorem stepContext_alike (hsim : Simulates R E E') (h : SameRun R s s') :
    EndAlike (fun r r' t t' => r = r' ∧ SameLog R t t' ∧ (0 < r → SameRun R t t')) (SameLog R)
      (stepContext E s) (stepContext E' s') :=
  .ok ⟨hsim.step h.cursor, ⟨h.world, h.calls⟩, fun hpos =>
    ⟨⟨h.world, h.calls⟩, hsim.kept h.cursor hpos, h.inside⟩⟩

theorem callPersonality_alike (hsim : Simulates R E E') (h : SameRun R s s') (handler : Word)
    (actions : Action) (cls : Word) :
    EndAlike (fun r r' t t' => r = r' ∧ SameRun R t t') (SameLog R)
      (callPersonality E handler actions cls s) (callPersonality E' handler actions cls s') := by
  have hanswer : E.personality handler actions cls s.context s.world =
      E'.personality handler actions cls s'.context s'.world := by
    obtain ⟨⟨c, b⟩, w, cs⟩ := s
    obtain ⟨⟨c', b'⟩, w', cs'⟩ := s'
    obtain ⟨⟨rfl, -⟩, hc, ⟨rfl, rfl⟩⟩ := h
    exact hsim.personality hc handler actions cls false w
  have hcall : SameCall R (.personality handler actions s.context)
      (.personality handler actions s'.context) := by
    obtain ⟨⟨c, b⟩, w, cs⟩ := s
    obtain ⟨⟨c', b'⟩, w', cs'⟩ := s'
    obtain ⟨-, hc, ⟨rfl, rfl⟩⟩ := h
    exact .personality hc
  exact .ok ⟨congrArg Prod.fst hanswer,
    ⟨⟨congrArg Prod.snd hanswer, h.toSameLog.snoc hcall⟩, h.cursor, h.inside⟩⟩

theorem callStop_alike (hsim : Simulates R E E') (h : SameRun R s s') (stop : Word)
    (actions : Action) (cls param : Word) :
    EndAlike (fun r r' t t' => r = r' ∧ SameRun R t t') (SameLog R)
      (callStop E stop actions cls param s) (callStop E' stop actions cls param s') := by
  obtain ⟨⟨c, b⟩, w, cs⟩ := s
  obtain ⟨⟨c', b'⟩, w', cs'⟩ := s'
  obtain ⟨⟨rfl, hcalls⟩, hc, ⟨rfl, rfl⟩⟩ := h
  have hanswer := hsim.stop hc stop actions cls param w
  have hlog : SameLog R (⟨⟨c, false⟩, w, cs⟩ : UnwState κ ω) ⟨⟨c', false⟩, w, cs'⟩ := ⟨rfl, hcalls⟩
  exact .ok ⟨congrArg Prod.fst hanswer,
    ⟨⟨congrArg Prod.snd hanswer, hlog.snoc (.stop fun _ => hc)⟩, hc, ⟨rfl, rfl⟩⟩⟩

/-- The stop function after the last frame. -/
theorem callStop_at_end (hsim : Simulates R E E') (h : SameEndOfStack R s s') (stop : Word)
    (actions : Action) (cls param : Word) :
    EndAlike (fun r r' t t' => r = r' ∧ SameEndOfStack R t t') (SameLog R)
      (callStop E stop actions cls param s) (callStop E' stop actions cls param s') := by
  obtain ⟨⟨c, b⟩, w, cs⟩ := s
  obtain ⟨⟨c', b'⟩, w', cs'⟩ := s'
  obtain ⟨⟨rfl, hcalls⟩, ⟨rfl, rfl⟩⟩ := h
  have hanswer := hsim.stopAtEnd c c' stop actions cls param w
  have hlog : SameLog R (⟨⟨c, true⟩, w, cs⟩ : UnwState κ ω) ⟨⟨c', true⟩, w, cs'⟩ := ⟨rfl, hcalls⟩
  exact .ok ⟨congrArg Prod.fst hanswer,
    ⟨⟨congrArg Prod.snd hanswer, hlog.snoc (.stop nofun)⟩, ⟨rfl, rfl⟩⟩⟩

theorem resumeContext_alike (hsim : Simulates R E E') (h : SameRun R s s') :
    SameEnd R (resumeContext E s) (resumeContext E' s') := by
  have hlog : SameLog R { s with calls := s.calls ++ [.resume s.context.cursor] }
      { s' with calls := s'.calls ++ [.resume s'.context.cursor] } :=
    ⟨h.world, h.toSameLog.snoc (.resume h.cursor)⟩
  have hback : E.unwResume s.context.cursor s.world = E'.unwResume s'.context.cursor s'.world := by
    rw [h.world, hsim.resume h.cursor]
  unfold resumeContext
  cases hresume : E'.unwResume s'.context.cursor s'.world with
  | true =>
    rw [hback, hresume]
    exact .panic hlog
  | false =>
    rw [hback, hresume]
    exact .ok ⟨.resumed h.cursor, hlog⟩

/-! ### Phase 2 -/

/-- What follows the answer of a personality routine. -/
theorem phase2Answer_alike (hsim : Simulates R E E') (h : SameRun R s s') (reason : ReasonCode) :
    SameTurn R (fun e e' t t' => SameExit R e e' ∧ SameLog R t t')
      (phase2Answer E reason s) (phase2Answer E' reason s') := by
  unfold phase2Answer
  split_ifs
  · exact .panic h.toSameLog
  · refine (resumeContext_alike hsim h).bind fun e e' t t' hend => ?_
    exact .ok hend
  · exact .ok ⟨.reason _, h.toSameLog⟩

theorem phase2Personality_alike (hsim : Simulates R E E') (h : SameRun R s s') (handler : Word)
    (actions : Action) (cls : Word) :
    SameTurn R (fun e e' t t' => SameExit R e e' ∧ SameLog R t t')
      (phase2Personality E handler actions cls s) (phase2Personality E' handler actions cls s') := by
  refine (callPersonality_alike hsim h handler actions cls).bind fun r r' t t' hcall => ?_
  obtain ⟨rfl, hrun⟩ := hcall
  exact phase2Answer_alike hsim hrun r

/-- The part of a turn that looks at the frame. -/
theorem phase2Frame_alike (hsim : Simulates R E E') (h : SameRun R s s') (stop cls param : Word)
    (actions : Action) :
    SameTurn R (fun e e' t t' => SameExit R e e' ∧ SameLog R t t')
      (phase2Frame E stop cls param actions s) (phase2Frame E' stop cls param actions s') := by
  unfold phase2Frame
  rw [Act.get_bind, Act.get_bind, if_neg (by simp [h.inside.1]), if_neg (by simp [h.inside.2]),
    hsim.procInfo h.cursor, hsim.ip h.cursor]
  cases E'.unwGetProcInfo s'.context.cursor with
  | none => exact .ok ⟨.reason _, h.toSameLog⟩
  | some handler =>
    dsimp only
    by_cases hhandler : handler = 0
    · rw [if_pos hhandler, if_pos hhandler]
      exact .ok ⟨rfl, h⟩
    · rw [if_neg hhandler, if_neg hhandler]
      by_cases hstop : stop = 0
      · rw [if_pos hstop, if_pos hstop]
        cases E'.unwGetIp s'.context.cursor with
        | none => exact .ok ⟨.reason _, h.toSameLog⟩
        | some ip => exact phase2Personality_alike hsim h handler _ cls
      · rw [if_neg hstop, if_neg hstop]
        exact phase2Personality_alike hsim h handler actions cls

/-- At the end of the stack there is no frame to look at. -/
theorem phase2Frame_at_end (h : SameEndOfStack R s s') (stop cls param : Word) (actions : Action) :
    SameTurn R (fun e e' t t' => SameExit R e e' ∧ SameLog R t t')
      (phase2Frame E stop cls param actions s) (phase2Frame E' stop cls param actions s') := by
  unfold phase2Frame
  rw [Act.get_bind, Act.get_bind, if_pos h.outside.1, if_pos h.outside.2]
  exact .ok ⟨.reason _, h.toSameLog⟩

theorem phase2Stop_alike (hsim : Simulates R E E') (h : SameRun R s s') (stop cls param : Word)
    (actions : Action) :
    SameTurn R (fun e e' t t' => SameExit R e e' ∧ SameLog R t t')
      (phase2Stop E stop cls param actions s) (phase2Stop E' stop cls param actions s') := by
  unfold phase2Stop
  by_cases hstop : stop = 0
  · rw [if_pos hstop, if_pos hstop]
    exact phase2Frame_alike hsim h stop cls param actions
  · rw [if_neg hstop, if_neg hstop]
    refine (callStop_alike hsim h stop actions cls param).bind fun r r' t t' hcall => ?_
    obtain ⟨rfl, hrun⟩ := hcall
    by_cases hgo : r = .noReason
    · rw [if_pos hgo, if_pos hgo]
      exact phase2Frame_alike hsim hrun stop cls param actions
    · rw [if_neg hgo, if_neg hgo]
      exact .ok ⟨.reason _, hrun.toSameLog⟩

theorem phase2Stop_at_end (hsim : Simulates R E E') (h : SameEndOfStack R s s')
    (stop cls param : Word) (actions : Action) :
    SameTurn R (fun e e' t t' => SameExit R e e' ∧ SameLog R t t')
      (phase2Stop E stop cls param actions s) (phase2Stop E' stop cls param actions s') := by
  unfold phase2Stop
  by_cases hstop : stop = 0
  · rw [if_pos hstop, if_pos hstop]
    exact phase2Frame_at_end h stop cls param actions
  · rw [if_neg hstop, if_neg hstop]
    refine (callStop_at_end hsim h stop actions cls param).bind fun r r' t t' hcall => ?_
    obtain ⟨rfl, hend⟩ := hcall
    by_cases hgo : r = .noReason
    · rw [if_pos hgo, if_pos hgo]
      exact phase2Frame_at_end hend stop cls param actions
    · rw [if_neg hgo, if_neg hgo]
      exact .ok ⟨.reason _, hend.toSameLog⟩

/-- **A turn of phase 2.** -/
theorem phase2Turn_alike (hsim : Simulates R E E') (h : SameRun R s s') (stop cls param : Word)
    (actions : Action) :
    SameTurn R (fun e e' t t' => SameExit R e e' ∧ SameLog R t t')
      (phase2Turn E stop cls param actions s) (phase2Turn E' stop cls param actions s') := by
  refine (stepContext_alike hsim h).bind fun r r' t t' hstep => ?_
  obtain ⟨rfl, hlog, hnext⟩ := hstep
  by_cases hfail : r < 0
  · rw [if_pos hfail, if_pos hfail]
    exact .ok ⟨.reason _, hlog⟩
  · rw [if_neg hfail, if_neg hfail]
    by_cases hlast : r = 0
    · rw [if_pos hlast, if_pos hlast, Act.modify_bind, Act.modify_bind]
      refine phase2Stop_at_end hsim ?_ stop cls param _
      exact ⟨⟨hlog.world, hlog.calls⟩, rfl, rfl⟩
    · rw [if_neg hlast, if_neg hlast]
      exact phase2Stop_alike hsim (hnext (by omega)) stop cls param actions

/-- **Phase 2** in both environments. -/
theorem unwindPhase2_alike (hsim : Simulates R E E') (fuel : ℕ) (h : SameRun R s s') :
    SameEnd R (unwindPhase2 E fuel s) (unwindPhase2 E' fuel s') := by
  unfold unwindPhase2
  rw [Act.get_bind, Act.get_bind, ← h.world]
  refine EndAlike.iter (I := fun i i' t t' => i = i' ∧ SameRun R t t')
    (fun _ _ _ _ hinv => hinv.2.toSameLog) (fun i i' t t' hinv => ?_) fuel _ _ s s' ⟨rfl, h⟩
  obtain ⟨rfl, hrun⟩ := hinv
  exact phase2Turn_alike hsim hrun _ _ _ i

/-! ### Phase 1 and the entry points -/

/-- A turn of the search. It leaves the loop at the same frame, or with the same reason. -/
theorem searchTurn_alike (hsim : Simulates R E E') (h : SameRun R s s') (cls : Word) :
    SameTurn R (fun r r' t t' => r = r' ∧ SameLog R t t' ∧ (r = none → SameRun R t t'))
      (searchTurn E cls () s) (searchTurn E' cls () s') := by
  refine (stepContext_alike hsim h).bind fun r r' t t' hstep => ?_
  obtain ⟨rfl, hlog, hnext⟩ := hstep
  by_cases hlast : r = 0
  · rw [if_pos hlast, if_pos hlast]
    exact .ok ⟨rfl, hlog, nofun⟩
  · rw [if_neg hlast, if_neg hlast]
    by_cases hfail : r < 0
    · rw [if_pos hfail, if_pos hfail]
      exact .ok ⟨rfl, hlog, nofun⟩
    · rw [if_neg hfail, if_neg hfail]
      have hrun := hnext (by omega)
      rw [Act.get_bind, Act.get_bind, hsim.procInfo hrun.cursor]
      cases E'.unwGetProcInfo t'.context.cursor with
      | none => exact .ok ⟨rfl, hlog, nofun⟩
      | some handler =>
        dsimp only
        by_cases hhandler : handler = 0
        · rw [if_pos hhandler, if_pos hhandler]
          exact .ok ⟨rfl, hrun⟩
        · rw [if_neg hhandler, if_neg hhandler]
          refine (callPersonality_alike hsim hrun handler _ cls).bind fun q q' u u' hcall => ?_
          obtain ⟨rfl, hsame⟩ := hcall
          split_ifs
          · exact .ok ⟨rfl, hsame⟩
          · exact .ok ⟨rfl, hsame.toSameLog, fun _ => hsame⟩
          · exact .ok ⟨rfl, hsame.toSameLog, nofun⟩

/-- The cursors that `_Unwind_InitContext` sets up are related. -/
theorem unwindInitContext_alike (hsim : Simulates R E E') (s : UnwState κ ω) (s' : UnwState κ' ω) :
    ∃ uc uc' c c', E.unwInitLocal uc = some c ∧ E'.unwInitLocal uc' = some c' ∧ R c c' ∧
      unwindInitContext E s = (.ok (some uc), { s with context := ⟨c, false⟩ }) ∧
      unwindInitContext E' s' = (.ok (some uc'), { s' with context := ⟨c', false⟩ }) := by
  obtain ⟨uc, uc', c, c', hget, hinit, hget', hinit', hc⟩ := hsim.start
  refine ⟨uc, uc', c, c', hinit, hinit', hc, ?_, ?_⟩
  · unfold unwindInitContext
    rw [hget]
    dsimp only
    rw [hinit]
  · unfold unwindInitContext
    rw [hget']
    dsimp only
    rw [hinit']

/-- **`_Unwind_RaiseException`** in both environments. -/
theorem raiseException_alike (hsim : Simulates R E E') (fuel : ℕ) (h : SameLog R s s') :
    SameEnd R (unwindRaiseException E fuel s) (unwindRaiseException E' fuel s') := by
  obtain ⟨uc, uc', c, c', hinit, hinit', hc, hrun, hrun'⟩ := unwindInitContext_alike hsim s s'
  have hstart : SameRun R { s with context := ⟨c, false⟩ } { s' with context := ⟨c', false⟩ } :=
    ⟨⟨h.world, h.calls⟩, hc, rfl, rfl⟩
  have hcls : s.world.exc.exceptionClass = s'.world.exc.exceptionClass := by rw [h.world]
  unfold unwindRaiseException
  rw [Act.get_bind, Act.get_bind, Act.bind_of_ok hrun, Act.bind_of_ok hrun', hcls]
  refine EndAlike.bind (R := fun r r' t t' => r = r' ∧ SameLog R t t' ∧ (r = none → SameRun R t t'))
    (EndAlike.iter (I := fun i i' t t' => i = i' ∧ SameRun R t t')
      (fun _ _ _ _ hinv => hinv.2.toSameLog) (fun _ _ t t' hinv => ?_) fuel () () _ _
      ⟨rfl, hstart⟩) fun found found' t t' hfound => ?_
  · exact searchTurn_alike hsim hinv.2 _
  · obtain ⟨rfl, hlog, hnext⟩ := hfound
    cases found with
    | some reason => exact .ok ⟨.reason reason, hlog⟩
    | none =>
      -- the search ends at related cursors, and phase 2 starts again from the first ones
      have hsame := hnext rfl
      unfold enterPhase2
      dsimp only
      rw [Act.get_bind, Act.get_bind, hsim.ip hsame.cursor]
      cases E'.unwGetIp t'.context.cursor with
      | none => exact .ok ⟨.reason _, hlog⟩
      | some ip =>
        dsimp only
        rw [hinit, hinit']
        refine unwindPhase2_alike hsim fuel ⟨⟨?_, hlog.calls⟩, hc, hsame.inside⟩
        simp only [hlog.world]

/-- **`_Unwind_ForcedUnwind`** in both environments. -/
theorem forcedUnwind_alike (hsim : Simulates R E E') (stop param : Word) (fuel : ℕ)
    (h : SameLog R s s') :
    SameEnd R (unwindForcedUnwind E stop param fuel s) (unwindForcedUnwind E' stop param fuel s') := by
  obtain ⟨uc, uc', c, c', -, -, hc, hrun, hrun'⟩ := unwindInitContext_alike hsim s s'
  unfold unwindForcedUnwind
  by_cases hstop : stop = 0
  · rw [if_pos hstop, if_pos hstop]
    exact .ok ⟨.reason _, h⟩
  · rw [if_neg hstop, if_neg hstop, Act.bind_of_ok hrun, Act.bind_of_ok hrun']
    refine unwindPhase2_alike hsim fuel ⟨⟨?_, h.calls⟩, hc, rfl, rfl⟩
    simp only [h.world]

/-- Phase 2 after `_Unwind_InitContext`. -/
theorem initPhase2_alike (hsim : Simulates R E E') (fuel : ℕ) (h : SameLog R s s') :
    ∃ uc uc' t t', unwindInitContext E s = (.ok (some uc), t) ∧
      unwindInitContext E' s' = (.ok (some uc'), t') ∧
      SameEnd R (unwindPhase2 E fuel t) (unwindPhase2 E' fuel t') := by
  obtain ⟨uc, uc', c, c', -, -, hc, hrun, hrun'⟩ := unwindInitContext_alike hsim s s'
  exact ⟨uc, uc', _, _, hrun, hrun',
    unwindPhase2_alike hsim fuel ⟨⟨h.world, h.calls⟩, hc, rfl, rfl⟩⟩

/-- **`_Unwind_Resume_or_Rethrow`** in both environments. -/
theorem resumeOrRethrow_alike (hsim : Simulates R E E') (fuel : ℕ) (h : SameLog R s s') :
    SameEnd R (unwindResumeOrRethrow E fuel s) (unwindResumeOrRethrow E' fuel s') := by
  unfold unwindResumeOrRethrow
  rw [Act.get_bind, Act.get_bind, ← h.world]
  by_cases hforced : s.world.exc.private1 = 0
  · rw [if_pos hforced, if_pos hforced]
    exact raiseException_alike hsim fuel h
  · rw [if_neg hforced, if_neg hforced]
    obtain ⟨uc, uc', t, t', hrun, hrun', hend⟩ := initPhase2_alike hsim fuel h
    rw [Act.bind_of_ok hrun, Act.bind_of_ok hrun']
    exact hend

/-- **`_Unwind_Resume`** in both environments. -/
theorem unwindResume_alike (hsim : Simulates R E E') (fuel : ℕ) (h : SameLog R s s') :
    SameEnd R (unwindResume E fuel s) (unwindResume E' fuel s') := by
  obtain ⟨uc, uc', t, t', hrun, hrun', hend⟩ := initPhase2_alike hsim fuel h
  unfold unwindResume
  rw [Act.bind_of_ok hrun, Act.bind_of_ok hrun']
  refine hend.bind fun e e' u u' hsame => ?_
  obtain ⟨hexit, hlog⟩ := hsame
  cases hexit with
  | reason r => exact .panic hlog
  | resumed hr => exact .ok ⟨.resumed hr, hlog⟩

end Lockstep

end LibunwindKern.Unwind
