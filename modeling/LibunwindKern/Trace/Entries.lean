import LibunwindKern.Trace.Backtrace
import LibunwindKern.X86.StepRun

/-!
# What the frame caches hold

`tdep_trace` has a branch for a signal frame, which is the one kind of frame after which it
does not back up. No function of the library gives a frame this type: `unw_step` makes a frame
a standard or a guessed one or leaves its type alone (`unwStep_noNewSignal`), and an entry of a
cache is what `unw_step` has made of a frame of unknown type. `Traced.signalFree` is the
invariant: whatever has been traced before, no entry is a signal frame.
-/

namespace LibunwindKern

open CProg ByteMem Unw Fast

/-! ### One step -/

/-- The frame info is that of a signal frame only if it was so before. -/
def NoNewSignal (s t : St) : Prop :=
  t.c.frameInfo.frameType = .sigreturn → s.c.frameInfo.frameType = .sigreturn

instance : IsPreorder St NoNewSignal where
  refl _ := id
  trans _ _ _ h h' := h ∘ h'

section Step

variable {k : Kernel} {v : Validator} {m : Mem} {fuel : ℕ}

theorem fetchProcInfo_keeps_info (ip : Word) :
    Act.Keeps (fun s : St => s.c.frameInfo) (fetchProcInfo k m ip true) := by
  intro s
  rcases hfetch : fetchProcInfo k m ip true s with ⟨r, u⟩
  -- however the lookup ends, it has written the procedure info and nothing of the frame
  cases FetchEnd.of_run (Or.inl rfl) hfetch <;> rfl

theorem createStateRecordFor_keeps_info (ip : Word) :
    Act.Keeps (fun s : St => s.c.frameInfo) (createStateRecordFor m fuel ip) := by
  have hparse : Act.Keeps (fun s : St => s.c.frameInfo) (parseFde m fuel ip) := by
    refine Act.Keeps.bind Act.Keeps.get fun s => ?_
    split
    · exact Act.Keeps.bind (Act.Keeps.modify fun _ => rfl) fun _ _ => rfl
    · exact Act.Keeps.lift _
  refine Act.Keeps.bind Act.Keeps.get fun s => ?_
  split
  · split
    · exact hparse
    · exact hparse
    · exact Act.Keeps.fail _
  · exact Act.Keeps.lift _

theorem putUnwindInfo_keeps_info : Act.Keeps (fun s : St => s.c.frameInfo) putUnwindInfo :=
  putUnwindInfo_keeps fun _ => rfl

section Moves

variable {R : St → St → Prop} [IsPreorder St R]
variable (hinfo : ∀ s t : St, t.c.frameInfo = s.c.frameInfo → R s t)
variable (hframe : ∀ s t, Reframed s t → R s t)
include hinfo hframe

theorem dwarfStep_moves : Act.Moves R (dwarfStep k v m fuel) := by
  have hrow : ∀ rs, Act.Moves R (applyRegState v m fuel rs) := fun rs s =>
    hframe s _ (applyRegState_reframes v m fuel rs s)
  refine Act.Moves.bind ?_ fun _ => ?_
  · refine Act.Moves.bind Act.Moves.get fun s => ?_
    refine Act.Moves.bind ((fetchProcInfo_keeps_info _).moves hinfo) fun _ => ?_
    refine Act.Moves.bind Act.Moves.get fun s => ?_
    refine Act.Moves.bind ((createStateRecordFor_keeps_info _).moves hinfo) fun sr => ?_
    refine Act.Moves.bind (hrow _) fun _ => ?_
    exact putUnwindInfo_keeps_info.moves hinfo
  · exact Act.Moves.bind (fun s => hinfo s _ rfl) fun _ => Act.Moves.pure _

/-- **One step and the frame info**: a step does to it what moving to another frame does. -/
theorem unwStep_moves : Act.Moves R (unwStep k v m fuel) := by
  intro s
  rw [unwStep_eq]
  have hafter : ∀ ret, Act.Moves R (afterDwarfStep v m s.c.validate ret) := fun ret t =>
    hframe t _ (afterDwarfStep_reframes s.c.validate ret t)
  have harm : R s (arm s) := hinfo s (arm s) rfl
  exact trans_of R harm (Act.Moves.bind (dwarfStep_moves hinfo hframe).attempt hafter (arm s))

end Moves

/-- A step does not make a signal frame of a frame. -/
theorem unwStep_noNewSignal : Act.Moves NoNewSignal (unwStep k v m fuel) :=
  unwStep_moves (fun _ _ heq hsignal => heq ▸ hsignal) fun _ _ h => h.signal

/-- A step leaves the address of the frame alone. -/
theorem unwStep_address :
    Act.Keeps (fun s : St => s.c.frameInfo.virtualAddress) (unwStep k v m fuel) := by
  let R : St → St → Prop := fun s t => t.c.frameInfo.virtualAddress = s.c.frameInfo.virtualAddress
  have : IsPreorder St R := { refl := fun _ => rfl, trans := fun _ _ _ h h' => h'.trans h }
  have hmoves : Act.Moves R (unwStep k v m fuel) :=
    unwStep_moves (fun _ _ heq => congrArg FrameInfo.virtualAddress heq) fun _ _ h => h.address
  exact hmoves

end Step

/-! ### The caches -/

/-- No entry of a cache is a signal frame. -/
def TraceSt.SignalFree (s : TraceSt) : Prop :=
  ∀ cache slot, ((s.caches cache).frames slot).frameType ≠ .sigreturn

/-- A call on the caches adds no signal frame. -/
def StaysFree (s t : TraceSt) : Prop := s.SignalFree → t.SignalFree

instance : IsPreorder TraceSt StaysFree where
  refl _ := id
  trans _ _ _ h h' := h' ∘ h

section Caches

variable {K : KernMalloc} {t : Tid}

theorem staysFree_of_keeps {α : Type} {x : TraceAct α} (h : Act.Keeps TraceSt.caches x) :
    Act.Moves StaysFree x := by
  refine h.moves fun s u heq hfree cache slot => ?_
  rw [heq]
  exact hfree cache slot

theorem onPool_staysFree {α : Type} (x : PoolAct α) : Act.Moves StaysFree (onPool x) :=
  staysFree_of_keeps fun _ => rfl

/-- A cache in which every entry is an old one, or is not a signal frame. -/
theorem SignalFree.update {s : TraceSt} (h : s.SignalFree) (cache : Word) {c : TraceCache}
    (hc : ∀ slot, (c.frames slot).frameType ≠ .sigreturn) :
    TraceSt.SignalFree { s with caches := Function.update s.caches cache c } := by
  intro cache' slot
  by_cases heq : cache' = cache
  · subst heq
    change ((Function.update s.caches cache' c cache').frames slot).frameType ≠ _
    rw [Function.update_self]
    exact hc slot
  · change ((Function.update s.caches cache c cache').frames slot).frameType ≠ _
    rw [Function.update_of_ne heq]
    exact h cache' slot

theorem empty_signalFree (n slot : ℕ) : ((TraceCache.empty n).frames slot).frameType ≠ .sigreturn :=
  nofun

theorem traceCacheCreate_staysFree : Act.Moves StaysFree (traceCacheCreate K t) := by
  intro s
  unfold traceCacheCreate
  split
  · exact id
  · refine Act.Moves.bind (onPool_staysFree _) (fun cache => ?_) s
    split
    · exact Act.Moves.pure _
    · refine Act.Moves.bind (onPool_staysFree _) fun r => ?_
      split
      · exact Act.Moves.bind (onPool_staysFree _) fun _ => Act.Moves.pure _
      · exact fun s hfree => SignalFree.update hfree cache (empty_signalFree _)

theorem traceCacheGet_staysFree : Act.Moves StaysFree (traceCacheGet K t) := by
  intro s
  unfold traceCacheGet
  split
  · refine Act.Moves.bind ?_ (fun _ => ?_) s
    · exact Act.Moves.bind (onPool_staysFree _) fun _ =>
        staysFree_of_keeps (Act.Keeps.modify fun _ => rfl)
    · intro s
      unfold ownCache
      split
      · exact Act.Moves.bind traceCacheCreate_staysFree
          (fun _ => staysFree_of_keeps fun _ => rfl) s
      · exact id
  · unfold traceCacheGetUnthreaded
    split
    · exact Act.Moves.bind (onPool_staysFree _) (fun _ =>
        Act.Moves.bind traceCacheCreate_staysFree fun _ => staysFree_of_keeps fun _ => rfl) s
    · exact id

theorem setFrame_staysFree (cache : Word) (slot : ℕ) {f : FrameInfo}
    (hf : f.frameType ≠ .sigreturn) : Act.Moves StaysFree (setFrame cache slot f) := by
  intro s hfree
  refine SignalFree.update hfree cache fun slot' => ?_
  change (Function.update (s.caches cache).frames slot f slot').frameType ≠ _
  by_cases heq : slot' = slot
  · subst heq
    rw [Function.update_self]
    exact hf
  · rw [Function.update_of_ne heq]
    exact hfree cache slot'

theorem countUsed_staysFree (cache : Word) : Act.Moves StaysFree (countUsed cache) :=
  fun _ hfree => SignalFree.update hfree cache (hfree cache)

theorem traceCacheExpand_staysFree (cache : Word) :
    Act.Moves StaysFree (traceCacheExpand K cache) := by
  intro s
  unfold traceCacheExpand
  split
  · refine Act.Moves.bind (onPool_staysFree _) (fun r => ?_) s
    split
    · exact Act.Moves.pure _
    · exact fun s hfree => SignalFree.update hfree cache (empty_signalFree _)
  · exact id

theorem traceSlot_staysFree (cache rip : Word) : Act.Moves StaysFree (traceSlot K cache rip) := by
  have hexpanded : Act.Moves StaysFree (traceSlot.expanded K cache rip) := by
    refine Act.Moves.bind (traceCacheExpand_staysFree cache) fun ok => ?_
    split
    · exact Act.Moves.bind (countUsed_staysFree cache) fun _ =>
        Act.Moves.bind Act.Moves.get fun _ => Act.Moves.pure _
    · exact Act.Moves.pure _
  refine Act.Moves.bind Act.Moves.get fun s => ?_
  split
  · exact Act.Moves.pure _
  · split
    · exact hexpanded
    · exact Act.Moves.bind (countUsed_staysFree cache) fun _ => Act.Moves.pure _
  · exact hexpanded

end Caches

/-! ### The fast backtrace -/

/-- A call of the fast backtrace adds no signal frame to the caches. -/
def TracerStaysFree (s t : Tracer) : Prop := StaysFree s.trace t.trace

instance : IsPreorder Tracer TracerStaysFree where
  refl _ := id
  trans _ _ _ h h' := h' ∘ h

section Fast

variable {K : KernMalloc} {k : Kernel} {v : Validator} {fuel : ℕ}

theorem onTrace_trace {α : Type} (x : TraceAct α) (s : Tracer) :
    (onTrace x s).2.trace = (x s.trace).2 := by
  unfold onTrace
  rcases x s.trace with ⟨r, t⟩
  cases r <;> rfl

theorem onTrace_staysFree {α : Type} {x : TraceAct α} (h : Act.Moves StaysFree x) :
    Act.Moves TracerStaysFree (onTrace x) := by
  intro s
  change StaysFree s.trace (onTrace x s).2.trace
  rw [onTrace_trace]
  exact h s.trace

theorem onSession_staysFree {α : Type} (x : Act UnwError Session α) :
    Act.Moves TracerStaysFree (onSession x) :=
  fun _ => id

/-- The step of `trace_init_addr` does not make a signal frame of the frame. The stores into the
saved context leave the cursor alone. -/
theorem stepAtFrame_noNewSignal (r : TraceRegs) (w : Session) :
    NoNewSignal w.st (stepAtFrame k v fuel r w).2.st := by
  let R : Session → Session → Prop := fun w w' => NoNewSignal w.st w'.st
  have : IsPreorder Session R := { refl := fun _ => id, trans := fun _ _ _ h h' => h ∘ h' }
  have hput : ∀ loc val : Word, Act.Moves R (dwarfPut loc val) := by
    intro loc val w
    unfold dwarfPut
    split <;> exact id
  have hmoves : Act.Moves R (stepAtFrame k v fuel r) := by
    refine Act.Moves.bind Act.Moves.get fun w => ?_
    refine Act.Moves.bind (hput _ _) fun _ => ?_
    refine Act.Moves.bind (hput _ _) fun _ => ?_
    refine Act.Moves.bind (hput _ _) fun _ => ?_
    exact fun w => unwStep_noNewSignal w.st
  exact hmoves w

theorem noteStep_staysFree (cache : Word) (slot : ℕ) (ret : Except UnwError ℕ) {s : Tracer}
    (hs : s.session.st.c.frameInfo.frameType ≠ .sigreturn) :
    TracerStaysFree s (noteStep cache slot ret s).2 := by
  unfold noteStep
  rw [Act.get_bind]
  cases ret with
  | error e => exact id
  | ok n => exact onTrace_staysFree (setFrame_staysFree cache slot (by exact hs)) s

/-- The step at a frame of unknown type, and what is made of it. -/
theorem stepAndNote_staysFree (cache : Word) (slot : ℕ) (r : TraceRegs) {s : Tracer}
    (hs : s.session.st.c.frameInfo.frameType ≠ .sigreturn) :
    TracerStaysFree s ((Act.attempt (onSession (stepAtFrame k v fuel r)) >>=
      noteStep cache slot) s).2 := by
  rcases hrun : Act.attempt (onSession (stepAtFrame k v fuel r)) s with ⟨q, s'⟩
  have hs' : s' = { s with session := (stepAtFrame k v fuel r s.session).2 } := by
    have hsnd := Act.attempt_snd (onSession (stepAtFrame k v fuel r)) s
    rwa [hrun] at hsnd
  have hfree : TracerStaysFree s s' := by
    rw [hs']
    exact id
  have htype : s'.session.st.c.frameInfo.frameType ≠ .sigreturn := by
    rw [hs']
    exact fun hsignal => hs (stepAtFrame_noNewSignal r s.session hsignal)
  obtain ⟨ret, rfl⟩ | hq := q.ok_or_ne
  · rw [Act.bind_of_ok hrun]
    exact trans_of TracerStaysFree hfree (noteStep_staysFree cache slot ret htype)
  · rw [Act.bind_of_not_ok hrun hq]
    exact hfree

/-- **A new entry** is what `unw_step` has made of a frame of unknown type. -/
theorem traceInitAddr_staysFree (cache : Word) (slot : ℕ) (r : TraceRegs) :
    Act.Moves TracerStaysFree (traceInitAddr k v fuel cache slot r) := by
  refine Act.Moves.bind (onTrace_staysFree (setFrame_staysFree cache slot nofun)) fun _ => ?_
  intro s
  let s₁ : Tracer := { s with session := { s.session with
    st := { s.session.st with c := atFrame r s.session.st.c } } }
  have hset : Fast.setCursor (atFrame r) s = (.ok (), s₁) := rfl
  have hfree : TracerStaysFree s s₁ := id
  rw [Act.bind_of_ok hset]
  exact trans_of TracerStaysFree hfree (stepAndNote_staysFree cache slot r nofun)

theorem traceLookup_staysFree (cache : Word) (r : TraceRegs) :
    Act.Moves TracerStaysFree (traceLookup K k v fuel cache r) := by
  refine Act.Moves.bind (onTrace_staysFree (traceSlot_staysFree cache r.rip)) fun slot => ?_
  split
  · exact Act.Moves.pure _
  · split
    · exact Act.Moves.bind Act.Moves.get fun _ => Act.Moves.pure _
    · exact Act.Moves.bind (traceInitAddr_staysFree cache _ r) fun _ =>
        Act.Moves.bind Act.Moves.get fun _ => Act.Moves.pure _

theorem nextFrame_staysFree (f : FrameInfo) (r : TraceRegs) :
    Act.Moves TracerStaysFree (nextFrame v f r) := by
  have hstandard : Act.Moves TracerStaysFree (standardNext v f r) := by
    refine Act.Moves.bind (onSession_staysFree _) fun _ => ?_
    refine Act.Moves.bind (onSession_staysFree _) fun rip => ?_
    refine Act.Moves.bind ?_ fun rbp => Act.Moves.pure _
    unfold savedRbp
    split
    · exact onSession_staysFree _
    · exact Act.Moves.pure _
  unfold nextFrame
  split
  · exact Act.Moves.bind (onSession_staysFree _) fun _ => hstandard
  · exact hstandard
  · refine Act.Moves.bind (onSession_staysFree _) fun _ => ?_
    refine Act.Moves.bind (onSession_staysFree _) fun rip => ?_
    refine Act.Moves.bind (onSession_staysFree _) fun rbp => ?_
    exact Act.Moves.bind (onSession_staysFree _) fun rsp => Act.Moves.pure _
  · exact Act.Moves.fail _

theorem traceTurn_staysFree (cache : Word) (r : TraceRegs) :
    Act.Moves TracerStaysFree (traceTurn K k v fuel cache r) := by
  refine Act.Moves.bind Act.Moves.get fun s => ?_
  refine Act.Moves.bind (traceLookup_staysFree cache _) fun f => ?_
  split
  · exact Act.Moves.pure _
  · split
    · exact Act.Moves.lift _
    · split
      · exact Act.Moves.pure _
      · refine Act.Moves.bind (nextFrame_staysFree _ _).attempt fun next => ?_
        split
        · exact Act.Moves.pure _
        · split
          · exact Act.Moves.pure _
          · exact Act.Moves.pure _

theorem traceLoop_staysFree (cache : Word) : ∀ (n : ℕ) (r : TraceRegs),
    Act.Moves TracerStaysFree (traceLoop K k v fuel cache n r)
  | 0, _ => Act.Moves.pure _
  | n + 1, r => by
    refine Act.Moves.bind (traceTurn_staysFree cache r) fun turn => ?_
    split
    · exact Act.Moves.pure _
    · refine Act.Moves.bind Act.Moves.get fun s => ?_
      exact Act.Moves.bind (traceLoop_staysFree cache n _) fun _ => Act.Moves.pure _

/-- **One backtrace** adds no signal frame to the caches. -/
theorem tdepTrace_staysFree (t : Tid) (size : ℤ) :
    Act.Moves TracerStaysFree (tdepTrace K k v fuel t size) := by
  unfold tdepTrace
  split
  · exact Act.Moves.pure _
  · refine Act.Moves.bind (onSession_staysFree _) fun _ => ?_
    refine Act.Moves.bind Act.Moves.get fun s => ?_
    refine Act.Moves.bind (onTrace_staysFree traceCacheGet_staysFree) fun cache => ?_
    split
    · exact Act.Moves.bind (onSession_staysFree _) fun _ => Act.Moves.pure _
    · exact traceLoop_staysFree cache _ _

/-! ### Runs -/

/-- The states of the caches that backtraces of any contexts, by any threads, lead to. At boot
there are no entries. Between two backtraces the rest of the state may change: a thread that
exits gives its cache back to the pool. -/
inductive Traced (K : KernMalloc) : TraceSt → Prop
  | boot {s : TraceSt} (h : ∀ cache slot, (s.caches cache).frames slot = emptyFrame) : Traced K s
  | trace {k : Kernel} {v : Validator} {fuel : ℕ} {t : Tid} {size : ℤ} {w : Session} {s : TraceSt}
      {r : Res UnwError (Except UnwError Unit × List Word)} {u : Tracer} (h : Traced K s)
      (hrun : tdepTrace K k v fuel t size ⟨w, s⟩ = (r, u)) : Traced K u.trace
  | other {s u : TraceSt} (h : Traced K s) (hcaches : u.caches = s.caches) : Traced K u

/-- **The caches over a run**: no entry is a signal frame. -/
theorem Traced.signalFree {s : TraceSt} (h : Traced K s) : s.SignalFree := by
  induction h with
  | boot h =>
    intro cache slot
    rw [h cache slot]
    exact nofun
  | @trace k v fuel t size w s r u h hrun ih =>
    have hfree : TracerStaysFree ⟨w, s⟩ (tdepTrace K k v fuel t size ⟨w, s⟩).2 :=
      tdepTrace_staysFree t size ⟨w, s⟩
    rw [hrun] at hfree
    exact hfree ih
  | other h hcaches ih =>
    intro cache slot
    rw [hcaches]
    exact ih cache slot

/-- What `trace_lookup` finds is an entry of the cache. -/
theorem traceLookup_type {cache : Word} {r : TraceRegs} {s u : Tracer} {f : FrameInfo}
    (hfree : s.trace.SignalFree) (h : traceLookup K k v fuel cache r s = (.ok (some f), u)) :
    f.frameType ≠ .sigreturn := by
  have hu : TracerStaysFree s (traceLookup K k v fuel cache r s).2 := traceLookup_staysFree cache r s
  rw [h] at hu
  obtain ⟨slot, s₁, -, h⟩ := Act.bind_eq_ok h
  cases slot with
  | none => cases h
  | some slot =>
    obtain ⟨slot, known⟩ := slot
    cases known with
    | true =>
      cases h
      exact hu hfree cache slot
    | false =>
      obtain ⟨⟨⟩, s₂, -, h⟩ := Act.bind_eq_ok h
      cases h
      exact hu hfree cache slot

end Fast

end LibunwindKern
