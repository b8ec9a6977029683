import LibunwindKern.Dwarf.StepOutcome

/-!
# What the calls after the lookup leave alone

`fetch_proc_info` writes the procedure info, its two flags and `use_prev_instr`, and takes
an object from the pool of unwind info. `found` is this part of the state. Nothing after
the lookup changes it but `put_unwind_info` and the last line of `dwarf_step`: running the
CFI programs does not (`createStateRecordFor_keeps_found`), nor does applying the row, which
does not execute CFI instructions either (`applyRegState_reframes`).
-/

namespace LibunwindKern

open CProg ByteMem Unw

/-- What the lookup of a procedure writes. -/
structure Found where
  pi : ProcInfo
  piValid : Bool
  piIsDynamic : Bool
  usePrevInstr : Bool
  ciePool : Pool
  deriving DecidableEq, Repr

/-- The part of the state that the lookup of a procedure writes. -/
def found (s : St) : Found :=
  ⟨s.c.pi, s.c.piValid, s.c.piIsDynamic, s.c.usePrevInstr, s.ciePool⟩

/-- The part of the state that applying a row does not write: what the lookup has found and
which CFI instructions were executed. -/
def aside (s : St) : Found × List Word := (found s, s.fetched)

/-- What a call that moves to another frame may do to the state: it leaves this part alone, does not
make a signal frame of the frame info, and leaves its address alone. -/
structure Reframed (s t : St) : Prop where
  aside : aside t = aside s
  signal : t.c.frameInfo.frameType = .sigreturn → s.c.frameInfo.frameType = .sigreturn
  address : t.c.frameInfo.virtualAddress = s.c.frameInfo.virtualAddress

instance : IsPreorder St Reframed where
  refl _ := ⟨rfl, id, rfl⟩
  trans _ _ _ h h' :=
    ⟨h'.aside.trans h.aside, h.signal ∘ h'.signal, h'.address.trans h.address⟩

/-! ### Reading and writing the cursor -/

/-- A write to the frame in the cursor. -/
theorem setCursor_reframes {f : Cursor → Cursor}
    (h : ∀ c, (f c).pi = c.pi ∧ (f c).piValid = c.piValid ∧ (f c).piIsDynamic = c.piIsDynamic ∧
      (f c).usePrevInstr = c.usePrevInstr ∧
      ((f c).frameInfo.frameType = .sigreturn → c.frameInfo.frameType = .sigreturn) ∧
      (f c).frameInfo.virtualAddress = c.frameInfo.virtualAddress) :
    Act.Moves Reframed (setCursor f) := by
  intro s
  obtain ⟨hpi, hvalid, hdynamic, hprev, hsignal, haddress⟩ := h s.c
  refine ⟨?_, hsignal, haddress⟩
  change ((⟨(f s.c).pi, (f s.c).piValid, (f s.c).piIsDynamic, (f s.c).usePrevInstr,
    s.ciePool⟩ : Found), s.fetched) = _
  rw [hpi, hvalid, hdynamic, hprev]
  rfl

/-- A view of the state that sees neither the save locations nor the page cache. -/
structure Blind {β : Type} (f : St → β) : Prop where
  lga : ∀ (s : St) (g : Lga), f { s with lga := g } = f s
  loc : ∀ (s : St) (loc : Fin dwarfNumPreservedRegs → Word),
    f { s with c := { s.c with loc := loc } } = f s

/-- What a call that sets save locations leaves alone. -/
theorem Blind.reframes {α : Type} {x : Unw α}
    (hx : ∀ {β : Type} {f : St → β}, Blind f → Act.Keeps f x) : Act.Moves Reframed x := by
  have hview : Blind fun s => (aside s, s.c.frameInfo) := ⟨fun _ _ => rfl, fun _ _ => rfl⟩
  refine (hx hview).moves fun s t heq => ?_
  obtain ⟨haside, hinfo⟩ := Prod.mk.inj heq
  exact ⟨haside, fun h => hinfo ▸ h, congrArg FrameInfo.virtualAddress hinfo⟩

theorem setLoc_keeps {β : Type} {f : St → β} (hf : Blind f) (i : Fin dwarfNumPreservedRegs)
    (loc : Word) : Act.Keeps f (setLoc i loc) :=
  fun s => hf.loc s (Function.update s.c.loc i loc)

theorem setLoc_reframes (i : Fin dwarfNumPreservedRegs) (loc : Word) :
    Act.Moves Reframed (setLoc i loc) :=
  Blind.reframes fun hf => setLoc_keeps hf i loc

theorem read_reframes {α : Type} (x : Cursor → Act UnwError Lga α) :
    Act.Moves Reframed (read x) :=
  Blind.reframes fun hf => read_keeps hf.lga x

/-! ### Applying a row -/

section Apply

variable (v : Validator) (m : Mem) (fuel : ℕ) (rs : RegState)

section Reads

variable {β : Type} {f : St → β} (hf : ∀ (s : St) (g : Lga), f { s with lga := g } = f s)
include hf

theorem evalLocationExpr_keeps (addr : Word) : Act.Keeps f (evalLocationExpr v m fuel addr) := by
  refine Act.Keeps.bind Act.Keeps.get (fun s => ?_)
  split
  · refine Act.Keeps.bind (read_keeps hf _) (fun r => ?_)
    split
    · exact Act.Keeps.bind (Act.Keeps.lift _) fun _ => Act.Keeps.pure _
    · exact Act.Keeps.pure _
  · exact Act.Keeps.lift _

theorem evalCfa_keeps : Act.Keeps f (evalCfa v m fuel rs) := by
  refine Act.Keeps.bind Act.Keeps.get (fun s => ?_)
  split
  · split
    · exact Act.Keeps.pure _
    · exact Act.Keeps.bind (Act.Keeps.lift _) fun _ =>
        Act.Keeps.bind (read_keeps hf _) fun _ => Act.Keeps.pure _
  · exact Act.Keeps.bind (evalLocationExpr_keeps v m fuel hf _) fun _ => Act.Keeps.pure _
  · exact Act.Keeps.lift _

end Reads

section Locations

variable {β : Type} {f : St → β} (hf : Blind f)
include hf

theorem applyRule_keeps (cfa : Word) (i : Fin dwarfNumPreservedRegs) :
    Act.Keeps f (applyRule v m fuel rs cfa i) := by
  refine Act.Keeps.bind Act.Keeps.get (fun s => ?_)
  split
  · exact setLoc_keeps hf i _
  · exact Act.Keeps.pure _
  · exact setLoc_keeps hf i _
  · exact Act.Keeps.bind (Act.Keeps.lift _) fun _ => setLoc_keeps hf i _
  · exact Act.Keeps.bind (evalLocationExpr_keeps v m fuel hf.lga _) fun _ => setLoc_keeps hf i _

theorem applyRules_keeps (cfa : Word) : ∀ is : List (Fin dwarfNumPreservedRegs),
    Act.Keeps f (applyRules v m fuel rs cfa is)
  | [] => Act.Keeps.pure _
  | i :: is => Act.Keeps.bind (applyRule_keeps v m fuel rs hf cfa i) fun _ =>
      applyRules_keeps cfa is

end Locations

theorem tdepStashFrame_reframes : Act.Moves Reframed (tdepStashFrame rs) := by
  refine Act.Moves.bind Act.Moves.get (fun s => ?_)
  split
  · split
    · exact setCursor_reframes fun _ => ⟨rfl, rfl, rfl, rfl, nofun, rfl⟩
    · split
      · exact Act.Moves.lift _
      · exact Act.Moves.pure _
  · exact Act.Moves.lift _

theorem finishFrame_reframes (prevIp prevCfa : Word) :
    Act.Moves Reframed (finishFrame rs prevIp prevCfa) := by
  refine Act.Moves.bind Act.Moves.get (fun s => ?_)
  split
  · exact Act.Moves.fail _
  · split
    · exact tdepStashFrame_reframes rs
    · exact Act.Moves.pure _

/-- **Applying a row** writes the frame in the cursor and nothing else. -/
theorem applyRegState_reframes : Act.Moves Reframed (applyRegState v m fuel rs) := by
  refine Act.Moves.bind Act.Moves.get (fun s => ?_)
  refine Act.Moves.bind (Blind.reframes fun hf => evalCfa_keeps v m fuel rs hf.lga) (fun cfa => ?_)
  refine Act.Moves.bind (Blind.reframes fun hf => applyRules_keeps v m fuel rs hf cfa _) (fun _ => ?_)
  refine Act.Moves.bind (setCursor_reframes fun _ => ⟨rfl, rfl, rfl, rfl, id, rfl⟩) (fun _ => ?_)
  refine Act.Moves.bind (Blind.reframes fun hf => readReturnAddress_keeps hf.lga v m) (fun ip => ?_)
  exact Act.Moves.bind (setCursor_reframes fun _ => ⟨rfl, rfl, rfl, rfl, id, rfl⟩) fun _ =>
    finishFrame_reframes rs _ _

end Apply

theorem applyRegState_keeps_found (v : Validator) (m : Mem) (fuel : ℕ) (rs : RegState) :
    Act.Keeps found (applyRegState v m fuel rs) :=
  fun s => congrArg Prod.fst (applyRegState_reframes v m fuel rs s).aside

/-! ### A row that cannot be applied -/

theorem ip_blind : Blind fun s => s.c.ip := ⟨fun _ _ => rfl, fun _ _ => rfl⟩

theorem finishFrame_err {rs : RegState} {prevIp prevCfa : Word} {e : UnwError} {s t : St}
    (h : finishFrame rs prevIp prevCfa s = (.err e, t)) : t.c.ip = prevIp := by
  unfold finishFrame at h
  rw [Act.get_bind] at h
  by_cases hsame : s.c.ip = prevIp ∧ s.c.cfa = prevCfa
  · rw [if_pos hsame] at h
    cases h
    exact hsame.1
  · rw [if_neg hsame] at h
    by_cases hstash : s.c.stashFrames = true
    · rw [if_pos hstash] at h
      unfold tdepStashFrame at h
      rw [Act.get_bind] at h
      -- a frame that cannot be stashed is an assertion that fails, not an error
      split at h
      · split at h
        · cases h
        · split at h
          · cases h
          · cases h
      · cases h
    · rw [if_neg hstash] at h
      cases h

/-- A row that cannot be applied leaves the instruction pointer. If the frame is rejected
because nothing has changed, it is the old one too. -/
theorem applyRegState_err_ip {v : Validator} {m : Mem} {fuel : ℕ} {rs : RegState} {e : UnwError}
    {s t : St} (h : applyRegState v m fuel rs s = (.err e, t)) : t.c.ip = s.c.ip := by
  unfold applyRegState at h
  rw [Act.get_bind] at h
  have hcfa := evalCfa_keeps (f := fun s => s.c.ip) v m fuel rs ip_blind.lga s
  obtain herr | ⟨cfa, s₁, hok, h⟩ := Act.bind_eq_err h
  · rwa [herr] at hcfa
  · rw [hok] at hcfa
    have hrules := applyRules_keeps v m fuel rs ip_blind cfa (List.finRange dwarfNumPreservedRegs) s₁
    obtain herr | ⟨⟨⟩, s₂, hok, h⟩ := Act.bind_eq_err h
    · rw [herr] at hrules
      exact hrules.trans hcfa
    · rw [hok] at hrules
      rw [setCursor_bind] at h
      have hread := readReturnAddress_keeps (f := fun s => s.c.ip) ip_blind.lga v m
        { s₂ with c := { s₂.c with cfa := cfa } }
      obtain herr | ⟨ip, s₃, hok, h⟩ := Act.bind_eq_err h
      · rw [herr] at hread
        exact hread.trans (hrules.trans hcfa)
      · rw [setCursor_bind] at h
        exact finishFrame_err h

/-! ### Running the CFI programs -/

section Row

variable (m : Mem) (fuel : ℕ) (ip : Word)

theorem parseFde_keeps_found : Act.Keeps found (parseFde m fuel ip) := by
  refine Act.Keeps.bind Act.Keeps.get (fun s => ?_)
  split
  · exact Act.Keeps.bind (Act.Keeps.modify fun _ => rfl) (fun _ _ => rfl)
  · exact Act.Keeps.lift _

theorem createStateRecordFor_keeps_found :
    Act.Keeps found (createStateRecordFor m fuel ip) := by
  refine Act.Keeps.bind Act.Keeps.get (fun s => ?_)
  split
  · split
    · exact parseFde_keeps_found m fuel ip
    · exact parseFde_keeps_found m fuel ip
    · exact Act.Keeps.fail _
  · exact Act.Keeps.lift _

end Row

/-! ### The step -/

section Step

variable {k : Kernel} {v : Validator} {m : Mem} {fuel : ℕ} {s u : St}

/-- What follows the lookup: the row, its application, and the end of the step. -/
def afterFetch (v : Validator) (m : Mem) (fuel : ℕ) : Unw ℕ := do
  let s ← Act.get
  let sr ← createStateRecordFor m fuel s.c.ip
  applyRegState v m fuel sr.rsCurrent
  putUnwindInfo
  setCursor fun c => { c with piValid := false }
  pure 1

theorem dwarfStep_eq_fetch (s : St) :
    dwarfStep k v m fuel s = (fetchProcInfo k m s.c.ip true >>= fun _ => afterFetch v m fuel) s := by
  rw [dwarfStep_eq]
  unfold findRow afterFetch
  simp only [Act.bind_assoc, Act.get_bind]

/-- A lookup that fails, or does not come back, is the end of the step. -/
theorem dwarfStep_of_fetch_fails {r : Res UnwError Unit}
    (h : fetchProcInfo k m s.c.ip true s = (r, u)) (hr : r ≠ .ok ()) :
    ∃ r' : Res UnwError ℕ, dwarfStep k v m fuel s = (r', u) ∧ (∀ n, r' ≠ .ok n) ∧
      ∀ e, r' = .err e ↔ r = .err e := by
  have hne : ∀ a, r ≠ .ok a := fun a ha => hr ha
  rw [dwarfStep_eq_fetch]
  exact ⟨_, Act.bind_of_not_ok h hne _, Res.bind_ne_ok hne _, Res.bind_eq_err_iff hne _⟩

/-- **The rest of the step** keeps what the lookup has found until it succeeds. Then the
unwind info is put back, and the procedure info is no longer valid. -/
theorem afterFetch_found {r : Res UnwError ℕ} {t : St} (h : afterFetch v m fuel u = (r, t)) :
    ((∀ n, r ≠ .ok n) ∧ found t = found u) ∨
      ∃ w w', found w = found u ∧ putUnwindInfo w = (.ok (), w') ∧ r = .ok 1 ∧
        t = { w' with c := { w'.c with piValid := false } } := by
  unfold afterFetch at h
  rw [Act.get_bind] at h
  rcases hcreate : createStateRecordFor m fuel u.c.ip u with ⟨r, w₁⟩
  have hrow := (createStateRecordFor_keeps_found m fuel u.c.ip).run hcreate
  obtain ⟨sr, rfl⟩ | hr := r.ok_or_ne
  · rw [Act.bind_of_ok hcreate] at h
    rcases happly : applyRegState v m fuel sr.rsCurrent w₁ with ⟨r, w₂⟩
    have hfound : found w₂ = found u :=
      ((applyRegState_keeps_found v m fuel sr.rsCurrent).run happly).trans hrow
    obtain ⟨⟨⟩, rfl⟩ | hr := r.ok_or_ne
    · obtain ⟨w', hput⟩ := putUnwindInfo_ok w₂
      rw [Act.bind_of_ok happly, Act.bind_of_ok hput] at h
      cases h
      exact Or.inr ⟨w₂, w', hfound, hput, rfl, rfl⟩
    · -- the row cannot be applied
      rw [Act.bind_of_not_ok happly hr] at h
      cases h
      exact Or.inl ⟨Res.bind_ne_ok hr _, hfound⟩
  · -- there is no row
    rw [Act.bind_of_not_ok hcreate hr] at h
    cases h
    exact Or.inl ⟨Res.bind_ne_ok hr _, hrow⟩

/-- A step that fails after the lookup leaves the instruction pointer. -/
theorem afterFetch_err_ip {e : UnwError} {t : St} (h : afterFetch v m fuel u = (.err e, t)) :
    t.c.ip = u.c.ip := by
  unfold afterFetch at h
  rw [Act.get_bind] at h
  have hrow := congrArg Prod.fst (createStateRecordFor_keeps m fuel u.c.ip u)
  obtain herr | ⟨sr, w, hok, h⟩ := Act.bind_eq_err h
  · rwa [herr] at hrow
  · rw [hok] at hrow
    obtain herr | ⟨⟨⟩, w', hok, h⟩ := Act.bind_eq_err h
    · exact (applyRegState_err_ip herr).trans hrow
    · obtain ⟨w'', hput⟩ := putUnwindInfo_ok w'
      rw [Act.bind_of_ok hput] at h
      cases h

theorem parseFde_cie {ip : Word} {sr : StateRecord} {w : St}
    (h : parseFde m fuel ip u = (.ok sr, w)) : ∃ dci, u.c.pi.unwindInfo = .cie dci := by
  unfold parseFde at h
  rw [Act.get_bind] at h
  cases hinfo : u.c.pi.unwindInfo with
  | cie dci => exact ⟨dci, rfl⟩
  | null => rw [hinfo] at h; cases h
  | dynamic pad0 => rw [hinfo] at h; cases h

/-- A row comes from an FDE. -/
theorem createStateRecordFor_ok {ip : Word} {sr : StateRecord} {w : St}
    (h : createStateRecordFor m fuel ip u = (.ok sr, w)) : parseFde m fuel ip u = (.ok sr, w) := by
  unfold createStateRecordFor at h
  rw [Act.get_bind] at h
  by_cases hvalid : u.c.piValid = true
  · rw [if_pos hvalid] at h
    cases hformat : u.c.pi.format with
    | table => rwa [hformat] at h
    | remoteTable => rwa [hformat] at h
    | dynamic => rw [hformat] at h; cases h
    | armExidx => rw [hformat] at h; cases h
  · rw [if_neg hvalid] at h
    cases h

/-- A step that succeeds has found an FDE. -/
theorem afterFetch_cie {n : ℕ} {t : St} (h : afterFetch v m fuel u = (.ok n, t)) :
    ∃ dci, u.c.pi.unwindInfo = .cie dci := by
  unfold afterFetch at h
  rw [Act.get_bind] at h
  obtain ⟨sr, w, hcreate, -⟩ := Act.bind_eq_ok h
  exact parseFde_cie (createStateRecordFor_ok hcreate)

end Step

end LibunwindKern
