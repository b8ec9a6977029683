import LibunwindKern.Dwarf.Parser

/-!
# How `fetch_proc_info` ends

`fetch_proc_info` zeroes the procedure info, asks the dynamic list and, if that knows
nothing, the loaded files, and updates the cursor. An error of the dynamic list other than
`-UNW_ENOINFO` is returned after the cursor was updated, and an error of the files before
that. `FetchEnd` lists the ways a lookup can end, with the state it leaves in each of them.
-/

namespace LibunwindKern

open CProg ByteMem Unw

/-- The state with the procedure info and the pool a search has left. -/
def withPi (s : St) (p : PiState) : St :=
  { s with c := { s.c with pi := p.pi }, ciePool := p.pool }

/-- `use_prev_instr` after a lookup. -/
def nextUsePrevInstr (need : Bool) (pi : ProcInfo) (usePrevInstr : Bool) : Bool :=
  match need, pi.unwindInfo.signalFrame with
  | true, some signalFrame => !signalFrame
  | _, _ => usePrevInstr

/-- The state after a lookup whose result was put into the cursor. -/
def cached (need dynamic : Bool) (s : St) : St :=
  { s with
    c := { s.c with
      piValid := true
      piIsDynamic := dynamic
      usePrevInstr := nextUsePrevInstr need s.c.pi s.c.usePrevInstr } }

/-- The search in the dynamic list that `fetch_proc_info` makes. -/
def dynamicSearch (k : Kernel) (m : Mem) (s : St) (ip : Word) (need : Bool) :
    Res UnwError Unit × PiState :=
  unwiFindDynamicProcInfo k m (lookupIp s.c ip) need ⟨ProcInfo.zero, s.ciePool⟩

/-- The search in the loaded files that follows it, with what the first search has left. -/
def fileSearch (k : Kernel) (m : Mem) (s : St) (ip : Word) (need : Bool) :
    Res UnwError Unit × PiState :=
  dwarfFindProcInfo k m (lookupIp s.c ip) need (dynamicSearch k m s ip need).2

/-- The ways a lookup can end. -/
inductive FetchEnd (k : Kernel) (m : Mem) (s : St) (ip : Word) (need : Bool) :
    Res UnwError Unit → St → Prop
  /-- The dynamic list has the procedure. -/
  | dynamic {p : PiState} (hd : dynamicSearch k m s ip need = (.ok (), p))
      (hf : p.pi.format ≠ .armExidx) :
      FetchEnd k m s ip need (.ok ()) (cached need true (withPi s p))
  /-- The dynamic list has an entry for the procedure and cannot read it. -/
  | broken {e : UnwError} {p : PiState} (hd : dynamicSearch k m s ip need = (.err e, p))
      (he : e ≠ .enoinfo) (hf : p.pi.format ≠ .armExidx) :
      FetchEnd k m s ip need (.err e) (cached need true (withPi s p))
  /-- The procedure info has a format that is not supported. -/
  | format {p : PiState} (hf : p.pi.format = .armExidx)
      (hd : (∃ q, dynamicSearch k m s ip need = (q, p) ∧ q ≠ .err .enoinfo) ∨
        (dynamicSearch k m s ip need).1 = .err .enoinfo ∧
          fileSearch k m s ip need = (.ok (), p)) :
      FetchEnd k m s ip need (.err .enoinfo) (withPi s p)
  /-- The files have the procedure, or so they report. -/
  | file {p : PiState} (hd : (dynamicSearch k m s ip need).1 = .err .enoinfo)
      (hs : fileSearch k m s ip need = (.ok (), p)) (hf : p.pi.format ≠ .armExidx) :
      FetchEnd k m s ip need (.ok ()) (cached need false (withPi s p))
  /-- Neither has it. -/
  | missing {e : UnwError} {p : PiState} (hd : (dynamicSearch k m s ip need).1 = .err .enoinfo)
      (hs : fileSearch k m s ip need = (.err e, p)) :
      FetchEnd k m s ip need (.err e) (withPi s p)
  /-- One of the searches does not come back. -/
  | stuck {r : Res UnwError Unit} {p : PiState} (hok : ∀ a, r ≠ .ok a) (herr : ∀ e, r ≠ .err e)
      (hs : dynamicSearch k m s ip need = (r, p) ∨
        (dynamicSearch k m s ip need).1 = .err .enoinfo ∧ fileSearch k m s ip need = (r, p)) :
      FetchEnd k m s ip need r (withPi s p)

section

variable {k : Kernel} {m : Mem} {s : St} {ip : Word} {need : Bool}

/-- A search on the zeroed procedure info, or on what an earlier search has left. -/
theorem onPi_withPi (x : Act UnwError PiState Unit) (s : St) (p : PiState) :
    onPi x (withPi s p) = ((x p).1, withPi s (x p).2) := rfl

theorem updateUsePrevInstr_eq (need : Bool) (s : St) :
    updateUsePrevInstr need s = (.ok (), { s with c := { s.c with
      usePrevInstr := nextUsePrevInstr need s.c.pi s.c.usePrevInstr } }) := by
  unfold updateUsePrevInstr nextUsePrevInstr
  rw [Act.get_bind]
  cases hsignal : s.c.pi.unwindInfo.signalFrame <;> cases need <;> rfl

/-- The end of `fetch_proc_info`, for a format that is supported. -/
theorem fetchDone_of_format (need dynamic : Bool) (ret : Except UnwError Unit)
    (hf : s.c.pi.format ≠ .armExidx) :
    fetchDone need dynamic ret s =
      ((match ret with
        | .ok _ => .ok ()
        | .error e => .err e), cached need dynamic s) := by
  unfold fetchDone
  rw [Act.get_bind, if_neg hf, setCursor_bind, Act.bind_of_ok (updateUsePrevInstr_eq need _)]
  cases ret <;> rfl

theorem fetchDone_of_armExidx (need dynamic : Bool) (ret : Except UnwError Unit)
    (hf : s.c.pi.format = .armExidx) :
    fetchDone need dynamic ret s = (.err .enoinfo, s) := by
  unfold fetchDone
  rw [Act.get_bind, if_pos hf]
  rfl

/-- The lookup, up to the result of the search in the dynamic list. -/
theorem fetchProcInfo_eq (hneed : need = true ∨ s.c.piValid = false) :
    fetchProcInfo k m ip need s =
      (Act.attempt (onPi (unwiFindDynamicProcInfo k m (lookupIp s.c ip) need)) >>= fun ret =>
        if ret = .error .enoinfo then do
          onPi (dwarfFindProcInfo k m (lookupIp s.c ip) need)
          fetchDone need false (.ok ())
        else
          fetchDone need true ret : Unw Unit) (withPi s ⟨ProcInfo.zero, s.ciePool⟩) := by
  have hcache : ¬(s.c.piValid = true ∧ ¬need = true) := by
    rintro ⟨hvalid, hno⟩
    obtain hneed | hinvalid := hneed
    · exact hno hneed
    · rw [hinvalid] at hvalid
      cases hvalid
  unfold fetchProcInfo
  rw [Act.get_bind, if_neg hcache, setCursor_bind]
  rfl

/-- What a search in the dynamic list that comes back leads to. -/
theorem fetch_of_dynamic {ret : Except UnwError Unit} {q : Res UnwError Unit} {p : PiState}
    (hd : dynamicSearch k m s ip need = (q, p)) (hq : q ≠ .err .enoinfo)
    (hret : q = match ret with
      | .ok _ => .ok ()
      | .error e => .err e) :
    FetchEnd k m s ip need (fetchDone need true ret (withPi s p)).1
      (fetchDone need true ret (withPi s p)).2 := by
  by_cases hf : p.pi.format = .armExidx
  · rw [fetchDone_of_armExidx need true ret hf]
    exact .format hf (Or.inl ⟨q, hd, hq⟩)
  · rw [fetchDone_of_format need true ret hf]
    cases ret with
    | ok _ =>
      subst hret
      exact .dynamic hd hf
    | error e =>
      subst hret
      exact .broken hd (fun he => hq (by rw [he])) hf

/-- What a search in the files leads to. -/
theorem fetch_of_files (hd : (dynamicSearch k m s ip need).1 = .err .enoinfo) :
    FetchEnd k m s ip need
      ((onPi (dwarfFindProcInfo k m (lookupIp s.c ip) need) >>= fun _ =>
        fetchDone need false (.ok ())) (withPi s (dynamicSearch k m s ip need).2)).1
      ((onPi (dwarfFindProcInfo k m (lookupIp s.c ip) need) >>= fun _ =>
        fetchDone need false (.ok ())) (withPi s (dynamicSearch k m s ip need).2)).2 := by
  rcases hs : fileSearch k m s ip need with ⟨r, p⟩
  have hrun : onPi (dwarfFindProcInfo k m (lookupIp s.c ip) need)
      (withPi s (dynamicSearch k m s ip need).2) = (r, withPi s p) := by
    rw [onPi_withPi]
    exact congrArg (fun x : Res UnwError Unit × PiState => (x.1, withPi s x.2)) hs
  obtain ⟨⟨⟩, rfl⟩ | ⟨e, rfl⟩ | hr := r.ok_or_err_or_stuck
  · rw [Act.bind_of_ok hrun]
    by_cases hf : p.pi.format = .armExidx
    · rw [fetchDone_of_armExidx need false _ hf]
      exact .format hf (Or.inr ⟨hd, hs⟩)
    · rw [fetchDone_of_format need false _ hf]
      exact .file hd hs hf
  · rw [Act.bind_of_err hrun]
    exact .missing hd hs
  · rw [Act.bind_of_not_ok hrun hr.1, Res.bind_eq_self hr.1]
    exact .stuck hr.1 hr.2 (Or.inr ⟨hd, hs⟩)

/-- **How a lookup ends**, one that is not answered from the cursor. -/
theorem fetchProcInfo_end (hneed : need = true ∨ s.c.piValid = false) :
    FetchEnd k m s ip need (fetchProcInfo k m ip need s).1 (fetchProcInfo k m ip need s).2 := by
  rw [fetchProcInfo_eq hneed]
  rcases hd : dynamicSearch k m s ip need with ⟨r, p⟩
  have hrun : onPi (unwiFindDynamicProcInfo k m (lookupIp s.c ip) need)
      (withPi s ⟨ProcInfo.zero, s.ciePool⟩) = (r, withPi s p) := by
    rw [onPi_withPi]
    exact congrArg (fun x : Res UnwError Unit × PiState => (x.1, withPi s x.2)) hd
  obtain ⟨⟨⟩, rfl⟩ | ⟨e, rfl⟩ | hr := r.ok_or_err_or_stuck
  · rw [Act.bind_of_ok (Act.attempt_of_ok hrun), if_neg (by simp)]
    exact fetch_of_dynamic hd (by simp) rfl
  · -- the files are searched if the list has nothing
    rw [Act.bind_of_ok (Act.attempt_of_err hrun)]
    by_cases he : e = .enoinfo
    · subst he
      rw [if_pos rfl]
      have hfiles := fetch_of_files (k := k) (m := m) (s := s) (by rw [hd])
      rw [hd] at hfiles
      exact hfiles
    · rw [if_neg (fun h => he (Except.error.inj h))]
      exact fetch_of_dynamic hd (fun h => he (Res.err.inj h)) rfl
  · rw [Act.attempt_bind_of_stuck hrun hr, Res.bind_eq_self hr.1]
    exact .stuck hr.1 hr.2 (Or.inl hd)

theorem FetchEnd.of_run {r : Res UnwError Unit} {u : St} (hneed : need = true ∨ s.c.piValid = false)
    (h : fetchProcInfo k m ip need s = (r, u)) : FetchEnd k m s ip need r u := by
  have hend : FetchEnd k m s ip need (fetchProcInfo k m ip need s).1 _ := fetchProcInfo_end hneed
  rwa [h] at hend

/-- A lookup that finds no unwind info leaves nothing behind but the procedure info. -/
theorem fetch_enoinfo_withPi {u : St} (hneed : need = true ∨ s.c.piValid = false)
    (h : fetchProcInfo k m ip need s = (.err .enoinfo, u)) : ∃ p, u = withPi s p := by
  cases FetchEnd.of_run hneed h with
  | broken hd he hf => exact absurd rfl he
  | @format p hf hd => exact ⟨p, rfl⟩
  | @missing e p hd hs => exact ⟨p, rfl⟩
  | stuck hok herr hs => exact absurd rfl (herr _)

end

end LibunwindKern
