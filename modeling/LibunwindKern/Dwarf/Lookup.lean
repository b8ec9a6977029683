import LibunwindKern.Dwarf.FindProcInfo

/-!
# When `dwarf_find_proc_info` reports what it found

A file *hits* when its range contains the address, both symbol queries succeed, it
has an `.eh_frame` section, and the `linear_search` that `dwarf_callback` runs on
that section returns 1. `FindsExactly` is what the lookup is for: the result `0`
exactly when some file hits, with a procedure info that covers the address, and
`-UNW_ENOINFO` otherwise.

`dwarf_callback` returns 1 for a hit, and `dwarf_find_proc_info` takes a positive
result of the iteration for "not found". It also sets `single_fde` before the
search, so a miss is reported as found. `foreach_cases` lists the ways the iteration
can end, and `dwarfFindProcInfo_exact_iff` concludes that the lookup is exact only
when no file gets as far as the search.
-/

namespace LibunwindKern

open CProg ByteMem

/-! ### The specification -/

/-- `dwarf_callback` gets as far as `linear_search` on this file. -/
def ReachesSearch (k : Kernel) (ip : Word) (file : LinkerFile) : Prop :=
  ¬(ip < file.address ∨ file.address + file.size < ip) ∧ (symbolAt k ip).isSome ∧
    (findEhFrameSection file).isSome

instance (k : Kernel) (ip : Word) (file : LinkerFile) : Decidable (ReachesSearch k ip file) :=
  inferInstanceAs (Decidable (_ ∧ _))

/-- The `linear_search` that `dwarf_callback` runs on this file in the state `s`
returns 1. -/
def SearchHits (k : Kernel) (m : Mem) (ip : Word) (needUnwindInfo : Bool) (file : LinkerFile)
    (s : CbState) : Prop :=
  ¬(ip < file.address ∨ file.address + file.size < ip) ∧
    ∃ values sect, symbolAt k ip = some values ∧ findEhFrameSection file = some sect ∧
      (searchSection m ip needUnwindInfo sect (startSearch values s)).1 = .ok ()

/-- Some file of the list hits, when the files are looked at in order from `s` on. -/
def SomeHit (k : Kernel) (m : Mem) (ip : Word) (needUnwindInfo : Bool) :
    List LinkerFile → CbState → Prop
  | [], _ => False
  | file :: files, s =>
    SearchHits k m ip needUnwindInfo file s ∨
      SomeHit k m ip needUnwindInfo files (dwarfCallback k m ip needUnwindInfo file s).2

/-- **Soundness and completeness of the lookup.** A hit is reported as `0`, with a
procedure info that covers the address and has unwind info if it was asked for, and
anything else as `-UNW_ENOINFO`. -/
structure FindsExactly (k : Kernel) (m : Mem) (ip : Word) (needUnwindInfo : Bool) (s : PiState)
    (run : Res UnwError Unit × PiState) : Prop where
  hit : SomeHit k m ip needUnwindInfo k.linkerFiles ⟨s.pi, s.pool, false, none⟩ →
    run.1 = .ok () ∧ (run.2.pi.startIp ≤ ip ∧ ip < run.2.pi.endIp) ∧
      (needUnwindInfo = true → run.2.pi.unwindInfo ≠ .null)
  miss : ¬SomeHit k m ip needUnwindInfo k.linkerFiles ⟨s.pi, s.pool, false, none⟩ →
    run.1 = .err .enoinfo

variable {k : Kernel} {ip : Word} {file : LinkerFile} (m : Mem) (need : Bool) (s : CbState)

/-! ### One file -/

/-- A file that does not get as far as the search is skipped. -/
theorem dwarfCallback_of_not_reaches (h : ¬ReachesSearch k ip file) :
    ∃ pi, dwarfCallback k m ip need file s = (.ok 0, { s with pi := pi }) := by
  unfold dwarfCallback
  by_cases hr : ip < file.address ∨ file.address + file.size < ip
  · rw [if_pos hr]
    exact ⟨s.pi, rfl⟩
  · rw [if_neg hr]
    cases hsym : symbolAt k ip with
    | none => exact ⟨s.pi, rfl⟩
    | some values =>
      cases hsec : findEhFrameSection file with
      | none => exact ⟨{ s.pi with gp := 0 }, rfl⟩
      | some sect =>
        refine absurd ⟨hr, ?_, ?_⟩ h
        · rw [hsym]; rfl
        · rw [hsec]; rfl

/-- The call for a file that gets as far as the search is the search itself, with
its result turned into `1` and `0`. -/
theorem dwarfCallback_of_reaches {values : SymVal} {sect : Progent}
    (hr : ¬(ip < file.address ∨ file.address + file.size < ip))
    (hsym : symbolAt k ip = some values) (hsec : findEhFrameSection file = some sect) :
    dwarfCallback k m ip need file s =
      match searchSection m ip need sect (startSearch values s) with
      | (.ok _, t) => (.ok 1, t)
      | (.err _, t) => (.ok 0, t)
      | (.panic, t) => (.panic, t)
      | (.undefined, t) => (.undefined, t)
      | (.diverge, t) => (.diverge, t) := by
  unfold dwarfCallback
  rw [if_neg hr, hsym, hsec]
  change (Act.attempt (searchSection m ip need sect) >>= _) (startSearch values s) = _
  rcases hrun : searchSection m ip need sect (startSearch values s) with ⟨r, t⟩
  cases r with
  | ok _ => rw [Act.bind_of_ok (Act.attempt_of_ok hrun)]; rfl
  | err e => rw [Act.bind_of_ok (Act.attempt_of_err hrun)]; rfl
  | _ => rw [Act.attempt_bind_of_stuck hrun ⟨nofun, nofun⟩]; rfl

theorem searchHits_iff {values : SymVal} {sect : Progent}
    (hr : ¬(ip < file.address ∨ file.address + file.size < ip))
    (hsym : symbolAt k ip = some values) (hsec : findEhFrameSection file = some sect) :
    SearchHits k m ip need file s ↔
      (searchSection m ip need sect (startSearch values s)).1 = .ok () := by
  constructor
  · rintro ⟨-, values', sect', hsym', hsec', hok⟩
    rw [hsym] at hsym'
    rw [hsec] at hsec'
    cases hsym'
    cases hsec'
    exact hok
  · intro hok
    exact ⟨hr, values, sect, hsym, hsec, hok⟩

/-! ### All files -/

/-- How the iteration over the files ends. -/
inductive ForeachEnd (k : Kernel) (m : Mem) (ip : Word) (need : Bool) (files : List LinkerFile)
    (s : CbState) (run : Res UnwError ℕ × CbState) : Prop
  | hit (h : SomeHit k m ip need files s) (hret : run.1 = .ok 1)
      (hreach : ∃ file ∈ files, ReachesSearch k ip file)
  | miss (h : ¬SomeHit k m ip need files s) (hret : run.1 = .ok 0)
      (hsingle : run.2.singleFde = true ↔
        s.singleFde = true ∨ ∃ file ∈ files, ReachesSearch k ip file)
      (hdi : run.2.singleFde = false → run.2.di = s.di)
  | stuck (hok : ∀ n, run.1 ≠ .ok n) (herr : ∀ e, run.1 ≠ .err e)
      (hreach : ∃ file ∈ files, ReachesSearch k ip file)

/-- **The iteration over the files.** It stops with `1` at the first hit, runs to the
end with `0` when there is none, or does not come back. `single_fde` ends up set as
soon as one file gets as far as the search. -/
theorem foreach_cases : ∀ (files : List LinkerFile) (s : CbState),
    ForeachEnd k m ip need files s
      (linkerFileForeach (dwarfCallback k m ip need) files s) := by
  intro files
  induction files with
  | nil =>
    intro s
    refine .miss (fun h => h) rfl ?_ (fun _ => rfl)
    simp [linkerFileForeach]
  | cons file files ih =>
    intro s
    unfold linkerFileForeach
    by_cases hreach : ReachesSearch k ip file
    · have hmem : ∃ f ∈ file :: files, ReachesSearch k ip f :=
        ⟨file, List.mem_cons_self, hreach⟩
      obtain ⟨hr, hsym, hsec⟩ := hreach
      obtain ⟨values, hsym⟩ := Option.isSome_iff_exists.mp hsym
      obtain ⟨sect, hsec⟩ := Option.isSome_iff_exists.mp hsec
      have hcall := dwarfCallback_of_reaches m need s hr hsym hsec
      have hhits := searchHits_iff m need s hr hsym hsec
      have hsingle : (searchSection m ip need sect (startSearch values s)).2.singleFde = true := rfl
      rcases hrun : searchSection m ip need sect (startSearch values s) with ⟨r, t⟩
      rw [hrun] at hcall hhits hsingle
      cases r with
      | ok _ =>
        rw [Act.bind_of_ok hcall]
        exact .hit (Or.inl (hhits.mpr rfl)) rfl hmem
      | err e =>
        rw [Act.bind_of_ok hcall]
        have hmiss : ¬SearchHits k m ip need file s := fun h => by cases hhits.mp h
        have hnext : (dwarfCallback k m ip need file s).2 = t := by rw [hcall]
        change ForeachEnd k m ip need (file :: files) s (linkerFileForeach _ files t)
        cases ih t with
        | hit h hret _ => exact .hit (Or.inr (hnext ▸ h)) hret hmem
        | miss h hret hs hd =>
          -- the flag that this file left set stays set
          have hset := hs.mpr (Or.inl hsingle)
          refine .miss (fun h' => h'.elim hmiss (fun h'' => h (hnext ▸ h''))) hret ?_ ?_
          · exact ⟨fun _ => Or.inr hmem, fun _ => hset⟩
          · intro hf
            rw [hset] at hf
            cases hf
        | stuck hok herr _ => exact .stuck hok herr hmem
      | _ =>
        rw [Act.bind_of_not_ok hcall nofun]
        exact .stuck nofun nofun hmem
    · obtain ⟨pi, hcall⟩ := dwarfCallback_of_not_reaches m need s hreach
      rw [Act.bind_of_ok hcall]
      have hmiss : ¬SearchHits k m ip need file s := by
        rintro ⟨hr, values, sect, hsym, hsec, -⟩
        exact hreach ⟨hr, by rw [hsym]; rfl, by rw [hsec]; rfl⟩
      have hnext : (dwarfCallback k m ip need file s).2 = { s with pi := pi } := by rw [hcall]
      change ForeachEnd k m ip need (file :: files) s
        (linkerFileForeach _ files { s with pi := pi })
      cases ih { s with pi := pi } with
      | hit h hret hex =>
        obtain ⟨f, hf, hfr⟩ := hex
        exact .hit (Or.inr (hnext ▸ h)) hret ⟨f, List.mem_cons_of_mem _ hf, hfr⟩
      | miss h hret hs hd =>
        refine .miss (fun h' => h'.elim hmiss (fun h'' => h (hnext ▸ h''))) hret ?_ hd
        rw [hs, List.exists_mem_cons_iff, or_iff_right hreach]
      | stuck hok herr hex =>
        obtain ⟨f, hf, hfr⟩ := hex
        exact .stuck hok herr ⟨f, List.mem_cons_of_mem _ hf, hfr⟩

/-! ### The lookup -/

/-- What `dwarf_find_proc_info` does with the result of the iteration. -/
theorem dwarfFindProcInfo_of_ok {s : PiState} {n : ℕ} {t : CbState}
    (h : linkerFileForeach (dwarfCallback k m ip need) k.linkerFiles
      ⟨s.pi, s.pool, false, none⟩ = (.ok n, t)) :
    dwarfFindProcInfo k m ip need s =
      (if n > 0 then Act.fail .enoinfo
        else if t.singleFde then pure ()
        else match t.di with
          | some di => dwarfSearchUnwindTable m ip di need
          | none => Act.fail .enoinfo : Act UnwError PiState Unit) ⟨t.pi, t.pool⟩ := by
  have hzoom : Act.zoom (fun s => (⟨s.pi, s.pool, false, none⟩ : CbState))
      (fun t _ => (⟨t.pi, t.pool⟩ : PiState))
      (do
        let ret ← linkerFileForeach (dwarfCallback k m ip need) k.linkerFiles
        let t ← Act.get
        pure (ret, t.singleFde, t.di)) s =
      (.ok (n, t.singleFde, t.di), ⟨t.pi, t.pool⟩) := by
    rw [Act.zoom_apply, Act.bind_of_ok h]
    rfl
  unfold dwarfFindProcInfo
  exact Act.bind_of_ok hzoom

/-- An iteration that does not come back is a lookup that does not come back. -/
theorem dwarfFindProcInfo_of_stuck {s : PiState}
    (hok : ∀ n, (linkerFileForeach (dwarfCallback k m ip need) k.linkerFiles
      ⟨s.pi, s.pool, false, none⟩).1 ≠ .ok n)
    (herr : ∀ e, (linkerFileForeach (dwarfCallback k m ip need) k.linkerFiles
      ⟨s.pi, s.pool, false, none⟩).1 ≠ .err e) :
    (dwarfFindProcInfo k m ip need s).1 ≠ .ok () ∧
      (dwarfFindProcInfo k m ip need s).1 ≠ .err .enoinfo := by
  unfold dwarfFindProcInfo
  rcases hrun : linkerFileForeach (dwarfCallback k m ip need) k.linkerFiles
    ⟨s.pi, s.pool, false, none⟩ with ⟨r, t⟩
  rw [hrun] at hok herr
  have hstuck : r.Stuck := ⟨hok, herr⟩
  rw [Act.bind_of_not_ok (by rw [Act.zoom_apply, Act.bind_of_not_ok hrun hok])
    (Res.bind_ne_ok hok _)]
  exact ⟨((hstuck.bind _).bind _).1 (), ((hstuck.bind _).bind _).2 _⟩

/-- **When the lookup is exact.** From a zeroed procedure info, the result of
`dwarf_find_proc_info` is right exactly when no file gets as far as the search: a hit
is reported as not found, and a miss as found. -/
theorem dwarfFindProcInfo_exact_iff (k : Kernel) (m : Mem) (ip : Word) (need : Bool)
    (pool : Pool) :
    FindsExactly k m ip need ⟨ProcInfo.zero, pool⟩
        (dwarfFindProcInfo k m ip need ⟨ProcInfo.zero, pool⟩) ↔
      ∀ file ∈ k.linkerFiles, ¬ReachesSearch k ip file := by
  have hend : ForeachEnd k m ip need k.linkerFiles ⟨ProcInfo.zero, pool, false, none⟩ _ :=
    foreach_cases m need k.linkerFiles _
  rcases hrun : linkerFileForeach (dwarfCallback k m ip need) k.linkerFiles
    ⟨ProcInfo.zero, pool, false, none⟩ with ⟨r, t⟩
  rw [hrun] at hend
  cases hend with
  | hit h hret hreach =>
    -- the positive result of the iteration is taken for "not found"
    cases hret
    obtain ⟨file, hmem, hfile⟩ := hreach
    refine iff_of_false (fun hex => ?_) (fun hno => hno file hmem hfile)
    have hok := (hex.hit h).1
    rw [dwarfFindProcInfo_of_ok m need hrun] at hok
    cases hok
  | miss h hret hs hd =>
    cases hret
    have hfind := dwarfFindProcInfo_of_ok m need (s := ⟨ProcInfo.zero, pool⟩) hrun
    rw [if_neg (Nat.lt_irrefl 0)] at hfind
    by_cases hreach : ∃ file ∈ k.linkerFiles, ReachesSearch k ip file
    · -- the flag that was set before the search is taken for "found"
      obtain ⟨file, hmem, hfile⟩ := hreach
      have hsingle : t.singleFde = true := hs.mpr (Or.inr ⟨file, hmem, hfile⟩)
      rw [if_pos hsingle] at hfind
      refine iff_of_false (fun hex => ?_) (fun hno => hno file hmem hfile)
      have herr := hex.miss h
      rw [hfind] at herr
      cases herr
    · have hsingle : t.singleFde = false := by
        refine Bool.eq_false_iff.mpr (fun htrue => ?_)
        exact (hs.mp htrue).elim Bool.false_ne_true hreach
      have hdi : t.di = none := hd hsingle
      rw [if_neg (by rw [hsingle]; exact Bool.false_ne_true), hdi] at hfind
      refine iff_of_true ⟨fun hhit => absurd hhit h, fun _ => ?_⟩ ?_
      · rw [hfind]
        rfl
      · intro file hmem hfile
        exact hreach ⟨file, hmem, hfile⟩
  | stuck hok herr hreach =>
    obtain ⟨file, hmem, hfile⟩ := hreach
    refine iff_of_false (fun hex => ?_) (fun hno => hno file hmem hfile)
    obtain ⟨hnok, hnerr⟩ := dwarfFindProcInfo_of_stuck (s := ⟨ProcInfo.zero, pool⟩) m need
      (by rw [hrun]; exact hok) (by rw [hrun]; exact herr)
    by_cases h : SomeHit k m ip need k.linkerFiles ⟨ProcInfo.zero, pool, false, none⟩
    · exact hnok (hex.hit h).1
    · exact hnerr (hex.miss h)

/-- A system with one loaded module, whose `.eh_frame` section is empty. -/
def emptyModule : Kernel where
  linkerFiles := [⟨some "test.ko", 0x1000, 0x100, [⟨0x2000, 0, some ".eh_frame"⟩]⟩]
  linkerDdbSearchSymbol _ := some 0x3000
  linkerDdbSymbolValues _ := some ⟨0x3100, 0x1000, 0x20⟩
  memValidateFunc _ _ := true
  dynInfoList := []

/-- An address of that module is reported as found, although its section has no FDE. -/
theorem dwarfFindProcInfo_finds_nothing :
    (dwarfFindProcInfo emptyModule (fun _ => 0) 0x1010 true ⟨ProcInfo.zero, ⟨0, 0⟩⟩).1 = .ok () ∧
      ¬FindsExactly emptyModule (fun _ => 0) 0x1010 true ⟨ProcInfo.zero, ⟨0, 0⟩⟩
        (dwarfFindProcInfo emptyModule (fun _ => 0) 0x1010 true ⟨ProcInfo.zero, ⟨0, 0⟩⟩) := by
  have hok : (dwarfFindProcInfo emptyModule (fun _ => 0) 0x1010 true
      ⟨ProcInfo.zero, ⟨0, 0⟩⟩).1 = .ok () := by decide
  refine ⟨hok, fun hex => ?_⟩
  have hmiss := hex.miss (by
    rintro (⟨-, values, sect, -, hsec, hhit⟩ | h)
    · have hsect : sect = ⟨0x2000, 0, some ".eh_frame"⟩ := Option.some.inj (hsec.symm.trans (by decide))
      rw [hsect] at hhit
      cases hhit
    · exact h)
  rw [hok] at hmiss
  cases hmiss

end LibunwindKern
