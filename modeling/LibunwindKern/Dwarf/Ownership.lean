import LibunwindKern.Dwarf.FdeSpec
import LibunwindKern.Dwarf.Fetch
import LibunwindKern.Dwarf.Lookup
import LibunwindKern.Dwarf.Untouched

/-!
# The objects of the pool of unwind info

`dwarf_extract_proc_info_from_fde` takes an object from `dwarf_cie_info_pool` for an FDE it
has decoded. It is the only function that does, and `put_unwind_info` the only one that
returns an object. This module follows the objects through a call of `dwarf_step`.

A search takes at most one object. `Took` says what that does to the procedure info and the
pool, and `TakesAt`, `LinearTakes`, `FilesTake` and `DynamicTakes` say when it happens, from
one record up to the dynamic list and the loaded files.

An object that was taken is not returned. For an FDE of the dynamic list `put_unwind_info`
is a call of `dwarf_put_unwind_info`, which does nothing. For an FDE of a loaded file it is
not reached, because `dwarf_find_proc_info` reports the hit as `-UNW_ENOINFO`.

* `dwarfStep_balanced`: a call that takes no object leaves the pool as it was.
* `dwarfStep_leaks`: a call that takes one, and returns, leaks it. The exception is a call
  that succeeds with the object of an FDE that does not cover the address.
-/

namespace LibunwindKern

open CProg ByteMem Unw

/-- The objects that are in use. -/
def Pool.live (p : Pool) : ℤ := (p.allocs : ℤ) - p.frees

@[simp] theorem Pool.live_alloc (p : Pool) : p.alloc.live = p.live + 1 := by
  unfold live alloc
  push_cast
  omega

@[simp] theorem Pool.live_free (p : Pool) : p.free.live = p.live - 1 := by
  unfold live free
  push_cast
  omega

/-! ### One record -/

/-- The record at an address is a CIE. -/
def isCieRecord (m : Mem) (base a : Word) : Bool :=
  if load32 m a ≠ 0xffffffff then isCieId ((load32 m (a + 4)).signExtend 64) (base ≠ 0)
  else isCieId (load64 m (a + 12)) (base ≠ 0)

/-- The record at `*addrp` is an FDE, and it is decoded without an error. -/
def TakesAt (m : Mem) (base : Word) (s : FdeState) : Prop :=
  (dwarfExtractProcInfoFromFde m true base s).1 = .ok () ∧ isCieRecord m base s.addrp = false

/-- What a search does to the unwind info and the pool: it takes an object and stores a
pointer to it, or leaves both as they were. -/
structure Took (taken : Prop) (u : UnwindInfo) (p : Pool) (u' : UnwindInfo) (p' : Pool) :
    Prop where
  yes : taken → p' = p.alloc ∧ ∃ dci, u' = .cie dci
  no : ¬taken → p' = p ∧ u' = u

theorem Took.none {u : UnwindInfo} {p : Pool} : Took False u p u p :=
  ⟨False.elim, fun _ => ⟨rfl, rfl⟩⟩

/-- A search that takes nothing leaves both as they were. -/
theorem Took.of_not {P : Prop} {u u' : UnwindInfo} {p p' : Pool} (h : ¬P) (hp : p' = p)
    (hu : u' = u) : Took P u p u' p' := ⟨fun hyes => absurd hyes h, fun _ => ⟨hp, hu⟩⟩

theorem Took.congr {P Q : Prop} {u u' : UnwindInfo} {p p' : Pool} (h : Took P u p u' p')
    (hiff : P ↔ Q) : Took Q u p u' p' :=
  ⟨fun hq => h.yes (hiff.2 hq), fun hq => h.no fun hp => hq (hiff.1 hp)⟩

/-- What is the case before a search may be put in other words. -/
theorem Took.of_eq {P : Prop} {u₀ u u' : UnwindInfo} {p₀ p p' : Pool} (h : Took P u p u' p')
    (hu : u = u₀) (hp : p = p₀) : Took P u₀ p₀ u' p' := by
  subst hu hp
  exact h

/-- The part of the state of an extraction that has to do with the object. -/
def FdeState.held (s : FdeState) : UnwindInfo × Pool := (s.pi.unwindInfo, s.pool)

theorem fde_onAddr_keeps_held {α : Type} (x : Reader α) :
    Act.Keeps FdeState.held (onAddr x) := fun _ => rfl

section Record

variable {m : Mem}

theorem fdeHeader_keeps_held (base : Word) : Act.Keeps FdeState.held (fdeHeader m base) := by
  refine Act.Keeps.bind (fde_onAddr_keeps_held _) fun u32val => ?_
  split
  · split
    · exact Act.Keeps.fail _
    · refine Act.Keeps.bind Act.Keeps.get fun s => ?_
      refine Act.Keeps.bind (Act.Keeps.modify fun _ => rfl) fun _ => ?_
      exact Act.Keeps.bind (fde_onAddr_keeps_held _) fun _ => Act.Keeps.pure _
  · refine Act.Keeps.bind (fde_onAddr_keeps_held _) fun u64val => ?_
    refine Act.Keeps.bind Act.Keeps.get fun s => ?_
    refine Act.Keeps.bind (Act.Keeps.modify fun _ => rfl) fun _ => ?_
    exact Act.Keeps.bind (fde_onAddr_keeps_held _) fun _ => Act.Keeps.pure _

private theorem ite_none_iff {b : Bool} {x : Word} :
    (if b then none else some x) = none ↔ b = true := by
  cases b <;> simp

/-- A record without the address of a CIE is a CIE. -/
theorem fdeHeader_cie {base : Word} {s t : FdeState} {h : Word × Option Word}
    (hrun : fdeHeader m base s = (.ok h, t)) : h.2 = none ↔ isCieRecord m base s.addr = true := by
  unfold fdeHeader at hrun
  obtain ⟨u32val, s₁, hread, hrun⟩ := Act.bind_eq_ok hrun
  cases hread
  unfold isCieRecord
  split at hrun
  · next hne =>
    rw [if_pos hne]
    split at hrun
    · cases hrun
    · rw [Act.get_bind, Act.modify_bind] at hrun
      obtain ⟨cieOffset, s₂, hread, hrun⟩ := Act.bind_eq_ok hrun
      cases hread
      cases hrun
      exact ite_none_iff
  · next hne =>
    -- behind the two lengths of an extended record
    have haddr : s.addr + 4 + 8 = s.addr + 12 := by
      rw [BitVec.add_assoc]
      rfl
    rw [if_neg hne, ← haddr]
    obtain ⟨u64val, s₂, hread, hrun⟩ := Act.bind_eq_ok hrun
    obtain ⟨-, rfl⟩ := Prod.mk.inj hread
    rw [Act.get_bind, Act.modify_bind] at hrun
    obtain ⟨cieOffset, s₃, hread, hrun⟩ := Act.bind_eq_ok hrun
    obtain ⟨hoffset, rfl⟩ := Prod.mk.inj hread
    obtain ⟨hh, rfl⟩ := Prod.mk.inj hrun
    rw [← Res.ok.inj hh, ← Res.ok.inj hoffset]
    exact ite_none_iff

theorem fdeRange_keeps_held (dci : CieInfo) : Act.Keeps FdeState.held (fdeRange m dci) :=
  Act.Keeps.bind Act.Keeps.get fun _ => Act.Keeps.bind (fde_onAddr_keeps_held _) fun _ =>
    Act.Keeps.bind (fde_onAddr_keeps_held _) fun _ => Act.Keeps.modify fun _ => rfl

theorem fdeAugmentationEnd_keeps_held (dci : CieInfo) :
    Act.Keeps FdeState.held (fdeAugmentationEnd m dci) := by
  unfold fdeAugmentationEnd
  split
  · exact Act.Keeps.bind (fde_onAddr_keeps_held _) fun _ =>
      Act.Keeps.bind Act.Keeps.get fun _ => Act.Keeps.pure _
  · exact Act.Keeps.pure _

theorem fdeLsda_keeps_held (dci : CieInfo) : Act.Keeps FdeState.held (fdeLsda m dci) :=
  Act.Keeps.bind Act.Keeps.get fun _ => Act.Keeps.bind (fde_onAddr_keeps_held _) fun _ =>
    Act.Keeps.modify fun _ => rfl

/-- A call that takes an object if it succeeds. -/
def TakesOnOk (need : Bool) (x : Act UnwError FdeState Unit) : Prop :=
  ∀ s, Took (need = true ∧ (x s).1 = .ok ()) s.pi.unwindInfo s.pool (x s).2.pi.unwindInfo
    (x s).2.pool

theorem TakesOnOk.bind {α : Type} {need : Bool} {x : Act UnwError FdeState α}
    {f : α → Act UnwError FdeState Unit} (hx : Act.Keeps FdeState.held x)
    (hf : ∀ a, TakesOnOk need (f a)) : TakesOnOk need (x >>= f) := by
  intro s
  rcases hrun : x s with ⟨r, t⟩
  obtain ⟨hu, hp⟩ := Prod.mk.inj (hx.run hrun)
  obtain ⟨a, rfl⟩ | hr := r.ok_or_ne
  · rw [Act.bind_of_ok hrun]
    exact (hf a t).of_eq hu hp
  · rw [Act.bind_of_not_ok hrun hr]
    exact Took.of_not (fun h => Res.bind_ne_ok hr _ _ h.2) hp hu

/-- An FDE that is decoded costs an object, if its unwind info was asked for. -/
theorem fdeBody_takes (need : Bool) (base fdeEndAddr cieAddr : Word) :
    TakesOnOk need (fdeBody m need base fdeEndAddr cieAddr) := by
  refine .bind Act.Keeps.get fun s => .bind (Act.Keeps.lift _) fun dci => ?_
  refine .bind (fdeRange_keeps_held dci) fun _ => .bind (fdeAugmentationEnd_keeps_held dci) ?_
  intro augEndAddr
  refine .bind (fdeLsda_keeps_held dci) fun _ => ?_
  intro t
  cases need with
  | true =>
    obtain ⟨t', hrun, hpool, hcie⟩ := fdeUnwindInfo_takes (m := m) dci fdeEndAddr augEndAddr t
    rw [if_pos rfl, hrun]
    exact ⟨fun _ => ⟨hpool, hcie⟩, fun hno => absurd ⟨rfl, rfl⟩ hno⟩
  | false => exact Took.none.congr (by simp)

/-- **What an extraction takes.** -/
theorem extract_took (need : Bool) (base : Word) (s : FdeState) :
    Took (need = true ∧ (dwarfExtractProcInfoFromFde m need base s).1 = .ok () ∧
        isCieRecord m base s.addrp = false)
      s.pi.unwindInfo s.pool (dwarfExtractProcInfoFromFde m need base s).2.pi.unwindInfo
      (dwarfExtractProcInfoFromFde m need base s).2.pool := by
  unfold dwarfExtractProcInfoFromFde
  rw [Act.modify_bind]
  rcases hrun : fdeHeader m base { s with addr := s.addrp } with ⟨r, t⟩
  obtain ⟨hu, hp⟩ := Prod.mk.inj ((fdeHeader_keeps_held base).run hrun)
  obtain ⟨⟨fdeEndAddr, o⟩, rfl⟩ | hr := r.ok_or_ne
  · have hcie := fdeHeader_cie hrun
    rw [Act.bind_of_ok hrun]
    cases o with
    | none =>
      -- a CIE is passed over
      have hrec : isCieRecord m base s.addrp = true := hcie.1 rfl
      refine Took.of_not (fun h => ?_) hp hu
      rw [hrec] at h
      cases h.2.2
    | some cieAddr =>
      -- an FDE, whose body is decoded
      have hrec : isCieRecord m base s.addrp = false :=
        Bool.eq_false_iff.2 fun htrue => nomatch hcie.2 htrue
      have htook := fdeBody_takes (m := m) need base fdeEndAddr cieAddr t
      exact (htook.of_eq hu hp).congr (by rw [hrec]; simp)
  · rw [Act.bind_of_not_ok hrun hr]
    exact Took.of_not (fun h => Res.bind_ne_ok hr _ _ h.2.1) hp hu

/-- An extraction without unwind info takes nothing. -/
theorem extract_false_took (base : Word) (s : FdeState) :
    (dwarfExtractProcInfoFromFde m false base s).2.pool = s.pool ∧
      (dwarfExtractProcInfoFromFde m false base s).2.pi.unwindInfo = s.pi.unwindInfo :=
  (extract_took false base s).no (by simp)

theorem extract_true_took (base : Word) (s : FdeState) :
    Took (TakesAt m base s) s.pi.unwindInfo s.pool
      (dwarfExtractProcInfoFromFde m true base s).2.pi.unwindInfo
      (dwarfExtractProcInfoFromFde m true base s).2.pool :=
  (extract_took true base s).congr (by simp [TakesAt])

end Record

/-! ### The loaded files -/

/-- A linear search comes to an FDE that covers the address, and decodes it. -/
def LinearTakes (m : Mem) (ip ehFrameEnd : Word) : ℕ → FdeState → Prop
  | 0, _ => False
  | n + 1, s => s.addrp < ehFrameEnd ∧
    match dwarfExtractProcInfoFromFde m false 0 s with
    | (.ok _, t) =>
      if t.pi.startIp ≤ ip ∧ ip < t.pi.endIp then TakesAt m 0 { t with addrp := s.addrp }
      else LinearTakes m ip ehFrameEnd n t
    | (.err _, t) => LinearTakes m ip ehFrameEnd n t
    | _ => False

section Linear

variable {m : Mem} {ip e : Word} {n : ℕ} {s t : FdeState}

/-- What is taken after a record that was decoded. -/
theorem linearTakes_of_ok (hlt : s.addrp < e)
    (hrun : dwarfExtractProcInfoFromFde m false 0 s = (.ok (), t)) :
    LinearTakes m ip e (n + 1) s ↔
      if t.pi.startIp ≤ ip ∧ ip < t.pi.endIp then TakesAt m 0 { t with addrp := s.addrp }
      else LinearTakes m ip e n t := by
  rw [LinearTakes, hrun]
  exact and_iff_right hlt

/-- What is taken after a record that cannot be decoded. -/
theorem linearTakes_of_err {err : UnwError} (hlt : s.addrp < e)
    (hrun : dwarfExtractProcInfoFromFde m false 0 s = (.err err, t)) :
    LinearTakes m ip e (n + 1) s ↔ LinearTakes m ip e n t := by
  rw [LinearTakes, hrun]
  exact and_iff_right hlt

theorem not_linearTakes_of_stuck {r : Res UnwError Unit} (hr : r.Stuck)
    (hrun : dwarfExtractProcInfoFromFde m false 0 s = (r, t)) :
    ¬LinearTakes m ip e (n + 1) s := by
  rw [LinearTakes, hrun]
  rintro ⟨-, htakes⟩
  cases r with
  | ok a => exact hr.1 a rfl
  | err err => exact hr.2 err rfl
  | _ => exact htakes

end Linear

/-- **What a linear search takes.** A search that takes an object has found an FDE. -/
theorem linearSearch_took (m : Mem) (ip e : Word) : ∀ (n : ℕ) (s : FdeState),
    Took (LinearTakes m ip e n s) s.pi.unwindInfo s.pool
        (linearSearch m ip e true n s).2.pi.unwindInfo (linearSearch m ip e true n s).2.pool ∧
      (LinearTakes m ip e n s → (linearSearch m ip e true n s).1 = .ok ()) := by
  intro n
  induction n with
  | zero => exact fun s => ⟨Took.none, False.elim⟩
  | succ n ih =>
    intro s
    unfold linearSearch
    rw [Act.get_bind]
    by_cases hlt : s.addrp < e
    · rw [if_pos hlt]
      obtain ⟨hp, hu⟩ := extract_false_took (m := m) 0 s
      rcases hrun : dwarfExtractProcInfoFromFde m false 0 s with ⟨r, t⟩
      rw [hrun] at hp hu
      obtain ⟨⟨⟩, rfl⟩ | ⟨err, rfl⟩ | hr := r.ok_or_err_or_stuck
      · rw [Act.bind_of_ok (Act.attempt_of_ok hrun), linearTakes_of_ok hlt hrun]
        simp only [Act.get_bind]
        by_cases hcov : t.pi.startIp ≤ ip ∧ ip < t.pi.endIp
        · -- the FDE is decoded once more, with its unwind info
          rw [if_pos hcov, if_pos hcov, if_pos trivial, Act.modify_bind]
          have htook := extract_true_took (m := m) 0 { t with addrp := s.addrp }
          exact ⟨htook.of_eq hu hp, fun h => h.1⟩
        · rw [if_neg hcov, if_neg hcov]
          obtain ⟨htook, hok⟩ := ih t
          exact ⟨htook.of_eq hu hp, hok⟩
      · rw [Act.bind_of_ok (Act.attempt_of_err hrun), linearTakes_of_err hlt hrun]
        obtain ⟨htook, hok⟩ := ih t
        exact ⟨htook.of_eq hu hp, hok⟩
      · have hno : ¬LinearTakes m ip e (n + 1) s := not_linearTakes_of_stuck hr hrun
        rw [Act.attempt_bind_of_stuck hrun hr]
        exact ⟨Took.of_not hno hp hu, fun h => absurd h hno⟩
    · rw [if_neg hlt]
      have hno : ¬LinearTakes m ip e (n + 1) s := fun h => hlt h.1
      exact ⟨Took.of_not hno rfl rfl, fun h => absurd h hno⟩

/-- A file that does not get as far as the search changes `gp` at most. -/
theorem dwarfCallback_keeps_of_not_reaches {k : Kernel} {m : Mem} {ip : Word} {file : LinkerFile}
    (h : ¬ReachesSearch k ip file) (s : CbState) :
    (dwarfCallback k m ip true file s).2.pool = s.pool ∧
      (dwarfCallback k m ip true file s).2.pi.unwindInfo = s.pi.unwindInfo := by
  unfold dwarfCallback
  by_cases hr : ip < file.address ∨ file.address + file.size < ip
  · rw [if_pos hr]
    exact ⟨rfl, rfl⟩
  · rw [if_neg hr]
    cases hsym : symbolAt k ip with
    | none => exact ⟨rfl, rfl⟩
    | some values =>
      cases hsec : findEhFrameSection file with
      | none => exact ⟨rfl, rfl⟩
      | some sect =>
        refine absurd ⟨hr, ?_, ?_⟩ h
        · rw [hsym]; rfl
        · rw [hsec]; rfl

/-- The search of a file takes an object. -/
def FileTakes (k : Kernel) (m : Mem) (ip : Word) (file : LinkerFile) (s : CbState) : Prop :=
  ¬(ip < file.address ∨ file.address + file.size < ip) ∧
    ∃ values sect, symbolAt k ip = some values ∧ findEhFrameSection file = some sect ∧
      LinearTakes m ip (sect.addr + sect.size) (fdeCount sect.addr (sect.addr + sect.size))
        ⟨sect.addr, sect.addr, (startSearch values s).pi, s.pool⟩

/-- The search of one of the files takes an object, when the files before it had nothing. -/
def FilesTake (k : Kernel) (m : Mem) (ip : Word) : List LinkerFile → CbState → Prop
  | [], _ => False
  | file :: files, s =>
    FileTakes k m ip file s ∨
      (dwarfCallback k m ip true file s).1 = .ok 0 ∧
        FilesTake k m ip files (dwarfCallback k m ip true file s).2

section Files

variable {k : Kernel} {m : Mem} {ip : Word}

theorem dwarfCallback_took (file : LinkerFile) (s : CbState) :
    Took (FileTakes k m ip file s) s.pi.unwindInfo s.pool
        (dwarfCallback k m ip true file s).2.pi.unwindInfo
        (dwarfCallback k m ip true file s).2.pool ∧
      (FileTakes k m ip file s → (dwarfCallback k m ip true file s).1 = .ok 1) := by
  by_cases hreach : ReachesSearch k ip file
  · obtain ⟨hr, hsym, hsec⟩ := hreach
    obtain ⟨values, hsym⟩ := Option.isSome_iff_exists.mp hsym
    obtain ⟨sect, hsec⟩ := Option.isSome_iff_exists.mp hsec
    obtain ⟨htook, hok⟩ := linearSearch_took m ip (sect.addr + sect.size)
      (fdeCount sect.addr (sect.addr + sect.size))
      ⟨sect.addr, sect.addr, (startSearch values s).pi, s.pool⟩
    have hiff : LinearTakes m ip (sect.addr + sect.size)
        (fdeCount sect.addr (sect.addr + sect.size))
        ⟨sect.addr, sect.addr, (startSearch values s).pi, s.pool⟩ ↔ FileTakes k m ip file s := by
      constructor
      · exact fun h => ⟨hr, values, sect, hsym, hsec, h⟩
      · rintro ⟨-, values', sect', hsym', hsec', h⟩
        rw [hsym] at hsym'
        rw [hsec] at hsec'
        cases hsym'
        cases hsec'
        exact h
    rw [dwarfCallback_of_reaches m true s hr hsym hsec]
    rcases hrun : searchSection m ip true sect (startSearch values s) with ⟨r, t⟩
    -- the section is searched in the state `linearSearch_took` is about
    have hstate : linearSearch m ip (sect.addr + sect.size) true
        (fdeCount sect.addr (sect.addr + sect.size))
        ⟨sect.addr, sect.addr, (startSearch values s).pi, s.pool⟩ =
          (r, (linearSearch m ip (sect.addr + sect.size) true
            (fdeCount sect.addr (sect.addr + sect.size))
            ⟨sect.addr, sect.addr, (startSearch values s).pi, s.pool⟩).2) :=
      Act.run_of_outcome (congrArg Prod.fst hrun)
    have ht : t.pi.unwindInfo = _ ∧ t.pool = _ :=
      ⟨(congrArg (fun x : Res UnwError Unit × CbState => x.2.pi.unwindInfo) hrun).symm,
        (congrArg (fun x : Res UnwError Unit × CbState => x.2.pool) hrun).symm⟩
    have htook' : Took (FileTakes k m ip file s) s.pi.unwindInfo s.pool t.pi.unwindInfo t.pool := by
      rw [ht.1, ht.2]
      exact htook.congr hiff
    rw [hstate] at hok
    cases r with
    | ok _ => exact ⟨htook', fun _ => rfl⟩
    | _ => exact ⟨htook', fun h => by cases hok (hiff.2 h)⟩
  · have hno : ¬FileTakes k m ip file s := by
      rintro ⟨hr, values, sect, hsym, hsec, -⟩
      exact hreach ⟨hr, by rw [hsym]; rfl, by rw [hsec]; rfl⟩
    refine ⟨⟨fun h => absurd h hno, fun _ => ?_⟩, fun h => absurd h hno⟩
    exact dwarfCallback_keeps_of_not_reaches hreach s

/-- **What the iteration over the files takes.** It stops at the file that took an object. -/
theorem foreach_took : ∀ (files : List LinkerFile) (s : CbState),
    Took (FilesTake k m ip files s) s.pi.unwindInfo s.pool
        (linkerFileForeach (dwarfCallback k m ip true) files s).2.pi.unwindInfo
        (linkerFileForeach (dwarfCallback k m ip true) files s).2.pool ∧
      (FilesTake k m ip files s →
        (linkerFileForeach (dwarfCallback k m ip true) files s).1 = .ok 1) := by
  intro files
  induction files with
  | nil => exact fun s => ⟨Took.none, False.elim⟩
  | cons file files ih =>
    intro s
    obtain ⟨htook, hone⟩ := dwarfCallback_took (k := k) (m := m) file s
    unfold linkerFileForeach FilesTake
    rcases hrun : dwarfCallback k m ip true file s with ⟨r, t⟩
    rw [hrun] at htook hone
    -- unless the iteration goes on, the object is that of this file
    have hstop (h : r ≠ .ok 0) : FileTakes k m ip file s ↔
        FileTakes k m ip file s ∨ r = .ok 0 ∧ FilesTake k m ip files t := by
      simp [h]
    obtain ⟨n, rfl⟩ | hr := r.ok_or_ne
    · rw [Act.bind_of_ok hrun]
      by_cases hn : n = 0
      · subst hn
        rw [if_neg (by simp)]
        -- a file that has taken an object would have ended the iteration
        have hno : ¬FileTakes k m ip file s := fun h => by cases hone h
        obtain ⟨hp, hu⟩ := htook.no hno
        obtain ⟨htook', hok'⟩ := ih t
        refine ⟨(htook'.of_eq hu hp).congr (by simp [hno]), fun h => hok' ?_⟩
        exact (h.resolve_left hno).2
      · rw [if_pos hn]
        refine ⟨htook.congr (hstop (by simp [hn])), fun h => ?_⟩
        exact hone ((hstop (by simp [hn])).2 h)
    · rw [Act.bind_of_not_ok hrun hr]
      exact ⟨htook.congr (hstop (hr 0)), fun h => absurd (hone ((hstop (hr 0)).2 h)) (hr 1)⟩

/-- The files as `dwarf_find_proc_info` looks at them. -/
def FilesTakeFrom (k : Kernel) (m : Mem) (ip : Word) (p : PiState) : Prop :=
  FilesTake k m ip k.linkerFiles ⟨p.pi, p.pool, false, none⟩

/-- **What `dwarf_find_proc_info` takes.** If it takes an object it reports that it has
found nothing. -/
theorem dwarfFindProcInfo_took (p : PiState) :
    Took (FilesTakeFrom k m ip p) p.pi.unwindInfo p.pool
        (dwarfFindProcInfo k m ip true p).2.pi.unwindInfo (dwarfFindProcInfo k m ip true p).2.pool ∧
      (FilesTakeFrom k m ip p → (dwarfFindProcInfo k m ip true p).1 = .err .enoinfo) := by
  obtain ⟨htook, hone⟩ := foreach_took (k := k) (m := m) k.linkerFiles
    ⟨p.pi, p.pool, false, none⟩
  have hend : ForeachEnd k m ip true k.linkerFiles ⟨p.pi, p.pool, false, none⟩ _ :=
    foreach_cases m true k.linkerFiles _
  rcases hrun : linkerFileForeach (dwarfCallback k m ip true) k.linkerFiles
    ⟨p.pi, p.pool, false, none⟩ with ⟨r, t⟩
  rw [hrun] at htook hone hend
  cases hend with
  | hit h hret hreach =>
    cases hret
    -- the hit is turned into an error
    have hfind := dwarfFindProcInfo_of_ok m true (s := p) hrun
    rw [if_pos Nat.one_pos] at hfind
    rw [hfind]
    exact ⟨htook, fun _ => rfl⟩
  | miss h hret hs hd =>
    cases hret
    have hno : ¬FilesTakeFrom k m ip p := fun h => by cases hone h
    have hfind := dwarfFindProcInfo_of_ok m true (s := p) hrun
    rw [if_neg (Nat.lt_irrefl 0)] at hfind
    refine ⟨?_, fun h => absurd h hno⟩
    rw [hfind]
    cases hsingle : t.singleFde with
    | true =>
      rw [if_pos rfl]
      exact htook
    | false =>
      -- the table that is searched otherwise is the one of a file that got to the search
      have hdi : t.di = none := hd hsingle
      rw [if_neg Bool.false_ne_true, hdi]
      exact htook
  | stuck hok herr hreach =>
    have hno : ¬FilesTakeFrom k m ip p := fun h => hok 1 (hone h)
    refine ⟨?_, fun h => absurd h hno⟩
    unfold dwarfFindProcInfo
    rw [Act.bind_of_not_ok (by rw [Act.zoom_apply, Act.bind_of_not_ok hrun hok])
      (Res.bind_ne_ok hok _)]
    exact htook

end Files

/-! ### The dynamic list -/

/-- The FDE that an entry of a table refers to. -/
def tableFde (m : Mem) (debugFrameBase segbase e : Word) : Word :=
  if debugFrameBase ≠ 0 then (load32 m (e + 4)).signExtend 64 + debugFrameBase
  else (load32 m (e + 4)).signExtend 64 + segbase

/-- The lookup in a table comes to an FDE, and decodes it. -/
def TableTakes (m : Mem) (ip table tableLen debugFrameBase segbase : Word) (p : PiState) : Prop :=
  match unwLookup m table tableLen ((ip - segbase).setWidth 32) with
  | none => False
  | some e =>
    TakesAt m debugFrameBase ⟨tableFde m debugFrameBase segbase e,
      tableFde m debugFrameBase segbase e, p.pi, p.pool⟩

/-- The search of an entry of the dynamic list takes an object. -/
def EntryTakes (m : Mem) (ip : Word) (di : DynInfo) (p : PiState) : Prop :=
  match di.u with
  | .table segbase (some fdesc) =>
    TableTakes m ip fdesc.index (fdesc.indexSize * 8) fdesc.debugFrame segbase p
  | .remoteTable segbase tableLen tableData =>
    TableTakes m ip tableData (tableLen * 8) 0 segbase p
  | _ => False

/-- The procedure info with the fields of an entry. -/
def entryPi (di : DynInfo) (p : PiState) : PiState :=
  { p with pi :=
    { p.pi with startIp := di.startIp, endIp := di.endIp, gp := di.gp, format := di.format } }

/-- The search of the dynamic list takes an object: the first entry for the address does. -/
def DynamicTakes (m : Mem) (ip : Word) (p : PiState) : List DynInfo → Prop
  | [] => False
  | di :: dis =>
    if di.startIp ≤ ip ∧ ip < di.endIp then EntryTakes m ip di (entryPi di p)
    else DynamicTakes m ip p dis

section Dynamic

variable {m : Mem} {ip : Word}

/-- The end of `dwarf_search_unwind_table`. -/
def tableDone (ip : Word) (format : InfoFormat) (segbase : Word) : Act UnwError PiState Unit := do
  if format = .table then
    Act.modify fun s =>
      { s with pi :=
        { s.pi with
          startIp := s.pi.startIp + segbase
          endIp := s.pi.endIp + segbase
          flags := unwPiFlagDebugFrame } }
  else
    pure ()
  let s ← Act.get
  if ip < s.pi.startIp ∨ s.pi.endIp ≤ ip then Act.fail .enoinfo else pure ()

theorem searchTable_eq {need : Bool} {format : InfoFormat}
    {table tableLen debugFrameBase segbase e : Word}
    (h : unwLookup m table tableLen ((ip - segbase).setWidth 32) = some e) :
    searchTable m ip format table tableLen debugFrameBase segbase need =
      extractAt m need debugFrameBase (tableFde m debugFrameBase segbase e) >>= fun _ =>
        tableDone ip format segbase := by
  unfold searchTable
  rw [h]
  rfl

/-- The end of the search leaves the unwind info and the pool alone. -/
theorem tableDone_keeps (ip : Word) (format : InfoFormat) (segbase : Word) :
    Act.Keeps (fun p : PiState => (p.pi.unwindInfo, p.pool)) (tableDone ip format segbase) := by
  have hcheck : ∀ s : PiState, Act.Keeps (fun p : PiState => (p.pi.unwindInfo, p.pool))
      (if ip < s.pi.startIp ∨ s.pi.endIp ≤ ip then Act.fail UnwError.enoinfo else pure ()) := by
    intro s
    split
    · exact Act.Keeps.fail _
    · exact Act.Keeps.pure _
  unfold tableDone
  split
  · exact Act.Keeps.bind (Act.Keeps.modify fun _ => rfl) fun _ =>
      Act.Keeps.bind Act.Keeps.get hcheck
  · exact Act.Keeps.bind Act.Keeps.get hcheck

theorem searchTable_took (format : InfoFormat) (table tableLen debugFrameBase segbase : Word)
    (p : PiState) :
    Took (TableTakes m ip table tableLen debugFrameBase segbase p) p.pi.unwindInfo p.pool
      (searchTable m ip format table tableLen debugFrameBase segbase true p).2.pi.unwindInfo
      (searchTable m ip format table tableLen debugFrameBase segbase true p).2.pool := by
  unfold TableTakes
  cases hlookup : unwLookup m table tableLen ((ip - segbase).setWidth 32) with
  | none =>
    unfold searchTable
    rw [hlookup]
    exact Took.none
  | some e =>
    -- the check at the end comes after the object was taken
    have hsnd := Act.Keeps.bind_snd (fun _ => tableDone_keeps ip format segbase)
      (extractAt m true debugFrameBase (tableFde m debugFrameBase segbase e)) p
    obtain ⟨hu, hp⟩ := Prod.mk.inj hsnd
    rw [searchTable_eq hlookup, hu, hp]
    exact extract_true_took debugFrameBase _

theorem dwarfSearchUnwindTable_took (di : DynInfo) (hcov : di.startIp ≤ ip ∧ ip < di.endIp)
    (hdi : di.format = .remoteTable ∨ di.format = .table) (p : PiState) :
    Took (EntryTakes m ip di p) p.pi.unwindInfo p.pool
      (dwarfSearchUnwindTable m ip di true p).2.pi.unwindInfo
      (dwarfSearchUnwindTable m ip di true p).2.pool := by
  have hformat : ¬(di.format ≠ .remoteTable ∧ di.format ≠ .table) :=
    fun h => hdi.elim h.1 h.2
  unfold dwarfSearchUnwindTable EntryTakes
  rw [if_neg hformat, if_neg (not_not_intro hcov)]
  cases hu : di.u with
  | dynamic handler flags pad0 => exact Took.none
  | armExidx => exact Took.none
  | remoteTable segbase tableLen tableData => exact searchTable_took _ _ _ _ _ p
  | table segbase tableData =>
    cases tableData with
    | none => exact Took.none
    | some fdesc => exact searchTable_took _ _ _ _ _ p

/-- What an entry of the list takes. An entry for a procedure that was generated at run time
has no FDE, and its unwind info is the entry itself. -/
theorem extractDynamic_took (di : DynInfo) (hcov : di.startIp ≤ ip ∧ ip < di.endIp)
    (p : PiState) :
    (EntryTakes m ip di (entryPi di p) →
      (unwiExtractDynamicProcInfo m ip di true p).2.pool = p.pool.alloc ∧
        ∃ dci, (unwiExtractDynamicProcInfo m ip di true p).2.pi.unwindInfo = .cie dci) ∧
    (¬EntryTakes m ip di (entryPi di p) →
      (unwiExtractDynamicProcInfo m ip di true p).2.pool = p.pool ∧
        ((unwiExtractDynamicProcInfo m ip di true p).1 = .err .enoinfo →
          (unwiExtractDynamicProcInfo m ip di true p).2.pi.unwindInfo = p.pi.unwindInfo)) := by
  have htable (h : di.format = .remoteTable ∨ di.format = .table) :=
    dwarfSearchUnwindTable_took (m := m) di hcov h (entryPi di p)
  unfold unwiExtractDynamicProcInfo
  rw [Act.modify_bind]
  cases hu : di.u with
  | dynamic handler flags pad0 =>
    have hno : ¬EntryTakes m ip di (entryPi di p) := by
      unfold EntryTakes
      rw [hu]
      exact id
    exact ⟨fun h => absurd h hno, fun _ => ⟨rfl, nofun⟩⟩
  | armExidx =>
    have hno : ¬EntryTakes m ip di (entryPi di p) := by
      unfold EntryTakes
      rw [hu]
      exact id
    exact ⟨fun h => absurd h hno, fun _ => ⟨rfl, nofun⟩⟩
  | table segbase tableData =>
    have htook := htable (Or.inr (by unfold DynInfo.format; rw [hu]))
    exact ⟨htook.yes, fun h => ⟨(htook.no h).1, fun _ => (htook.no h).2⟩⟩
  | remoteTable segbase tableLen tableData =>
    have htook := htable (Or.inl (by unfold DynInfo.format; rw [hu]))
    exact ⟨htook.yes, fun h => ⟨(htook.no h).1, fun _ => (htook.no h).2⟩⟩

/-- **What the search of the dynamic list takes.** -/
theorem localFindProcInfo_took (p : PiState) : ∀ dis : List DynInfo,
    (DynamicTakes m ip p dis →
      (localFindProcInfo m ip true dis p).2.pool = p.pool.alloc ∧
        ∃ dci, (localFindProcInfo m ip true dis p).2.pi.unwindInfo = .cie dci) ∧
    (¬DynamicTakes m ip p dis →
      (localFindProcInfo m ip true dis p).2.pool = p.pool ∧
        ((localFindProcInfo m ip true dis p).1 = .err .enoinfo →
          (localFindProcInfo m ip true dis p).2.pi.unwindInfo = p.pi.unwindInfo)) := by
  intro dis
  induction dis with
  | nil => exact ⟨False.elim, fun _ => ⟨rfl, fun _ => rfl⟩⟩
  | cons di dis ih =>
    unfold localFindProcInfo DynamicTakes
    by_cases hcov : di.startIp ≤ ip ∧ ip < di.endIp
    · rw [if_pos hcov, if_pos hcov]
      exact extractDynamic_took di hcov p
    · rw [if_neg hcov, if_neg hcov]
      exact ih

end Dynamic

/-! ### The step -/

/-- The first search of the lookup takes an object. -/
def ListTakes (k : Kernel) (m : Mem) (s : St) : Prop :=
  DynamicTakes m (lookupIp s.c s.c.ip) ⟨ProcInfo.zero, s.ciePool⟩ k.dynInfoList

/-- The second search of the lookup is made and takes an object. -/
def FallsToFile (k : Kernel) (m : Mem) (s : St) : Prop :=
  (dynamicSearch k m s s.c.ip true).1 = .err .enoinfo ∧
    FilesTakeFrom k m (lookupIp s.c s.c.ip) (dynamicSearch k m s s.c.ip true).2

/-- The lookup of the frame takes no object. -/
def TakesNone (k : Kernel) (m : Mem) (s : St) : Prop := ¬ListTakes k m s ∧ ¬FallsToFile k m s

/-- The dynamic list has an FDE for the address which turns out not to cover it, and no FDE
is found in the files. The pointer to the object of the first one is left in the cursor. -/
def TakesStale (k : Kernel) (m : Mem) (s : St) : Prop :=
  ListTakes k m s ∧ (dynamicSearch k m s s.c.ip true).1 = .err .enoinfo ∧ ¬FallsToFile k m s

section Step

variable {k : Kernel} {v : Validator} {m : Mem} {fuel : ℕ} {s t u : St}

open Classical in
/-- The number of objects the lookup of the frame takes. -/
noncomputable def taken (k : Kernel) (m : Mem) (s : St) : ℤ :=
  (if ListTakes k m s then 1 else 0) + (if FallsToFile k m s then 1 else 0)

theorem taken_of_takesNone (h : TakesNone k m s) : taken k m s = 0 := by
  unfold taken
  rw [if_neg h.1, if_neg h.2]
  rfl

theorem taken_pos (h : ¬TakesNone k m s) : 0 < taken k m s := by
  unfold TakesNone at h
  -- at least one of the two searches has taken an object
  unfold taken
  split_ifs <;> simp_all

/-- The pool after the search of the dynamic list. -/
theorem dynamicSearch_live :
    (dynamicSearch k m s s.c.ip true).2.pool.live =
      s.ciePool.live + (open Classical in if ListTakes k m s then 1 else 0) := by
  obtain ⟨hyes, hno⟩ := localFindProcInfo_took (m := m)
    ⟨ProcInfo.zero, s.ciePool⟩ k.dynInfoList
  by_cases h : ListTakes k m s
  · rw [if_pos h]
    exact (congrArg Pool.live (hyes h).1).trans (Pool.live_alloc _)
  · rw [if_neg h, add_zero]
    exact congrArg Pool.live (hno h).1

/-- The pool after the search of the files. -/
theorem fileSearch_live (hd : (dynamicSearch k m s s.c.ip true).1 = .err .enoinfo) :
    (fileSearch k m s s.c.ip true).2.pool.live = s.ciePool.live + taken k m s := by
  obtain ⟨htook, -⟩ := dwarfFindProcInfo_took (k := k) (m := m)
    (dynamicSearch k m s s.c.ip true).2
  unfold taken
  rw [← add_assoc, ← dynamicSearch_live]
  by_cases h : FallsToFile k m s
  · rw [if_pos h]
    exact (congrArg Pool.live (htook.yes h.2).1).trans (Pool.live_alloc _)
  · rw [if_neg h, add_zero]
    exact congrArg Pool.live (htook.no fun hfile => h ⟨hd, hfile⟩).1

/-- The pool after a lookup that the dynamic list has ended. -/
theorem dynamicSearch_live_of_ne (hd : (dynamicSearch k m s s.c.ip true).1 ≠ .err .enoinfo) :
    (dynamicSearch k m s s.c.ip true).2.pool.live = s.ciePool.live + taken k m s := by
  have hno : ¬FallsToFile k m s := fun h => hd h.1
  unfold taken
  rw [if_neg hno, add_zero]
  exact dynamicSearch_live

/-- **The pool after a lookup.** -/
theorem fetchEnd_live {r : Res UnwError Unit} (h : FetchEnd k m s s.c.ip true r u) :
    u.ciePool.live = s.ciePool.live + taken k m s := by
  cases h with
  | dynamic hd hf =>
    have hlive := dynamicSearch_live_of_ne (k := k) (m := m) (s := s) (by rw [hd]; simp)
    rwa [hd] at hlive
  | broken hd he hf =>
    have hlive := dynamicSearch_live_of_ne (k := k) (m := m) (s := s) (by rw [hd]; simpa using he)
    rwa [hd] at hlive
  | format hf hd =>
    obtain ⟨q, hd, hq⟩ | ⟨hd, hs⟩ := hd
    · have hlive := dynamicSearch_live_of_ne (k := k) (m := m) (s := s) (by rw [hd]; exact hq)
      rwa [hd] at hlive
    · have hlive := fileSearch_live hd
      rwa [hs] at hlive
  | file hd hs hf =>
    have hlive := fileSearch_live hd
    rwa [hs] at hlive
  | missing hd hs =>
    have hlive := fileSearch_live hd
    rwa [hs] at hlive
  | stuck hok herr hs =>
    obtain hd | ⟨hd, hs⟩ := hs
    · have hlive := dynamicSearch_live_of_ne (k := k) (m := m) (s := s)
        (by rw [hd]; exact herr _)
      rwa [hd] at hlive
    · have hlive := fileSearch_live hd
      rwa [hs] at hlive

/-- What a lookup that succeeds leaves for `put_unwind_info`: nothing that it frees, or the
object of an FDE that does not cover the address. -/
theorem fetchEnd_holds (h : FetchEnd k m s s.c.ip true (.ok ()) u) :
    (¬TakesStale k m s ∧ (u.c.piIsDynamic = true ∨ u.c.pi.unwindInfo = .null)) ∨
      (TakesStale k m s ∧ u.c.piValid = true ∧ u.c.piIsDynamic = false ∧
        u.c.pi.unwindInfo ≠ .null) := by
  cases h with
  | dynamic hd hf =>
    refine Or.inl ⟨fun hstale => ?_, Or.inl rfl⟩
    have herr := hstale.2.1
    rw [hd] at herr
    cases herr
  | stuck hok herr hs => exact absurd rfl (hok ())
  | @file p hd hs hf =>
    obtain ⟨htook, herr⟩ := dwarfFindProcInfo_took (k := k) (m := m)
      (dynamicSearch k m s s.c.ip true).2
    have hrun : dwarfFindProcInfo k m (lookupIp s.c s.c.ip) true
      (dynamicSearch k m s s.c.ip true).2 = (.ok (), p) := hs
    rw [hrun] at htook herr
    have hno : ¬FilesTakeFrom k m (lookupIp s.c s.c.ip) (dynamicSearch k m s s.c.ip true).2 :=
      fun hfile => by cases herr hfile
    obtain ⟨-, hinfo⟩ := htook.no hno
    obtain ⟨hyes, hnone⟩ := localFindProcInfo_took (m := m)
      ⟨ProcInfo.zero, s.ciePool⟩ k.dynInfoList
    -- the pointer is the one the dynamic list has left, or none
    by_cases hlist : ListTakes k m s
    · obtain ⟨-, dci, hdci⟩ := hyes hlist
      refine Or.inr ⟨⟨hlist, hd, fun hfile => hno hfile.2⟩, rfl, rfl, ?_⟩
      change p.pi.unwindInfo ≠ .null
      rw [hinfo]
      exact fun hnull => by cases hdci.symm.trans hnull
    · obtain ⟨-, hsame⟩ := hnone hlist
      refine Or.inl ⟨fun hstale => hlist hstale.1, Or.inr ?_⟩
      exact hinfo.trans (hsame hd)

theorem putUnwindInfo_live {w w' : St} (h : putUnwindInfo w = (.ok (), w')) :
    (w'.ciePool = w.ciePool ∧ (w.c.piIsDynamic = true ∨ w.c.pi.unwindInfo = .null)) ∨
      (w'.ciePool = w.ciePool.free ∨ w.c.piValid = false) ∧ w.c.piIsDynamic = false ∧
        w.c.pi.unwindInfo ≠ .null := by
  unfold putUnwindInfo at h
  rw [Act.get_bind] at h
  split at h
  · next hfree =>
    cases h
    exact Or.inr ⟨Or.inl rfl, by simpa using hfree.2.1, hfree.2.2⟩
  · next hfree =>
    cases h
    by_cases hkeep : w.c.piIsDynamic = true ∨ w.c.pi.unwindInfo = .null
    · exact Or.inl ⟨rfl, hkeep⟩
    · push Not at hkeep
      have hvalid : w.c.piValid = false := by
        by_contra hvalid
        exact hfree ⟨by simpa using hvalid, by simpa using hkeep.1, hkeep.2⟩
      exact Or.inr ⟨Or.inr hvalid, by simpa using hkeep.1, hkeep.2⟩

/-- **The pool after a step**: the objects the lookup took are still in use, but for the one
that a successful step puts back by mistake. -/
theorem dwarfStep_live {r : Res UnwError ℕ} (h : dwarfStep k v m fuel s = (r, t)) :
    (¬(TakesStale k m s ∧ r = .ok 1) ∧ t.ciePool.live = s.ciePool.live + taken k m s) ∨
      (TakesStale k m s ∧ r = .ok 1 ∧ t.ciePool.live = s.ciePool.live) := by
  rcases hfetch : fetchProcInfo k m s.c.ip true s with ⟨q, u⟩
  have hend : FetchEnd k m s s.c.ip true q u := .of_run (Or.inl rfl) hfetch
  have hlive := fetchEnd_live hend
  by_cases hq : q = .ok ()
  · subst hq
    have hholds := fetchEnd_holds hend
    rw [dwarfStep_eq_fetch, Act.bind_of_ok hfetch] at h
    obtain ⟨hfails, hfound⟩ | ⟨w, w', hfound, hput, rfl, rfl⟩ := afterFetch_found h
    · refine Or.inl ⟨fun hstale => hfails 1 hstale.2, ?_⟩
      have hpool : t.ciePool = u.ciePool := congrArg Found.ciePool hfound
      rw [hpool]
      exact hlive
    · have hpool : w.ciePool = u.ciePool := congrArg Found.ciePool hfound
      have hdynamic : w.c.piIsDynamic = u.c.piIsDynamic := congrArg Found.piIsDynamic hfound
      have hinfo : w.c.pi.unwindInfo = u.c.pi.unwindInfo :=
        congrArg (fun f => f.pi.unwindInfo) hfound
      have hvalid : w.c.piValid = u.c.piValid := congrArg Found.piValid hfound
      -- whether `put_unwind_info` frees depends on what the lookup has left
      have hputs := putUnwindInfo_live hput
      rw [hpool, hdynamic, hinfo, hvalid] at hputs
      obtain ⟨hno, hkeep⟩ | ⟨hstale, htrue, hfalse, hinfo'⟩ := hholds
      · refine Or.inl ⟨fun hstale => hno hstale.1, ?_⟩
        obtain ⟨hsame, -⟩ | ⟨-, hfalse, hnull⟩ := hputs
        · change w'.ciePool.live = _
          rw [hsame]
          exact hlive
        · rw [hfalse] at hkeep
          exact absurd (hkeep.resolve_left Bool.false_ne_true) hnull
      · refine Or.inr ⟨hstale, rfl, ?_⟩
        obtain ⟨-, hkeep⟩ | ⟨hfree, -, -⟩ := hputs
        · rw [hfalse] at hkeep
          exact absurd (hkeep.resolve_left Bool.false_ne_true) hinfo'
        · rw [htrue] at hfree
          -- only the list has taken one
          have hone : taken k m s = 1 := by
            unfold taken
            rw [if_pos hstale.1, if_neg hstale.2.2]
            rfl
          change w'.ciePool.live = _
          rw [hfree.resolve_right (by simp), Pool.live_free, hlive, hone]
          omega
  · obtain ⟨r', hrun, hfails, -⟩ := dwarfStep_of_fetch_fails (v := v) hfetch hq
    rw [h] at hrun
    cases hrun
    exact Or.inl ⟨fun hstale => hfails 1 hstale.2, hlive⟩

/-- **When a step returns what it took.** -/
theorem dwarfStep_balanced_iff {r : Res UnwError ℕ} (h : dwarfStep k v m fuel s = (r, t)) :
    t.ciePool.live = s.ciePool.live ↔ TakesNone k m s ∨ TakesStale k m s ∧ r = .ok 1 := by
  obtain ⟨hno, hlive⟩ | ⟨hstale, hok, hlive⟩ := dwarfStep_live h
  · rw [hlive]
    constructor
    · intro heq
      by_contra hnone
      have hpos := taken_pos fun hzero => hnone (Or.inl hzero)
      omega
    · rintro (hnone | hstale)
      · rw [taken_of_takesNone hnone, add_zero]
      · exact absurd hstale hno
  · exact ⟨fun _ => Or.inr ⟨hstale, hok⟩, fun _ => hlive⟩

end Step

end LibunwindKern
