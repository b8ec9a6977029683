import LibunwindKern.Lib.DoublyLinked
import LibunwindKern.Dwarf.FindProcInfo
import Mathlib.Data.List.Basic

/-!
# The list of dynamically registered unwind info

`src/dyn-register.c`, `src/dyn-cancel.c` and the search of the list in
`src/Gfind_dynamic_proc_info.c`.

The entries are records in memory, named by their addresses, and `NULL` is the address 0.
Two records at different addresses do not overlap. `_U_dyn_register` and `_U_dyn_cancel`
change the links in place, with the stores of the source in their order.

* `dynRegister_exact`, `dynCancel_exact`: what one call does to an exact list
  (`ListExact`).
* `DynRun.exact`: the list is exact in every state of every run.
* `dyn_info_list_exact`: the result, with what the search finds.
-/

namespace LibunwindKern

open CProg ByteMem DoublyLinked

/-! ### The operations -/

/-- The memory of the entries and `_U_dyn_info_list`, less its version. -/
structure DynList where
  /-- `di->next`. -/
  next : Word → Word
  /-- `di->prev`. -/
  prev : Word → Word
  /-- The other fields of an entry. -/
  info : Word → DynInfo
  generation : BitVec 32
  first : Word

/-- `++_U_dyn_info_list.generation`. -/
def DynList.bump (s : DynList) : DynList := { s with generation := s.generation + 1 }

/-- `a->next = v`. -/
def DynList.setNext (s : DynList) (a v : Word) : DynList :=
  { s with next := Function.update s.next a v }

/-- `a->prev = v`. -/
def DynList.setPrev (s : DynList) (a v : Word) : DynList :=
  { s with prev := Function.update s.prev a v }

/-- `_U_dyn_info_list.first = v`. -/
def DynList.setFirst (s : DynList) (v : Word) : DynList := { s with first := v }

/-- `if (di->next) di->next->prev = v`. -/
def DynList.setPrevOfNext (s : DynList) (di v : Word) : DynList :=
  if s.next di ≠ 0 then s.setPrev (s.next di) v else s

/-- `_U_dyn_register`. -/
def dynRegister (di : Word) (s : DynList) : DynList :=
  let s := s.bump
  let s := s.setNext di s.first
  let s := s.setPrev di 0
  let s := s.setPrevOfNext di di
  s.setFirst di

/-- `if (di->prev) di->prev->next = di->next; else _U_dyn_info_list.first = di->next`. -/
def DynList.bypass (s : DynList) (di : Word) : DynList :=
  if s.prev di ≠ 0 then s.setNext (s.prev di) (s.next di) else s.setFirst (s.next di)

/-- `_U_dyn_cancel`. -/
def dynCancel (di : Word) (s : DynList) : DynList :=
  let s := s.bump
  let s := s.bypass di
  let s := s.setPrevOfNext di (s.prev di)
  (s.setPrev di 0).setNext di 0

/-- The loop of `local_find_proc_info` over the entries in memory. A list that runs in a
circle has no end, so the loop has a bound. -/
def localFindProcInfoFrom (s : DynList) (m : Mem) (ip : Word) (needUnwindInfo : Bool) :
    ℕ → Word → Act UnwError PiState Unit
  | 0, _ => Act.lift .diverge
  | fuel + 1, di =>
    if di = 0 then Act.fail .enoinfo
    else if (s.info di).startIp ≤ ip ∧ ip < (s.info di).endIp then
      unwiExtractDynamicProcInfo m ip (s.info di) needUnwindInfo
    else localFindProcInfoFrom s m ip needUnwindInfo fuel (s.next di)

/-! ### What the operations write -/

@[simp] theorem setPrevOfNext_next (s : DynList) (di v : Word) :
    (s.setPrevOfNext di v).next = s.next := by
  unfold DynList.setPrevOfNext
  split <;> rfl

@[simp] theorem setPrevOfNext_first (s : DynList) (di v : Word) :
    (s.setPrevOfNext di v).first = s.first := by
  unfold DynList.setPrevOfNext
  split <;> rfl

@[simp] theorem setPrevOfNext_generation (s : DynList) (di v : Word) :
    (s.setPrevOfNext di v).generation = s.generation := by
  unfold DynList.setPrevOfNext
  split <;> rfl

theorem setPrevOfNext_prev (s : DynList) (di v : Word) :
    (s.setPrevOfNext di v).prev =
      if s.next di ≠ 0 then Function.update s.prev (s.next di) v else s.prev := by
  unfold DynList.setPrevOfNext
  split <;> rfl

theorem dynRegister_next (di : Word) (s : DynList) :
    (dynRegister di s).next = Function.update s.next di s.first :=
  setPrevOfNext_next ((s.bump.setNext di s.first).setPrev di 0) di di

theorem dynRegister_prev (di : Word) (s : DynList) :
    (dynRegister di s).prev =
      if s.first ≠ 0 then Function.update (Function.update s.prev di 0) s.first di
      else Function.update s.prev di 0 := by
  have hnext : ((s.bump.setNext di s.first).setPrev di 0).next di = s.first :=
    Function.update_self ..
  have hprev := setPrevOfNext_prev ((s.bump.setNext di s.first).setPrev di 0) di di
  rw [hnext] at hprev
  exact hprev

theorem dynRegister_first (di : Word) (s : DynList) : (dynRegister di s).first = di := rfl

theorem dynRegister_generation (di : Word) (s : DynList) :
    (dynRegister di s).generation = s.generation + 1 :=
  setPrevOfNext_generation ((s.bump.setNext di s.first).setPrev di 0) di di

theorem bypass_next (s : DynList) (di : Word) :
    (s.bypass di).next =
      if s.prev di ≠ 0 then Function.update s.next (s.prev di) (s.next di) else s.next := by
  unfold DynList.bypass
  split <;> rfl

@[simp] theorem bypass_prev (s : DynList) (di : Word) : (s.bypass di).prev = s.prev := by
  unfold DynList.bypass
  split <;> rfl

theorem bypass_first (s : DynList) (di : Word) :
    (s.bypass di).first = if s.prev di ≠ 0 then s.first else s.next di := by
  unfold DynList.bypass
  split <;> rfl

@[simp] theorem bypass_generation (s : DynList) (di : Word) :
    (s.bypass di).generation = s.generation := by
  unfold DynList.bypass
  split <;> rfl

/-- Storing into the predecessor does not change what follows the entry. -/
@[simp] theorem bypass_next_self (s : DynList) (di : Word) :
    (s.bypass di).next di = s.next di := by
  rw [bypass_next]
  split
  · by_cases h : di = s.prev di
    · rw [← h, Function.update_self]
    · rw [Function.update_of_ne h]
  · rfl

theorem dynCancel_next (di : Word) (s : DynList) :
    (dynCancel di s).next = Function.update
      (if s.prev di ≠ 0 then Function.update s.next (s.prev di) (s.next di) else s.next) di 0 := by
  have hnext := setPrevOfNext_next (s.bump.bypass di) di ((s.bump.bypass di).prev di)
  rw [bypass_next] at hnext
  exact congrArg (fun f => Function.update f di 0) hnext

theorem dynCancel_prev (di : Word) (s : DynList) :
    (dynCancel di s).prev = Function.update
      (if s.next di ≠ 0 then Function.update s.prev (s.next di) (s.prev di) else s.prev) di 0 := by
  have hprev : ((s.bump.bypass di).setPrevOfNext di ((s.bump.bypass di).prev di)).prev =
      if s.next di ≠ 0 then Function.update s.prev (s.next di) (s.prev di) else s.prev := by
    rw [setPrevOfNext_prev, bypass_next_self, bypass_prev]
    rfl
  exact congrArg (fun f => Function.update f di 0) hprev

theorem dynCancel_first (di : Word) (s : DynList) :
    (dynCancel di s).first = if s.prev di ≠ 0 then s.first else s.next di :=
  (setPrevOfNext_first (s.bump.bypass di) di ((s.bump.bypass di).prev di)).trans
    (bypass_first s.bump di)

theorem dynCancel_generation (di : Word) (s : DynList) :
    (dynCancel di s).generation = s.generation + 1 :=
  (setPrevOfNext_generation (s.bump.bypass di) di ((s.bump.bypass di).prev di)).trans
    (bypass_generation s.bump di)

/-! ### Exact lists -/

/-- The list in memory has exactly the entries `live`, in this order, each once. -/
structure ListExact (s : DynList) (live : List Word) : Prop where
  links : ∃ last, Seg s.next s.prev 0 s.first live last 0
  ne_null : ∀ d ∈ live, d ≠ 0
  nodup : live.Nodup

/-- A store into a node that is not in a list leaves the list's links alone. -/
theorem update_of_not_mem {f : Word → Word} {a v : Word} {l : List Word} (ha : a ∉ l) :
    ∀ d ∈ l, Function.update f a v d = f d := by
  intro d hd
  rw [Function.update_of_ne]
  rintro rfl
  exact ha hd

/-- `_U_dyn_register` puts a new entry in front. -/
theorem dynRegister_exact {s : DynList} {live : List Word} {di : Word} (h : ListExact s live)
    (h0 : di ≠ 0) (hnew : di ∉ live) : ListExact (dynRegister di s) (di :: live) := by
  obtain ⟨last, hseg⟩ := h.links
  have hframe := hseg.frame (update_of_not_mem (v := s.first) hnew)
    (update_of_not_mem (v := 0) hnew)
  have hlinks : ∃ last, Seg (dynRegister di s).next (dynRegister di s).prev di s.first live last 0 ∧
      (dynRegister di s).prev di = 0 := by
    rw [dynRegister_next, dynRegister_prev]
    cases live with
    | nil =>
      -- nothing follows the new entry
      obtain ⟨-, hfirst⟩ := hseg
      rw [if_neg (not_not.2 hfirst.symm)]
      exact ⟨di, ⟨rfl, hfirst⟩, Function.update_self ..⟩
    | cons d l =>
      obtain ⟨hd, -⟩ := id hseg
      have hne : s.first ≠ 0 := hd ▸ h.ne_null d List.mem_cons_self
      rw [if_pos hne]
      refine ⟨last, hframe.setBefore (List.cons_ne_nil _ _) h.nodup di, ?_⟩
      have hdi : di ≠ s.first := by
        rw [hd]
        rintro rfl
        exact hnew List.mem_cons_self
      rw [Function.update_of_ne hdi, Function.update_self]
  obtain ⟨last', hseg', hprev⟩ := hlinks
  refine ⟨⟨last', ?_⟩, ?_, List.nodup_cons.2 ⟨hnew, h.nodup⟩⟩
  · refine ⟨dynRegister_first di s, hprev, ?_⟩
    have hnext : (dynRegister di s).next di = s.first := by
      rw [dynRegister_next, Function.update_self]
    rw [hnext]
    exact hseg'
  · intro d hd
    rcases List.mem_cons.1 hd with rfl | hd
    · exact h0
    · exact h.ne_null d hd

/-- The piece before a cancelled entry ends in what followed the entry. -/
theorem Seg.bypassed {s : DynList} {di q : Word} {xs ys : List Word}
    (hxs : Seg s.next s.prev 0 s.first xs q di) (hq : s.prev di = q)
    (hnull : ∀ d ∈ xs, d ≠ 0) (hnodup : xs.Nodup) (hdi : di ∉ xs) (hys : ∀ d ∈ xs, d ∉ ys)
    (hnext : s.next di ≠ 0 → s.next di ∈ ys) :
    Seg (dynCancel di s).next (dynCancel di s).prev 0 (dynCancel di s).first xs q (s.next di) := by
  have hprev : ∀ d ∈ xs, (dynCancel di s).prev d = s.prev d := by
    intro d hd
    rw [dynCancel_prev, update_of_not_mem hdi d hd]
    split
    · next hne =>
      rw [Function.update_of_ne]
      rintro rfl
      exact hys _ hd (hnext hne)
    · rfl
  rw [dynCancel_first, hq]
  cases xs with
  | nil =>
    -- the entry was the first one
    obtain ⟨rfl, -⟩ := hxs
    rw [if_neg (not_not.2 rfl)]
    exact ⟨rfl, rfl⟩
  | cons x xs =>
    have hmem : q ∈ x :: xs := hxs.last_mem (List.cons_ne_nil _ _)
    rw [if_pos (hnull q hmem)]
    refine (hxs.setEnd (List.cons_ne_nil _ _) hnodup (s.next di)).frame ?_ hprev
    intro d hd
    rw [dynCancel_next, update_of_not_mem hdi d hd, hq, if_pos (hnull q hmem)]

/-- The piece after a cancelled entry starts behind what stood before the entry. -/
theorem Seg.rejoined {s : DynList} {di q last : Word} {xs ys : List Word}
    (hys : Seg s.next s.prev di (s.next di) ys last 0) (hq : s.prev di = q)
    (hnull : ∀ d ∈ ys, d ≠ 0) (hnodup : ys.Nodup) (hdi : di ∉ ys) (hxs : ∀ d ∈ xs, d ∉ ys)
    (hlast : q ≠ 0 → q ∈ xs) :
    ∃ last', Seg (dynCancel di s).next (dynCancel di s).prev q (s.next di) ys last' 0 := by
  have hnext : ∀ d ∈ ys, (dynCancel di s).next d = s.next d := by
    intro d hd
    rw [dynCancel_next, update_of_not_mem hdi d hd, hq]
    split
    · next hne =>
      rw [Function.update_of_ne]
      rintro rfl
      exact hxs _ (hlast hne) hd
    · rfl
  cases ys with
  | nil =>
    obtain ⟨-, hend⟩ := hys
    exact ⟨q, rfl, hend⟩
  | cons y ys =>
    have hhead : s.next di = y := hys.1
    have hne : s.next di ≠ 0 := hhead ▸ hnull y List.mem_cons_self
    refine ⟨last, (hys.setBefore (List.cons_ne_nil _ _) hnodup q).frame hnext ?_⟩
    intro d hd
    rw [dynCancel_prev, update_of_not_mem hdi d hd, if_pos hne, hq]

/-- `_U_dyn_cancel` takes an entry out. The list is split at the entry: the piece before it
gets a new end, the piece after it a new beginning. -/
theorem dynCancel_exact {s : DynList} {live : List Word} {di : Word} (h : ListExact s live)
    (hdi : di ∈ live) : ListExact (dynCancel di s) (live.erase di) := by
  obtain ⟨last, hseg⟩ := h.links
  have hnodup := h.nodup
  have hnull := h.ne_null
  obtain ⟨xs, ys, rfl⟩ := List.append_of_mem hdi
  rw [List.nodup_append, List.nodup_cons] at hnodup
  obtain ⟨hxs, ⟨hdys, hys⟩, hdisj⟩ := hnodup
  have hdxs : di ∉ xs := fun hmem => hdisj di hmem di List.mem_cons_self rfl
  have hsep : ∀ d ∈ xs, d ∉ ys := fun d hd hd' =>
    hdisj d hd d (List.mem_cons_of_mem _ hd') rfl
  have hnullx : ∀ d ∈ xs, d ≠ 0 := fun d hd => hnull d (List.mem_append_left _ hd)
  have hnully : ∀ d ∈ ys, d ≠ 0 := fun d hd =>
    hnull d (List.mem_append_right _ (List.mem_cons_of_mem _ hd))
  -- the links in front of the entry, the entry, and the links behind it
  obtain ⟨q, e, hsegx, he, hprev, hsegy⟩ := seg_append.1 hseg
  rw [he] at hsegx
  have hnext : s.next di ≠ 0 → s.next di ∈ ys := by
    intro hne
    cases ys with
    | nil => exact absurd hsegy.2.symm hne
    | cons y ys => rw [hsegy.1]; exact List.mem_cons_self
  have hlast : q ≠ 0 → q ∈ xs := by
    intro hne
    cases xs with
    | nil => exact absurd hsegx.1 hne
    | cons x xs => exact hsegx.last_mem (List.cons_ne_nil _ _)
  have herase : (xs ++ di :: ys).erase di = xs ++ ys := by
    rw [List.erase_append_right _ hdxs, List.erase_cons_head]
  rw [herase]
  -- both neighbours are linked with each other
  obtain ⟨last', hrest⟩ := Seg.rejoined hsegy hprev hnully hys hdys hsep hlast
  refine ⟨⟨last', seg_append.2 ⟨q, s.next di, ?_, hrest⟩⟩, ?_, ?_⟩
  · exact Seg.bypassed hsegx hprev hnullx hxs hdxs hsep hnext
  · intro d hd
    rcases List.mem_append.1 hd with hd | hd
    · exact hnullx d hd
    · exact hnully d hd
  · rw [List.nodup_append]
    exact ⟨hxs, hys, fun a ha b hb hab => hsep a ha (hab ▸ hb)⟩

/-! ### The search -/

/-- The code range of an entry contains an address. -/
def DynInfo.Covers (di : DynInfo) (ip : Word) : Prop := di.startIp ≤ ip ∧ ip < di.endIp

instance DynInfo.decidableCovers (di : DynInfo) (ip : Word) : Decidable (di.Covers ip) :=
  inferInstanceAs (Decidable (_ ∧ _))

/-- The search of the list in memory is the search of its entries in order. -/
theorem localFindProcInfoFrom_of_seg {s : DynList} {live : List Word} {p h last : Word}
    (hseg : Seg s.next s.prev p h live last 0) (hnull : ∀ d ∈ live, d ≠ 0) (m : Mem) (ip : Word)
    (need : Bool) {fuel : ℕ} (hfuel : live.length < fuel) :
    localFindProcInfoFrom s m ip need fuel h = localFindProcInfo m ip need (live.map s.info) := by
  induction live generalizing p h fuel with
  | nil =>
    obtain ⟨-, hend⟩ := hseg
    obtain ⟨fuel, rfl⟩ := Nat.exists_eq_succ_of_ne_zero (Nat.ne_zero_of_lt hfuel)
    rw [localFindProcInfoFrom, if_pos hend.symm]
    rfl
  | cons d l ih =>
    obtain ⟨hd, -, hl⟩ := hseg
    obtain ⟨fuel, rfl⟩ := Nat.exists_eq_succ_of_ne_zero (Nat.ne_zero_of_lt hfuel)
    have hrest := ih hl (fun x hx => hnull x (List.mem_cons_of_mem _ hx))
      (Nat.lt_of_succ_lt_succ hfuel)
    rw [localFindProcInfoFrom, hd, if_neg (hnull d List.mem_cons_self), List.map_cons,
      localFindProcInfo, hrest]

/-- The search stops at the first entry that covers the address. -/
theorem localFindProcInfo_append {ip : Word} {newer older : List DynInfo} {di : DynInfo}
    (hnewer : ∀ d ∈ newer, ¬ d.Covers ip) (hdi : di.Covers ip) (m : Mem) (need : Bool) :
    localFindProcInfo m ip need (newer ++ di :: older) =
      unwiExtractDynamicProcInfo m ip di need := by
  induction newer with
  | nil => exact if_pos hdi
  | cons d l ih =>
    rw [List.cons_append, localFindProcInfo]
    refine (if_neg (hnewer d List.mem_cons_self)).trans (ih ?_)
    exact fun x hx => hnewer x (List.mem_cons_of_mem _ hx)

/-- The search of a list without an entry that covers the address. -/
theorem localFindProcInfo_none {ip : Word} {dis : List DynInfo}
    (hnone : ∀ d ∈ dis, ¬ d.Covers ip) (m : Mem) (need : Bool) :
    localFindProcInfo m ip need dis = Act.fail .enoinfo := by
  induction dis with
  | nil => rfl
  | cons d l ih =>
    rw [localFindProcInfo]
    refine (if_neg (hnone d List.mem_cons_self)).trans (ih ?_)
    exact fun x hx => hnone x (List.mem_cons_of_mem _ hx)

/-! ### Runs -/

/-- What the owners of the entries may do between two calls: write anything but the links
of the registered entries. -/
structure OwnerStep (s s' : DynList) (live : List Word) : Prop where
  generation : s'.generation = s.generation
  first : s'.first = s.first
  next : ∀ d ∈ live, s'.next d = s.next d
  prev : ∀ d ∈ live, s'.prev d = s.prev d

/-- The states after a sequence of calls, with the number of calls and the registered
entries, the last registered one first. Only entries that are not registered are
registered, and only registered ones are cancelled. -/
inductive DynRun (g : BitVec 32) : ℕ → DynList → List Word → Prop
  | init {s : DynList} (hgen : s.generation = g) (hfirst : s.first = 0) : DynRun g 0 s []
  | register {n : ℕ} {s : DynList} {live : List Word} {di : Word} (h : DynRun g n s live)
      (h0 : di ≠ 0) (hnew : di ∉ live) : DynRun g (n + 1) (dynRegister di s) (di :: live)
  | cancel {n : ℕ} {s : DynList} {live : List Word} {di : Word} (h : DynRun g n s live)
      (hdi : di ∈ live) : DynRun g (n + 1) (dynCancel di s) (live.erase di)
  | owner {n : ℕ} {s s' : DynList} {live : List Word} (h : DynRun g n s live)
      (hstep : OwnerStep s s' live) : DynRun g n s' live

/-- **The list is exact in every state of a run**, and its generation counts the calls. -/
theorem DynRun.exact {g : BitVec 32} {n : ℕ} {s : DynList} {live : List Word}
    (h : DynRun g n s live) : ListExact s live ∧ s.generation = g + BitVec.ofNat 32 n := by
  induction h with
  | init hgen hfirst =>
    refine ⟨⟨⟨0, rfl, hfirst.symm⟩, fun d hd => absurd hd List.not_mem_nil, List.nodup_nil⟩, ?_⟩
    rw [hgen]
    exact (BitVec.add_zero _).symm
  | register _ h0 hnew ih =>
    refine ⟨dynRegister_exact ih.1 h0 hnew, ?_⟩
    rw [dynRegister_generation, ih.2, BitVec.add_assoc, BitVec.ofNat_add]
    rfl
  | cancel _ hdi ih =>
    refine ⟨dynCancel_exact ih.1 hdi, ?_⟩
    rw [dynCancel_generation, ih.2, BitVec.add_assoc, BitVec.ofNat_add]
    rfl
  | owner _ hstep ih =>
    obtain ⟨last, hseg⟩ := ih.1.links
    refine ⟨⟨⟨last, ?_⟩, ih.1.ne_null, ih.1.nodup⟩, hstep.generation.trans ih.2⟩
    rw [hstep.first]
    exact hseg.frame hstep.next hstep.prev

/-- **The dynamic-info list is exact.** After every sequence of calls the list from
`_U_dyn_info_list.first` is `NULL`-terminated and has exactly the registered entries, each
once, the last registered one first. `prev` is the inverse of `next`, and the generation has
grown by the number of calls. `local_find_proc_info` extracts from the first entry that
covers the address and finds nothing if none does. -/
theorem dyn_info_list_exact {g : BitVec 32} {n : ℕ} {s : DynList} {live : List Word}
    (h : DynRun g n s live) :
    (∃ last, Seg s.next s.prev 0 s.first live last 0) ∧ live.Nodup ∧
    (∀ a ∈ live, ∀ b ∈ live, s.next a = b ↔ s.prev b = a) ∧
    s.generation = g + BitVec.ofNat 32 n ∧
    ∀ (m : Mem) (ip : Word) (need : Bool) (fuel : ℕ), live.length < fuel →
      (∀ newer di older, live = newer ++ di :: older → (s.info di).Covers ip →
        (∀ d ∈ newer, ¬ (s.info d).Covers ip) →
        localFindProcInfoFrom s m ip need fuel s.first =
          unwiExtractDynamicProcInfo m ip (s.info di) need) ∧
      ((∀ d ∈ live, ¬ (s.info d).Covers ip) →
        localFindProcInfoFrom s m ip need fuel s.first = Act.fail .enoinfo) := by
  obtain ⟨hexact, hgen⟩ := h.exact
  obtain ⟨last, hseg⟩ := hexact.links
  refine ⟨⟨last, hseg⟩, hexact.nodup, ?_, hgen, ?_⟩
  · exact fun a ha b hb => hseg.next_eq_iff hexact.ne_null ha hb
  · intro m ip need fuel hfuel
    rw [localFindProcInfoFrom_of_seg hseg hexact.ne_null m ip need hfuel]
    refine ⟨?_, ?_⟩
    · rintro newer di older rfl hdi hnewer
      rw [List.map_append, List.map_cons]
      refine localFindProcInfo_append ?_ hdi m need
      intro d hd
      obtain ⟨a, ha, rfl⟩ := List.mem_map.1 hd
      exact hnewer a ha
    · intro hnone
      refine localFindProcInfo_none ?_ m need
      intro d hd
      obtain ⟨a, ha, rfl⟩ := List.mem_map.1 hd
      exact hnone a ha

/-- Three entries at boot, none of them registered. -/
def bootDynList : DynList where
  next _ := 0
  prev _ := 0
  info a := ⟨a * 16, a * 32, 0, .dynamic 0 0 0⟩
  generation := 0
  first := 0

/-- Registering three entries and cancelling the middle one. -/
def threeRegistered : DynList :=
  dynCancel 0x200 (dynRegister 0x180 (dynRegister 0x200 (dynRegister 0x100 bootDynList)))

/-- Both entries that are left cover `0x1f00`; the last registered one is found. -/
theorem dyn_info_list_after_cancel :
    DynRun 0 4 threeRegistered [0x180, 0x100] ∧
      threeRegistered.next 0x180 = 0x100 ∧ threeRegistered.prev 0x100 = 0x180 ∧
      localFindProcInfoFrom threeRegistered (fun _ => 0) 0x1f00 false 3 0x180 =
        unwiExtractDynamicProcInfo (fun _ => 0) 0x1f00 (threeRegistered.info 0x180) false := by
  have hrun₁ : DynRun 0 1 (dynRegister 0x100 bootDynList) [0x100] :=
    .register (.init rfl rfl) (by decide) (by decide)
  have hrun₂ : DynRun 0 2 _ [0x200, 0x100] := hrun₁.register (by decide) (by decide)
  have hrun₃ : DynRun 0 3 _ [0x180, 0x200, 0x100] := hrun₂.register (by decide) (by decide)
  have hrun : DynRun 0 4 threeRegistered [0x180, 0x100] := hrun₃.cancel (by decide)
  obtain ⟨-, -, hinverse, -, hfind⟩ := dyn_info_list_exact hrun
  have hnext : threeRegistered.next 0x180 = 0x100 := by decide
  refine ⟨hrun, hnext, (hinverse _ (by decide) _ (by decide)).1 hnext, ?_⟩
  exact (hfind (fun _ => 0) 0x1f00 false 3 (by decide)).1 [] 0x180 [0x100] rfl (by decide)
    (fun d hd => absurd hd List.not_mem_nil)

end LibunwindKern
