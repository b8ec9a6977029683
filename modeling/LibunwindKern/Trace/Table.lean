import LibunwindKern.Lib.Probing
import LibunwindKern.Trace.Entries

/-!
# The hash table of a frame cache

A frame cache is a table with open addressing. `trace_lookup` looks at 16 buckets from the home of
an address on. It fills the free bucket it finds, unless half of the buckets are in use, and
replaces the table by a larger one without entries if it finds no free bucket or the table is
half full.

The keys of a cache make a `Probing.Table` (`TraceCache.Ok`), which is what says that a search of
16 buckets misses no address. `Looked` lists what a lookup does to the cache, `traceLookup_looked`
says that there is nothing else, and `Looked.ok` is the step of the invariant.

* `trace_cache_table`: the invariant of the table after every run of lookups on a new cache.
-/

namespace LibunwindKern

open CProg CProg.Probing ByteMem Unw Fast

/-! ### A cache as a table -/

/-- The address in a bucket. A bucket with the address 0 is free. -/
def TraceCache.key (c : TraceCache) (slot : ℕ) : Option Word :=
  if (c.frames slot).virtualAddress = 0 then none else some (c.frames slot).virtualAddress

theorem TraceCache.key_eq_none {c : TraceCache} {slot : ℕ} :
    c.key slot = none ↔ (c.frames slot).virtualAddress = 0 := by
  unfold TraceCache.key
  split
  · next h => exact ⟨fun _ => h, fun _ => rfl⟩
  · next h => exact ⟨nofun, fun h' => absurd h' h⟩

theorem TraceCache.key_eq_some {c : TraceCache} {slot : ℕ} {rip : Word} (hrip : rip ≠ 0) :
    c.key slot = some rip ↔ (c.frames slot).virtualAddress = rip := by
  unfold TraceCache.key
  split
  · next h => exact ⟨nofun, fun h' => absurd (h'.symm.trans h) hrip⟩
  · exact ⟨Option.some.inj, congrArg some⟩

/-- The slot for an address is a slot of the table. -/
theorem TraceCache.slot_lt (c : TraceCache) (rip : Word) : c.slot rip < c.size := by
  have hpos : 0 < c.size := Nat.two_pow_pos _
  unfold TraceCache.slot
  rw [BitVec.toNat_and]
  refine Nat.lt_of_le_of_lt Nat.and_le_right ?_
  by_cases hbig : c.size < 2 ^ 64
  · -- the mask is one less than the size
    have hmask : (BitVec.ofNat 64 c.size - 1).toNat = c.size - 1 := by bv_omega
    omega
  · have hword := (BitVec.ofNat 64 c.size - 1).isLt
    omega

/-- The slot that `trace_lookup` looks at after one. -/
def nextSlot (size slot : ℕ) : ℕ := if size ≤ slot + 1 then slot + 1 - size else slot + 1

theorem nextSlot_lt {size slot : ℕ} (h : slot < size) : nextSlot size slot < size := by
  unfold nextSlot
  split
  · omega
  · omega

/-- The layout of a cache with `2 ^ logSize` buckets. -/
def traceLayout (logSize : ℕ) : Layout Word where
  size := 2 ^ logSize
  home := (TraceCache.empty logSize).slot
  next := nextSlot (2 ^ logSize)
  home_lt := (TraceCache.empty logSize).slot_lt
  next_lt _ := nextSlot_lt

/-- The end of a search as `trace_lookup` sees it. -/
def Probe.of : Outcome → Probe
  | .hit slot => .hit slot
  | .free slot => .free slot
  | .full => .full

theorem Probe.of_injective : Function.Injective Probe.of := by
  intro x y h
  cases x <;> cases y <;> cases h <;> rfl

/-- The loop of `trace_lookup` is the search of the table. -/
theorem probe_eq (c : TraceCache) {rip : Word} (hrip : rip ≠ 0) (n slot : ℕ) :
    c.probe rip n slot = Probe.of (search (traceLayout c.logSize).next c.key rip n slot) := by
  induction n generalizing slot with
  | zero => rfl
  | succ n ih =>
    unfold TraceCache.probe
    by_cases hhit : (c.frames slot).virtualAddress = rip
    · rw [if_pos hhit, search_of_some ((TraceCache.key_eq_some hrip).mpr hhit)]
      rfl
    · rw [if_neg hhit]
      by_cases hfree : (c.frames slot).virtualAddress = 0
      · rw [if_pos hfree, search_of_none (TraceCache.key_eq_none.mpr hfree)]
        rfl
      · rw [if_neg hfree, search_of_other ((TraceCache.key_eq_some hfree).mpr rfl) hhit]
        exact ih (nextSlot c.size slot)

/-- The table of a cache, for searches over 16 buckets. -/
structure TraceCache.Models (c : TraceCache) (t : Table (traceLayout c.logSize) 16) : Prop where
  keys : t.keys = c.key
  used : t.occupied.card = c.used

theorem TraceCache.Models.probe {c : TraceCache} {t : Table (traceLayout c.logSize) 16}
    (h : c.Models t) {rip : Word} (hrip : rip ≠ 0) :
    c.probe rip 16 (c.slot rip) = Probe.of (t.find rip) := by
  rw [probe_eq c hrip, ← h.keys]
  rfl

/-- The memory of the buckets of a cache was allocated for `2 ^ logSize` of them. -/
def BucketsAllocated (K : KernMalloc) (logSize : ℕ) : Prop :=
  ∃ p a q, traceCacheBuckets K logSize p = (.ok (some a), q)

/-- **The invariant** of a cache: its buckets are those of a table, no more than half of them are in
use, and there are no others. -/
structure TraceCache.Ok (K : KernMalloc) (c : TraceCache) : Prop where
  table : ∃ t, c.Models t
  half : c.used ≤ c.size / 2
  outside : ∀ slot, c.size ≤ slot → c.frames slot = emptyFrame
  allocated : BucketsAllocated K c.logSize

theorem TraceCache.empty_ok {K : KernMalloc} {n : ℕ} (h : BucketsAllocated K n) :
    (TraceCache.empty n).Ok K where
  table := ⟨Table.empty (traceLayout n) 16, rfl, Table.card_empty⟩
  half := Nat.zero_le _
  outside _ _ := rfl
  allocated := h

/-- The cache with a frame in a bucket that was free. -/
def TraceCache.put (c : TraceCache) (slot : ℕ) (f : FrameInfo) : TraceCache :=
  { c with frames := Function.update c.frames slot f, used := c.used + 1 }

theorem TraceCache.put_self (c : TraceCache) (slot : ℕ) (f : FrameInfo) :
    (c.put slot f).frames slot = f := Function.update_self _ _ _

theorem TraceCache.put_of_ne (c : TraceCache) {slot i : ℕ} (h : i ≠ slot) (f : FrameInfo) :
    (c.put slot f).frames i = c.frames i := Function.update_of_ne h _ _

theorem TraceCache.key_put (c : TraceCache) (slot : ℕ) {f : FrameInfo} (hf : f.virtualAddress ≠ 0) :
    (c.put slot f).key = Function.update c.key slot (some f.virtualAddress) := by
  funext i
  by_cases hi : i = slot
  · rw [hi, Function.update_self, TraceCache.key_eq_some hf, c.put_self]
  · rw [Function.update_of_ne hi]
    unfold TraceCache.key
    rw [c.put_of_ne hi]

/-- The bucket of an address is filled. -/
theorem TraceCache.Ok.put {K : KernMalloc} {c : TraceCache} (h : c.Ok K) {slot : ℕ} {f : FrameInfo}
    (hf : f.virtualAddress ≠ 0)
    (hfree : c.probe f.virtualAddress 16 (c.slot f.virtualAddress) = .free slot)
    (hroom : c.used < c.size / 2) : (c.put slot f).Ok K := by
  obtain ⟨t, ht⟩ := h.table
  have hfind : t.find f.virtualAddress = .free slot := by
    have hend : Probe.of (t.find f.virtualAddress) = Probe.of (.free slot) :=
      (ht.probe hf).symm.trans hfree
    exact Probe.of_injective hend
  have hslot : slot < c.size :=
    search_lt (traceLayout c.logSize).next_lt ((traceLayout c.logSize).home_lt _) (Or.inr hfind)
  refine ⟨⟨t.insert hfind, ?_, ?_⟩, hroom, ?_, h.allocated⟩
  · rw [c.key_put slot hf, ← ht.keys]
    rfl
  · exact (Table.card_insert hfind).trans (congrArg (· + 1) ht.used)
  · intro i hi
    have hne : i ≠ slot := Nat.ne_of_gt (Nat.lt_of_lt_of_le hslot hi)
    exact (c.put_of_ne hne f).trans (h.outside i hi)

/-! ### A lookup -/

/-- What a lookup of `rip` that returns the frame `f` does to the cache. -/
inductive Looked (K : KernMalloc) (rip : Word) (c : TraceCache) (f : FrameInfo) :
    TraceCache → Prop where
  /-- The address is there. -/
  | hit (slot : ℕ) (h : c.probe rip 16 (c.slot rip) = .hit slot) (hf : f = c.frames slot) :
    Looked K rip c f c
  /-- The address is put in a free bucket. -/
  | filled (slot : ℕ) (h : c.probe rip 16 (c.slot rip) = .free slot)
    (hroom : c.used < c.size / 2) (hf : f.virtualAddress = rip) : Looked K rip c f (c.put slot f)
  /-- The address is the only one in a larger table. -/
  | expanded (halloc : BucketsAllocated K (c.logSize + 2)) (hf : f.virtualAddress = rip) :
    Looked K rip c f
      ((TraceCache.empty (c.logSize + 2)).put ((TraceCache.empty (c.logSize + 2)).slot rip) f)

/-- **One lookup** keeps the invariant. -/
theorem Looked.ok {K : KernMalloc} {rip : Word} {c c' : TraceCache} {f : FrameInfo}
    (h : Looked K rip c f c') (hrip : rip ≠ 0) (hc : c.Ok K) : c'.Ok K := by
  cases h with
  | hit slot h hf => exact hc
  | filled slot h hroom hf =>
    subst hf
    exact hc.put hrip h hroom
  | expanded halloc hf =>
    subst hf
    have hfree : (TraceCache.empty (c.logSize + 2)).probe f.virtualAddress 16
        ((TraceCache.empty (c.logSize + 2)).slot f.virtualAddress) =
          .free ((TraceCache.empty (c.logSize + 2)).slot f.virtualAddress) := by
      rw [probe_eq _ hrip, search_of_none rfl]
      rfl
    have hroom : (TraceCache.empty (c.logSize + 2)).used <
        (TraceCache.empty (c.logSize + 2)).size / 2 := by
      show 0 < 2 ^ (c.logSize + 2) / 2
      exact Nat.div_pos (Nat.le_self_pow (Nat.succ_ne_zero _) 2) Nat.two_pos
    exact (TraceCache.empty_ok halloc).put hrip hfree hroom

/-- The bucket that a lookup returns has the address. -/
theorem Looked.address {K : KernMalloc} {rip : Word} {c c' : TraceCache} {f : FrameInfo}
    (h : Looked K rip c f c') (hrip : rip ≠ 0) :
    f.virtualAddress = rip ∧ ∃ slot, c'.frames slot = f := by
  cases h with
  | hit slot h hf =>
    have hend : Probe.of (search (traceLayout c.logSize).next c.key rip 16 (c.slot rip)) =
        Probe.of (.hit slot) := (probe_eq c hrip 16 (c.slot rip)).symm.trans h
    have hkey := key_of_search_hit (Probe.of_injective hend)
    rw [TraceCache.key_eq_some hrip] at hkey
    exact ⟨hf ▸ hkey, slot, hf.symm⟩
  | filled slot h hroom hf => exact ⟨hf, slot, c.put_self slot f⟩
  | expanded halloc hf => exact ⟨hf, _, TraceCache.put_self _ _ f⟩

/-- **What a lookup leaves alone**: the buckets in use stay as they are, unless the table grows. -/
theorem Looked.keeps {K : KernMalloc} {rip : Word} {c c' : TraceCache} {f : FrameInfo}
    (h : Looked K rip c f c') (hrip : rip ≠ 0) :
    c.logSize < c'.logSize ∨ c'.logSize = c.logSize ∧
      ∀ slot, (c.frames slot).virtualAddress ≠ 0 → c'.frames slot = c.frames slot := by
  cases h with
  | hit slot h hf => exact Or.inr ⟨rfl, fun _ _ => rfl⟩
  | filled slot h hroom hf =>
    refine Or.inr ⟨rfl, fun i hi => c.put_of_ne ?_ f⟩
    rintro rfl
    have hend : Probe.of (search (traceLayout c.logSize).next c.key rip 16 (c.slot rip)) =
        Probe.of (.free i) := (probe_eq c hrip 16 (c.slot rip)).symm.trans h
    have hkey := key_of_search_free (Probe.of_injective hend)
    exact hi (TraceCache.key_eq_none.mp hkey)
  | expanded halloc hf => exact Or.inl (Nat.lt_add_of_pos_right Nat.two_pos)

/-! ### The calls of a lookup -/

section Calls

variable {K : KernMalloc} {k : Kernel} {v : Validator} {fuel : ℕ} {cache rip : Word}

/-- A table that is replaced has a new allocation. -/
theorem traceCacheExpand_eq_ok {s s' : TraceSt} (h : traceCacheExpand K cache s = (.ok true, s')) :
    BucketsAllocated K ((s.caches cache).logSize + 2) ∧
      s'.caches cache = .empty ((s.caches cache).logSize + 2) := by
  unfold traceCacheExpand at h
  split_ifs at h with hlog
  swap
  · cases h
  obtain ⟨block, s₁, hblock, h⟩ := Act.bind_eq_ok h
  obtain ⟨p, halloc, rfl⟩ := Act.zoom_eq_ok hblock
  cases block with
  | none => cases h
  | some a =>
    cases h
    exact ⟨⟨s.pool, a, p, halloc⟩, Function.update_self _ _ _⟩

theorem countUsed_caches (s : TraceSt) :
    (countUsed cache s).2.caches cache =
      { s.caches cache with used := (s.caches cache).used + 1 } := Function.update_self _ _ _

/-- Where `trace_lookup` finds a free bucket, or makes one. -/
inductive Slotted (K : KernMalloc) (rip : Word) (c : TraceCache) :
    ℕ → Bool → TraceCache → Prop where
  | hit (slot : ℕ) (h : c.probe rip 16 (c.slot rip) = .hit slot) : Slotted K rip c slot true c
  | free (slot : ℕ) (h : c.probe rip 16 (c.slot rip) = .free slot) (hroom : c.used < c.size / 2) :
    Slotted K rip c slot false { c with used := c.used + 1 }
  | expanded (halloc : BucketsAllocated K (c.logSize + 2)) :
    Slotted K rip c ((TraceCache.empty (c.logSize + 2)).slot rip) false
      { TraceCache.empty (c.logSize + 2) with used := 1 }

/-- What is in the bucket of a known address. -/
theorem Slotted.looked_of_known {c c' : TraceCache} {slot : ℕ} (h : Slotted K rip c slot true c') :
    Looked K rip c (c'.frames slot) c' := by
  cases h with
  | hit _ h => exact .hit slot h rfl

/-- The free bucket of a new address, after it is filled. -/
theorem Slotted.looked_of_new {c c' : TraceCache} {slot : ℕ} (h : Slotted K rip c slot false c')
    {f : FrameInfo} (hf : f.virtualAddress = rip) :
    Looked K rip c f { c' with frames := Function.update c'.frames slot f } := by
  cases h with
  | free _ h hroom => exact .filled slot h hroom hf
  | expanded halloc => exact .expanded halloc hf

theorem expanded_slotted {s s' : TraceSt} {slot : ℕ} {known : Bool}
    (h : traceSlot.expanded K cache rip s = (.ok (some (slot, known)), s')) :
    Slotted K rip (s.caches cache) slot known (s'.caches cache) := by
  unfold traceSlot.expanded at h
  obtain ⟨ok, s₁, hexpand, h⟩ := Act.bind_eq_ok h
  cases ok with
  | false => cases h
  | true =>
    obtain ⟨halloc, hempty⟩ := traceCacheExpand_eq_ok hexpand
    cases h
    have hcount : (countUsed cache s₁).2.caches cache =
        { s₁.caches cache with used := (s₁.caches cache).used + 1 } := countUsed_caches s₁
    rw [hempty] at hcount
    show Slotted K rip (s.caches cache) (((countUsed cache s₁).2.caches cache).slot rip) false
      ((countUsed cache s₁).2.caches cache)
    rw [hcount]
    exact .expanded halloc

theorem traceSlot_of_hit {s : TraceSt} {i : ℕ}
    (h : (s.caches cache).probe rip 16 ((s.caches cache).slot rip) = .hit i) :
    traceSlot K cache rip s = (.ok (some (i, true)), s) := by
  unfold traceSlot
  rw [Act.get_bind, h]
  rfl

theorem traceSlot_of_free {s : TraceSt} {i : ℕ}
    (h : (s.caches cache).probe rip 16 ((s.caches cache).slot rip) = .free i) :
    traceSlot K cache rip s =
      if (s.caches cache).size / 2 ≤ (s.caches cache).used then traceSlot.expanded K cache rip s
      else (.ok (some (i, false)), (countUsed cache s).2) := by
  unfold traceSlot
  rw [Act.get_bind, h]
  dsimp only
  split
  · rfl
  · rfl

theorem traceSlot_of_full {s : TraceSt}
    (h : (s.caches cache).probe rip 16 ((s.caches cache).slot rip) = .full) :
    traceSlot K cache rip s = traceSlot.expanded K cache rip s := by
  unfold traceSlot
  rw [Act.get_bind, h]

theorem traceSlot_slotted {s s' : TraceSt} {slot : ℕ} {known : Bool}
    (h : traceSlot K cache rip s = (.ok (some (slot, known)), s')) :
    Slotted K rip (s.caches cache) slot known (s'.caches cache) := by
  cases hprobe : (s.caches cache).probe rip 16 ((s.caches cache).slot rip) with
  | hit i =>
    rw [traceSlot_of_hit hprobe] at h
    cases h
    exact .hit slot hprobe
  | free i =>
    rw [traceSlot_of_free hprobe] at h
    split_ifs at h with hhalf
    · -- half of the buckets are in use
      exact expanded_slotted h
    · cases h
      rw [countUsed_caches]
      exact .free slot hprobe (Nat.lt_of_not_le hhalf)
  | full =>
    rw [traceSlot_of_full hprobe] at h
    exact expanded_slotted h

theorem onTrace_eq_ok {α : Type} {x : TraceAct α} {a : α} {s s' : Tracer}
    (h : onTrace x s = (.ok a, s')) :
    ∃ t, x s.trace = (.ok a, t) ∧ s' = { s with trace := t } := by
  unfold onTrace at h
  rcases hrun : x s.trace with ⟨q, t⟩
  rw [hrun] at h
  cases q with
  | ok b =>
    cases h
    exact ⟨t, rfl, rfl⟩
  | err e => cases h
  | panic => cases h
  | undefined => cases h
  | diverge => cases h

/-! #### The evaluation of an address -/

theorem setFrame_caches (s : TraceSt) (slot : ℕ) (f : FrameInfo) :
    (setFrame cache slot f s).2.caches cache =
      { s.caches cache with frames := Function.update (s.caches cache).frames slot f } :=
  Function.update_self _ _ _

theorem stepAtFrame_address (r : TraceRegs) :
    Act.Keeps (fun w : Session => w.st.c.frameInfo.virtualAddress) (stepAtFrame k v fuel r) := by
  have hput : ∀ loc val : Word,
      Act.Keeps (fun w : Session => w.st.c.frameInfo.virtualAddress) (dwarfPut loc val) := by
    intro loc val
    unfold dwarfPut
    split
    · exact Act.Keeps.fail _
    · exact Act.Keeps.modify fun _ => rfl
  refine Act.Keeps.bind Act.Keeps.get fun w => ?_
  refine Act.Keeps.bind (hput _ _) fun _ => Act.Keeps.bind (hput _ _) fun _ => ?_
  exact Act.Keeps.bind (hput _ _) fun _ w => unwStep_address w.st

theorem onSession_keeps_trace {α : Type} (x : Act UnwError Session α) :
    Act.Keeps Tracer.trace (onSession x) := fun _ => rfl

theorem onSession_keeps {α τ : Type} {p : Session → τ} {x : Act UnwError Session α}
    (h : Act.Keeps p x) : Act.Keeps (fun s : Tracer => p s.session) (onSession x) :=
  fun s => h s.session

theorem onTrace_setFrame (s : Tracer) (slot : ℕ) (f : FrameInfo) :
    onTrace (setFrame cache slot f) s =
      (.ok (), { s with trace := (setFrame cache slot f s.trace).2 }) := rfl

/-- The result of the step is a frame of the same address. -/
theorem noteStep_caches {ret : Except UnwError ℕ} {slot : ℕ} {f : FrameInfo} {s s' : Tracer}
    (hf : (s.trace.caches cache).frames slot = f)
    (haddress : s.session.st.c.frameInfo.virtualAddress = f.virtualAddress)
    (h : noteStep cache slot ret s = (.ok (), s')) :
    ∃ g, g.virtualAddress = f.virtualAddress ∧ s'.trace.caches cache =
      { s.trace.caches cache with
        frames := Function.update (s.trace.caches cache).frames slot g } := by
  unfold noteStep at h
  rw [Act.get_bind] at h
  cases ret with
  | error e =>
    cases h
    refine ⟨f, rfl, ?_⟩
    rw [← hf, Function.update_eq_self]
  | ok n =>
    cases h
    refine ⟨_, ?_, setFrame_caches _ _ _⟩
    exact haddress

/-- **An evaluation** writes a frame of the address to the bucket, and nothing else of the cache. -/
theorem traceInitAddr_caches {r : TraceRegs} {slot : ℕ} {s s' : Tracer}
    (h : traceInitAddr k v fuel cache slot r s = (.ok (), s')) :
    ∃ f, f.virtualAddress = r.rip ∧ s'.trace.caches cache =
      { s.trace.caches cache with
        frames := Function.update (s.trace.caches cache).frames slot f } := by
  unfold traceInitAddr at h
  rw [Act.bind_of_ok (onTrace_setFrame s slot (unknownFrame r.rip))] at h
  obtain ⟨⟨⟩, s₂, hcursor, hrest⟩ := Act.bind_eq_ok h
  cases hcursor
  obtain ⟨ret, s₃, hstep, hnote⟩ := Act.bind_eq_ok hrest
  -- the step changes neither the caches nor the address of the frame
  have htrace := (onSession_keeps_trace (stepAtFrame k v fuel r)).attempt.run hstep
  have haddress : s₃.session.st.c.frameInfo.virtualAddress = r.rip :=
    (onSession_keeps (stepAtFrame_address r)).attempt.run hstep
  have hcaches : s₃.trace.caches cache = { s.trace.caches cache with
      frames := Function.update (s.trace.caches cache).frames slot (unknownFrame r.rip) } :=
    (congrArg (fun t : TraceSt => t.caches cache) htrace).trans
      (setFrame_caches s.trace slot (unknownFrame r.rip))
  have hslot : (s₃.trace.caches cache).frames slot = unknownFrame r.rip := by
    rw [hcaches]
    exact Function.update_self _ _ _
  obtain ⟨f, hf, hend⟩ := noteStep_caches hslot haddress hnote
  refine ⟨f, hf, ?_⟩
  rw [hend, hcaches]
  dsimp only
  rw [Function.update_idem]

/-- **A lookup** that returns a bucket does one of three things to the cache. -/
theorem traceLookup_looked {r : TraceRegs} {f : FrameInfo} {s s' : Tracer}
    (h : traceLookup K k v fuel cache r s = (.ok (some f), s')) :
    Looked K r.rip (s.trace.caches cache) f (s'.trace.caches cache) := by
  unfold traceLookup at h
  obtain ⟨slot, s₁, hslot, h⟩ := Act.bind_eq_ok h
  obtain ⟨t, htrace, rfl⟩ := onTrace_eq_ok hslot
  cases slot with
  | none => cases h
  | some found =>
    obtain ⟨slot, known⟩ := found
    have hslotted := traceSlot_slotted htrace
    cases known with
    | true =>
      cases h
      exact hslotted.looked_of_known
    | false =>
      obtain ⟨⟨⟩, s₂, hinit, hend⟩ := Act.bind_eq_ok h
      obtain ⟨g, hg, hcaches⟩ := traceInitAddr_caches hinit
      cases hend
      have hframe : (s'.trace.caches cache).frames slot = g := by
        rw [hcaches]
        exact Function.update_self _ _ _
      rw [hframe, hcaches]
      exact hslotted.looked_of_new hg

/-- A lookup of an address that is in the table evaluates nothing and changes nothing. -/
theorem traceLookup_of_hit {r : TraceRegs} {s : Tracer} {slot : ℕ}
    (h : (s.trace.caches cache).probe r.rip 16 ((s.trace.caches cache).slot r.rip) = .hit slot) :
    traceLookup K k v fuel cache r s =
      (.ok (some ((s.trace.caches cache).frames slot)), s) := by
  have hslot : onTrace (traceSlot K cache r.rip) s = (.ok (some (slot, true)), s) := by
    unfold onTrace
    rw [traceSlot_of_hit h]
  unfold traceLookup
  rw [Act.bind_of_ok hslot]
  rfl

/-- What a call of `trace_cache_create` that succeeds makes. -/
theorem traceCacheCreate_caches {t : Tid} {s s' : TraceSt}
    (h : traceCacheCreate K t s = (.ok cache, s')) (hcache : cache ≠ 0) :
    BucketsAllocated K hashMinBits ∧ s'.caches cache = .empty hashMinBits := by
  unfold traceCacheCreate at h
  split_ifs at h
  · cases h
    exact absurd rfl hcache
  · obtain ⟨a, s₁, -, halloc⟩ := Act.bind_eq_ok h
    split_ifs at halloc
    · cases halloc
      exact absurd rfl hcache
    · obtain ⟨block, s₂, hblock, hinit⟩ := Act.bind_eq_ok halloc
      obtain ⟨q, hbuckets, rfl⟩ := Act.zoom_eq_ok hblock
      cases block with
      | none =>
        obtain ⟨⟨⟩, s₃, -, hnull⟩ := Act.bind_eq_ok hinit
        cases hnull
        exact absurd rfl hcache
      | some b =>
        cases hinit
        exact ⟨⟨_, b, q, hbuckets⟩, Function.update_self _ _ _⟩

end Calls

/-! ### Runs of lookups -/

/-- A lookup that was made, and the bucket that it returned. -/
structure Lookup where
  rip : Word
  frame : FrameInfo

/-- A run of lookups on a cache, from one table to another. Between two of them anything may happen,
but nobody else writes to the cache. -/
inductive Lookups (K : KernMalloc) (cache : Word) (c : TraceCache) :
    List Lookup → TraceCache → Prop where
  | nil : Lookups K cache c [] c
  | snoc {ls : List Lookup} {k : Kernel} {v : Validator} {fuel : ℕ} {r : TraceRegs} {s s' : Tracer}
    {f : FrameInfo} (run : Lookups K cache c ls (s.trace.caches cache)) (hrip : r.rip ≠ 0)
    (h : traceLookup K k v fuel cache r s = (.ok (some f), s')) :
    Lookups K cache c (ls ++ [⟨r.rip, f⟩]) (s'.trace.caches cache)

/-- One lookup is a run. -/
theorem Lookups.single {K : KernMalloc} {cache : Word} {k : Kernel} {v : Validator} {fuel : ℕ}
    {r : TraceRegs} {w : Session} {t : TraceSt} {s' : Tracer} {f : FrameInfo} (hrip : r.rip ≠ 0)
    (h : traceLookup K k v fuel cache r ⟨w, t⟩ = (.ok (some f), s')) :
    Lookups K cache (t.caches cache) [⟨r.rip, f⟩] (s'.trace.caches cache) :=
  .snoc (s := ⟨w, t⟩) .nil hrip h

/-- **The table of a cache**: it has `2 ^ logSize` buckets, `used` counts the ones in use, no more
than half are in use, and no address is in two of them. -/
structure TableInvariant (K : KernMalloc) (c : TraceCache) : Prop where
  allocated : BucketsAllocated K c.logSize
  outside : ∀ slot, 2 ^ c.logSize ≤ slot → c.frames slot = emptyFrame
  used : c.used = ((Finset.range (2 ^ c.logSize)).filter fun slot =>
    (c.frames slot).virtualAddress ≠ 0).card
  half : c.used ≤ 2 ^ c.logSize / 2
  distinct : ∀ i j, (c.frames i).virtualAddress ≠ 0 →
    (c.frames i).virtualAddress = (c.frames j).virtualAddress → i = j

theorem TraceCache.Ok.tableInvariant {K : KernMalloc} {c : TraceCache} (h : c.Ok K) :
    TableInvariant K c := by
  obtain ⟨t, ht⟩ := h.table
  refine ⟨h.allocated, h.outside, ?_, h.half, fun i j hi heq => ?_⟩
  · have hoccupied : t.occupied = (Finset.range (2 ^ c.logSize)).filter fun slot =>
        (c.frames slot).virtualAddress ≠ 0 := by
      unfold Table.occupied
      rw [ht.keys]
      exact Finset.filter_congr fun slot _ => not_congr TraceCache.key_eq_none
    rw [← hoccupied, ht.used]
  · have hkey : ∀ slot, (c.frames slot).virtualAddress = (c.frames i).virtualAddress →
        t.keys slot = some (c.frames i).virtualAddress := by
      intro slot hslot
      rw [ht.keys]
      exact (TraceCache.key_eq_some hi).mpr hslot
    exact t.unique (hkey i rfl) (hkey j heq.symm)

section Runs

variable {K : KernMalloc} {cache : Word} {c₀ c₁ c : TraceCache} {ls : List Lookup} {l : Lookup}

/-- **Every run of lookups** keeps the invariant. -/
theorem Lookups.ok (h : Lookups K cache c₀ ls c) (hc : c₀.Ok K) : c.Ok K := by
  induction h with
  | nil => exact hc
  | snoc run hrip h ih => exact (traceLookup_looked h).ok hrip ih

theorem Lookups.address (h : Lookups K cache c₀ ls c) :
    ∀ l ∈ ls, l.frame.virtualAddress = l.rip := by
  induction h with
  | nil => exact fun l hl => absurd hl List.not_mem_nil
  | snoc run hrip h ih =>
    intro l hl
    obtain hl | hl := List.mem_append.mp hl
    · exact ih l hl
    · rw [List.mem_singleton.mp hl]
      exact ((traceLookup_looked h).address hrip).1

/-- The buckets in use stay as they are, unless the table grows. -/
theorem Lookups.keeps (h : Lookups K cache c₀ ls c) :
    c₀.logSize < c.logSize ∨ c.logSize = c₀.logSize ∧
      ∀ slot, (c₀.frames slot).virtualAddress ≠ 0 → c.frames slot = c₀.frames slot := by
  induction h with
  | nil => exact Or.inr ⟨rfl, fun _ _ => rfl⟩
  | snoc run hrip h ih =>
    obtain hgrown | ⟨hsize, hsame⟩ := (traceLookup_looked h).keeps hrip
    · obtain hgrown' | ⟨hsize', -⟩ := ih
      · exact Or.inl (hgrown'.trans hgrown)
      · exact Or.inl (hsize' ▸ hgrown)
    · obtain hgrown' | ⟨hsize', hsame'⟩ := ih
      · exact Or.inl (hsize ▸ hgrown')
      · refine Or.inr ⟨hsize.trans hsize', fun slot hslot => ?_⟩
        have hkept := hsame' slot hslot
        rw [hsame slot (hkept ▸ hslot), hkept]

/-- The address of the last lookup is in the table. -/
theorem Lookups.last {pre : List Lookup} (h : Lookups K cache c₀ (pre ++ [l]) c₁) :
    l.rip ≠ 0 ∧ l.frame.virtualAddress = l.rip ∧ ∃ slot, c₁.frames slot = l.frame := by
  generalize hls : pre ++ [l] = ls at h
  cases h with
  | nil => exact absurd hls (List.append_ne_nil_of_right_ne_nil pre (List.cons_ne_nil l []))
  | snoc run hrip h =>
    have hl := List.singleton_inj.mp (List.append_inj' hls rfl).2
    rw [hl]
    exact ⟨hrip, (traceLookup_looked h).address hrip⟩

/-- A lookup of this address returns the bucket that the address got, which has the same in it, and
no state is changed. -/
def Remembers (K : KernMalloc) (cache : Word) (c₁ c : TraceCache) (l : Lookup) : Prop :=
  ∃ slot, slot < 2 ^ c.logSize ∧ c₁.frames slot = l.frame ∧ c.frames slot = l.frame ∧
    ∀ k v fuel r s, s.trace.caches cache = c → r.rip = l.rip →
      traceSlot K cache r.rip s.trace = (.ok (some (slot, true)), s.trace) ∧
        traceLookup K k v fuel cache r s = (.ok (some l.frame), s)

/-- **No address is missed**: a table that has not grown since knows every address. -/
theorem Lookups.remembers {pre post : List Lookup} (hc : c₀.Ok K)
    (hpre : Lookups K cache c₀ (pre ++ [l]) c₁) (hpost : Lookups K cache c₁ post c)
    (hsize : c₁.logSize = c.logSize) : Remembers K cache c₁ c l := by
  obtain ⟨hrip, haddress, slot, hslot⟩ := hpre.last
  have hused : (c₁.frames slot).virtualAddress ≠ 0 := by
    rw [hslot, haddress]
    exact hrip
  have hsame : c.frames slot = l.frame := by
    obtain hgrown | ⟨-, hkept⟩ := hpost.keeps
    · exact absurd hsize (Nat.ne_of_lt hgrown)
    · rw [hkept slot hused, hslot]
  obtain ⟨t, ht⟩ := (hpost.ok (hpre.ok hc)).table
  have hkey : t.keys slot = some l.rip := by
    rw [ht.keys, TraceCache.key_eq_some hrip, hsame, haddress]
  refine ⟨slot, t.bounded slot l.rip hkey, hslot, hsame, fun k v fuel r s hs hr => ?_⟩
  have hprobe : (s.trace.caches cache).probe r.rip 16 ((s.trace.caches cache).slot r.rip) =
      .hit slot := by
    rw [hs, hr, ht.probe hrip, t.find_of_key hkey]
    rfl
  refine ⟨traceSlot_of_hit hprobe, ?_⟩
  rw [traceLookup_of_hit hprobe, hs, hsame]

end Runs

/-- A new cache, at `0x100fe0`. -/
def newTrace : TraceSt :=
  (traceCacheCreate bumpKernel 1 (traceCacheInitOnce bumpKernel bootTrace).2).2

/-- One lookup, of an address without unwind info. -/
def tracedOnce : Res UnwError (Option FrameInfo) × Tracer :=
  traceLookup bumpKernel bareKernel msyncValidate 0 0x100fe0 ⟨0x10000, 0x20000, 0x20100, 0x20000⟩
    ⟨⟨bottomState, bottomMem⟩, newTrace⟩

theorem newTrace_created :
    traceCacheCreate bumpKernel 1 (traceCacheInitOnce bumpKernel bootTrace).2 =
      (.ok 0x100fe0, newTrace) := by
  have hret : (traceCacheCreate bumpKernel 1 (traceCacheInitOnce bumpKernel bootTrace).2).1 =
      .ok 0x100fe0 := by decide +kernel
  exact Act.run_of_outcome hret

theorem tracedOnce_returns :
    tracedOnce = (.ok (some ⟨0x10000, .guessed, false, false, 8, 0, -1⟩), tracedOnce.2) := by
  have hret : tracedOnce.1 = .ok (some ⟨0x10000, .guessed, false, false, 8, 0, -1⟩) := by
    decide +kernel
  exact Act.run_of_outcome hret

end LibunwindKern
