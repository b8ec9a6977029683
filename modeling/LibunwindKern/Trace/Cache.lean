import LibunwindKern.Mempool.Invariant
import LibunwindKern.Dwarf.Types
import Mathlib.Data.List.Basic

/-!
# The frame caches of the fast backtrace

`trace_cache_get` and what it calls (`src/Gtrace.c`). A cache is an object of
`trace_cache_pool`. The state has a thread-local pointer for each thread, the flag
`trace_cache_once_happen` and the static `global_cache`.

The branch of `trace_cache_get` that looks at the thread-local pointer is taken while the
flag is *clear*, and its first act is to set the flag. So it is taken by the first call
ever made, and every later call of every thread ends in the global cache:

* `traceCacheGet_first`, `traceCacheGet_second`, `traceCacheGet_later`: the three kinds of
  calls.
* `getAll_shape`: one cache for the first call, another one for all the others.
* `trace_cache_thread_specific_iff`: when this is one cache for each thread.
-/

namespace LibunwindKern

open CProg ByteMem

/-- A thread. -/
abbrev Tid := ℕ

/-- `HASH_MIN_BITS`. -/
def hashMinBits : ℕ := 14

/-- `sizeof (unw_tdep_frame_t)`. -/
def sizeofFrame : Word := 16

/-- `sizeof (unw_trace_cache_t)`. -/
def sizeofTraceCache : Word := 32

/-- `empty_frame`. -/
def emptyFrame : FrameInfo := ⟨0, .other, true, true, 0, -1, -1⟩

/-- `unw_trace_cache_t`, less the count of destructor calls. -/
structure TraceCache where
  frames : ℕ → FrameInfo
  logSize : ℕ
  used : ℕ

/-- A cache with `2 ^ n` empty buckets. -/
def TraceCache.empty (n : ℕ) : TraceCache := ⟨fun _ => emptyFrame, n, 0⟩

/-- The static and the thread-local variables of `Gtrace.c`, and the caches in memory. -/
structure TraceSt where
  /-- `trace_cache_pool`, with the memory it is in. -/
  pool : PoolSt
  /-- `trace_cache_once_happen`. -/
  traceCacheOnceHappen : Bool
  tlsCache : Tid → Word
  tlsCacheDestroyed : Tid → Bool
  globalCache : Word
  /-- The cache at an address. -/
  caches : Word → TraceCache

abbrev TraceAct := Act Assertion TraceSt

/-- A call that works on `trace_cache_pool`. -/
def onPool {α : Type} (x : PoolAct α) : TraceAct α :=
  Act.zoom TraceSt.pool (fun p s => { s with pool := p }) x

/-- `trace_cache_init_once`, less the registration of the destructor. -/
def traceCacheInitOnce (K : KernMalloc) : TraceAct Unit :=
  onPool (mempoolInit K sizeofTraceCache 0) >>= fun _ =>
  Act.modify fun s => { s with traceCacheOnceHappen := true }

/-- The memory `trace_cache_buckets` gets for `1u << logSize` buckets. -/
def traceCacheBuckets (K : KernMalloc) (logSize : ℕ) : PoolAct (Option Word) :=
  getMemory K (BitVec.ofNat 64 (2 ^ logSize) * sizeofFrame)

/-- The stores into a new cache. -/
def initCache (t : Tid) (cache : Word) : TraceAct Word := fun s =>
  (.ok cache, { s with
    caches := Function.update s.caches cache (.empty hashMinBits)
    tlsCacheDestroyed := Function.update s.tlsCacheDestroyed t false })

/-- `trace_cache_create`, called by thread `t`. -/
def traceCacheCreate (K : KernMalloc) (t : Tid) : TraceAct Word := fun s =>
  if s.tlsCacheDestroyed t then (.ok 0, s) -- the thread is about to exit
  else
    (onPool (mempoolAlloc K) >>= fun cache =>
      if cache = 0 then pure (0 : Word)
      else
        onPool (traceCacheBuckets K hashMinBits) >>= fun r =>
          match r with
          | none => onPool (mempoolFree cache) >>= fun _ => pure (0 : Word)
          | some _ => initCache t cache) s

/-- `global_cache = cache`. -/
def setGlobalCache (cache : Word) : TraceAct Word := fun s =>
  (.ok cache, { s with globalCache := cache })

/-- `tls_cache = cache`. -/
def setTlsCache (t : Tid) (cache : Word) : TraceAct Word := fun s =>
  (.ok cache, { s with tlsCache := Function.update s.tlsCache t cache })

/-- `trace_cache_get_unthreaded`, called by thread `t`. -/
def traceCacheGetUnthreaded (K : KernMalloc) (t : Tid) : TraceAct Word := fun s =>
  if s.globalCache = 0 then
    (onPool (mempoolInit K sizeofTraceCache 0) >>= fun _ =>
      traceCacheCreate K t >>= setGlobalCache) s
  else (.ok s.globalCache, s)

/-- The thread's own cache, made if there is none. -/
def ownCache (K : KernMalloc) (t : Tid) : TraceAct Word := fun s =>
  if s.tlsCache t = 0 then
    (traceCacheCreate K t >>= setTlsCache t) s
  else (.ok (s.tlsCache t), s)

/-- `trace_cache_get`, called by thread `t`. -/
def traceCacheGet (K : KernMalloc) (t : Tid) : TraceAct Word := fun s =>
  if s.traceCacheOnceHappen = false then
    (traceCacheInitOnce K >>= fun _ => ownCache K t) s
  else traceCacheGetUnthreaded K t s

/-- The calls of the threads `ts`, one after the other. -/
def getAll (K : KernMalloc) : List Tid → TraceAct (List Word)
  | [] => pure []
  | t :: ts =>
    traceCacheGet K t >>= fun cache =>
    getAll K ts >>= fun caches => pure (cache :: caches)

/-! ### One call -/

/-- An object of the trace cache pool lies inside a block. -/
def InBlock (p : PoolSt) (c : Word) : Prop :=
  ∃ b ∈ p.blocks, (extentAt (unwAlign sizeofTraceCache maxAlign).toNat c).Inside b

private theorem traceCache_size : 0 < (unwAlign sizeofTraceCache maxAlign).toNat := by decide

private theorem sizeof_ne_zero : sizeofTraceCache ≠ 0 := by decide

private theorem sizeof_lt : sizeofTraceCache.toNat < 2 ^ 32 := by decide

/-- An object inside a block is not apart from the block. -/
theorem InBlock.not_apart {p : PoolSt} {c : Word} (h : InBlock p c) :
    ¬ ∀ b ∈ p.blocks, b.Apart (extentAt (unwAlign sizeofTraceCache maxAlign).toNat c) := by
  intro hall
  obtain ⟨b, hb, hin⟩ := h
  have hself := (hall b hb).mono hin ⟨Nat.le_refl _, Nat.le_refl _⟩
  exact not_apartBy_self traceCache_size c hself

theorem onPool_eq {α : Type} {x : PoolAct α} {s : TraceSt} {r : Res Assertion α} {p : PoolSt}
    (h : x s.pool = (r, p)) : onPool x s = (r, { s with pool := p }) := by
  rw [onPool, Act.zoom_apply, h]

/-- What `trace_cache_create` gives in a new pool: an object in a block of the pool. -/
theorem traceCacheCreate_spec {K : KernMalloc} {t : Tid} {s s' : TraceSt} {free : List Word}
    {c : Word} (hinv : PoolInv K s.pool free [])
    (hsize : s.pool.pool.objSize = unwAlign sizeofTraceCache maxAlign)
    (hrun : traceCacheCreate K t s = (.ok c, s')) (hc : c ≠ 0) :
    s'.pool.Ok K ∧ InBlock s'.pool c ∧ s'.globalCache = s.globalCache ∧
      s'.traceCacheOnceHappen = s.traceCacheOnceHappen ∧
      ∀ base : List Extent, (∀ b ∈ s.pool.poolBlocks, ∀ x ∈ base, x.Apart b) →
        (∀ x ∈ base, x ∈ s.pool.blocks) →
        ∀ x ∈ base, x.Apart (extentAt (unwAlign sizeofTraceCache maxAlign).toNat c) := by
  unfold traceCacheCreate at hrun
  split at hrun
  · cases hrun
    exact absurd rfl hc
  · -- the object comes from the pool, and the buckets from the memory for internal use
    rcases mempoolAlloc_spec hinv with ⟨p, herr⟩ | ⟨p, herr, -⟩ | ⟨o, p, free', hok, hinv', -, hgrown⟩
    · rw [Act.bind_of_err (onPool_eq herr)] at hrun
      cases hrun
    · rw [Act.bind_of_err (onPool_eq herr)] at hrun
      cases hrun
    · rw [Act.bind_of_ok (onPool_eq hok)] at hrun
      have hobj := hinv'.linked.object o (List.mem_append_right _ List.mem_cons_self)
      rw [if_neg hobj.pos] at hrun
      rcases getMemory_spec hinv'.ok (BitVec.ofNat 64 (2 ^ hashMinBits) * sizeofFrame) with
        hnone | ⟨a, q, hsome, hgot⟩
      · rw [Act.bind_of_ok (onPool_eq (x := traceCacheBuckets K hashMinBits)
          (s := { s with pool := p }) hnone)] at hrun
        cases hrun
        exact absurd rfl hc
      · rw [Act.bind_of_ok (onPool_eq (x := traceCacheBuckets K hashMinBits)
          (s := { s with pool := p }) hsome)] at hrun
        cases hrun
        obtain ⟨b, hb, hin⟩ := hobj.inside
        rw [hgrown.objSize, hsize] at hin
        refine ⟨hgot.ok, ⟨b, hgot.grows b (hinv'.sub b hb), hin⟩, rfl, rfl, ?_⟩
        intro base hbase hsub x hx
        refine Extent.Apart.mono ?_ ⟨Nat.le_refl _, Nat.le_refl _⟩ hin
        -- the block of the object is an old one of the pool, or new
        rcases hgrown.fresh b hb with hb | hb
        · exact hbase b hb x hx
        · exact hb x (hsub x hx)

/-- The state at boot: nothing has been called yet. -/
structure TraceSt.Boot (K : KernMalloc) (s : TraceSt) : Prop where
  pool : s.pool.Ok K
  once : s.traceCacheOnceHappen = false
  tls : ∀ t, s.tlsCache t = 0
  global : s.globalCache = 0

/-- **The first call** makes a cache of its own and leaves the global one alone. -/
theorem traceCacheGet_first {K : KernMalloc} {t : Tid} {s s' : TraceSt} {c : Word}
    (hs : s.Boot K) (hrun : traceCacheGet K t s = (.ok c, s')) (hc : c ≠ 0) :
    s'.pool.Ok K ∧ InBlock s'.pool c ∧ s'.globalCache = 0 ∧ s'.traceCacheOnceHappen = true := by
  unfold traceCacheGet at hrun
  rw [if_pos hs.once] at hrun
  obtain ⟨⟨⟩, s₁, hinit, hown⟩ := Act.bind_eq_ok hrun
  obtain ⟨⟨⟩, s₂, hpool, honce⟩ := Act.bind_eq_ok hinit
  cases honce
  obtain ⟨p, hrunp, rfl⟩ := Act.zoom_eq_ok hpool
  rcases mempoolInit_spec sizeof_ne_zero sizeof_lt hs.pool with ⟨q, herr⟩ |
    ⟨q, free, hok, hinv, hsize, -, -⟩
  · rw [hrunp] at herr
    cases herr
  · rw [hrunp] at hok
    cases hok
    unfold ownCache at hown
    rw [if_pos (hs.tls t)] at hown
    obtain ⟨c', s₃, hcreate, hset⟩ := Act.bind_eq_ok hown
    cases hset
    obtain ⟨hok', hin, hglobal, honce', -⟩ := traceCacheCreate_spec hinv hsize hcreate hc
    exact ⟨hok', hin, hglobal.trans hs.global, honce'⟩

/-- **The second call** makes the global cache, in a new pool. It is apart from every
block there was before. -/
theorem traceCacheGet_second {K : KernMalloc} {t : Tid} {s s' : TraceSt} {c : Word}
    (hpool : s.pool.Ok K) (honce : s.traceCacheOnceHappen = true) (hglobal : s.globalCache = 0)
    (hrun : traceCacheGet K t s = (.ok c, s')) (hc : c ≠ 0) :
    s'.globalCache = c ∧ s'.traceCacheOnceHappen = true ∧ ¬ InBlock s.pool c := by
  unfold traceCacheGet at hrun
  rw [if_neg (by rw [honce]; decide)] at hrun
  unfold traceCacheGetUnthreaded at hrun
  rw [if_pos hglobal] at hrun
  obtain ⟨⟨⟩, s₁, hinit, hrest⟩ := Act.bind_eq_ok hrun
  obtain ⟨p, hrunp, rfl⟩ := Act.zoom_eq_ok hinit
  rcases mempoolInit_spec sizeof_ne_zero sizeof_lt hpool with ⟨q, herr⟩ |
    ⟨q, free, hok, hinv, hsize, hgrows, hfresh⟩
  · rw [hrunp] at herr
    cases herr
  · rw [hrunp] at hok
    cases hok
    obtain ⟨c', s₂, hcreate, hset⟩ := Act.bind_eq_ok hrest
    cases hset
    obtain ⟨-, -, -, honce', hbase⟩ := traceCacheCreate_spec hinv hsize hcreate hc
    refine ⟨rfl, honce'.trans honce, ?_⟩
    intro hin
    exact hin.not_apart (hbase s.pool.blocks hfresh hgrows)

/-- **Every later call** gets the global cache, whichever thread makes it. -/
theorem traceCacheGet_later (K : KernMalloc) (t : Tid) {s : TraceSt}
    (honce : s.traceCacheOnceHappen = true) (hglobal : s.globalCache ≠ 0) :
    traceCacheGet K t s = (.ok s.globalCache, s) := by
  unfold traceCacheGet
  rw [if_neg (by rw [honce]; decide)]
  unfold traceCacheGetUnthreaded
  rw [if_neg hglobal]

/-! ### Sequences of calls -/

theorem getAll_later (K : KernMalloc) (ts : List Tid) {s : TraceSt}
    (honce : s.traceCacheOnceHappen = true) (hglobal : s.globalCache ≠ 0) :
    getAll K ts s = (.ok (List.replicate ts.length s.globalCache), s) := by
  induction ts with
  | nil => rfl
  | cons t ts ih =>
    rw [getAll, Act.bind_of_ok (traceCacheGet_later K t honce hglobal), Act.bind_of_ok ih]
    rfl

/-- **The shape of every sequence of calls.** One cache for the first call, and another
one for all the others. -/
theorem getAll_shape {K : KernMalloc} {t : Tid} {ts : List Tid} {s s' : TraceSt}
    {caches : List Word} (hs : s.Boot K) (hrun : getAll K (t :: ts) s = (.ok caches, s'))
    (hok : ∀ c ∈ caches, c ≠ 0) :
    ∃ own global, own ≠ global ∧ caches = own :: List.replicate ts.length global := by
  obtain ⟨own, s₁, hfirst, hrest⟩ := Act.bind_eq_ok hrun
  obtain ⟨cs, s₂, hcs, hret⟩ := Act.bind_eq_ok hrest
  cases hret
  obtain ⟨hpool, hin, hglobal, honce⟩ := traceCacheGet_first hs hfirst (hok own List.mem_cons_self)
  cases ts with
  | nil =>
    cases hcs
    exact ⟨own, own + 1, by bv_omega, rfl⟩
  | cons u ts =>
    obtain ⟨global, s₃, hsecond, hlater⟩ := Act.bind_eq_ok hcs
    obtain ⟨cs', s₄, hcs', hret⟩ := Act.bind_eq_ok hlater
    cases hret
    have hne : global ≠ 0 := hok global (by simp)
    obtain ⟨hg, honce', hnot⟩ := traceCacheGet_second hpool honce hglobal hsecond hne
    have hall := getAll_later K ts honce' (by rw [hg]; exact hne)
    rw [hcs', hg] at hall
    cases hall
    refine ⟨own, global, ?_, rfl⟩
    rintro rfl
    exact hnot hin

/-- A thread is always given the same cache, and different threads different ones. -/
def ThreadSpecific (ts : List Tid) (caches : List Word) : Prop :=
  ∀ x ∈ ts.zip caches, ∀ y ∈ ts.zip caches, x.1 = y.1 ↔ x.2 = y.2

instance (ts : List Tid) (caches : List Word) : Decidable (ThreadSpecific ts caches) :=
  inferInstanceAs (Decidable (∀ _ ∈ _, ∀ _ ∈ _, _))

/-- All calls but the first are made by one thread, and not by the thread that made the
first. -/
def OneLaterThread : List Tid → Prop
  | [] => True
  | t :: later => ∀ u ∈ later, u ≠ t ∧ ∀ v ∈ later, v = u

/-- The pairs of the later calls. -/
private theorem mem_zip_replicate {ts : List Tid} {c : Word} {x : Tid × Word} :
    x ∈ ts.zip (List.replicate ts.length c) ↔ x.1 ∈ ts ∧ x.2 = c := by
  obtain ⟨u, d⟩ := x
  induction ts with
  | nil => simp
  | cons t ts ih =>
    rw [List.length_cons, List.replicate_succ, List.zip_cons_cons, List.mem_cons, ih,
      Prod.mk.injEq, List.mem_cons]
    tauto

/-- **When the trace caches are thread-specific.** For every sequence of calls from boot in
which every allocation succeeds: each thread is given a cache of its own if and only if all
calls after the first are made by one thread, and not by the first caller. -/
theorem trace_cache_thread_specific_iff (K : KernMalloc) {ts : List Tid} {s s' : TraceSt}
    {caches : List Word} (hs : s.Boot K) (hrun : getAll K ts s = (.ok caches, s'))
    (hok : ∀ c ∈ caches, c ≠ 0) : ThreadSpecific ts caches ↔ OneLaterThread ts := by
  cases ts with
  | nil =>
    cases hrun
    exact ⟨fun _ => trivial, fun _ x hx => absurd hx List.not_mem_nil⟩
  | cons t later =>
    obtain ⟨own, global, hne, rfl⟩ := getAll_shape hs hrun hok
    unfold ThreadSpecific
    rw [List.zip_cons_cons]
    constructor
    · intro h u hu
      have hpair : ∀ v ∈ later, (v, global) ∈
          (t, own) :: later.zip (List.replicate later.length global) := fun v hv =>
        List.mem_cons_of_mem _ (mem_zip_replicate.2 ⟨hv, rfl⟩)
      refine ⟨?_, fun v hv => (h _ (hpair v hv) _ (hpair u hu)).2 rfl⟩
      rintro rfl
      exact hne ((h _ List.mem_cons_self _ (hpair u hu)).1 rfl)
    · intro h x hx y hy
      rw [List.mem_cons, mem_zip_replicate] at hx hy
      rcases hx with rfl | ⟨hx, hx'⟩ <;> rcases hy with rfl | ⟨hy, hy'⟩
      · exact ⟨fun _ => rfl, fun _ => rfl⟩
      · refine ⟨fun heq => absurd heq.symm (h _ hy).1, fun heq => absurd (heq.trans hy') hne⟩
      · refine ⟨fun heq => absurd heq (h _ hx).1, fun heq => absurd (heq.symm.trans hx') hne⟩
      · exact ⟨fun _ => hx'.trans hy'.symm, fun _ => (h _ hy).2 _ hx⟩

/-- The library before its first call. -/
def bootTrace : TraceSt := ⟨bootPool, false, fun _ => 0, fun _ => false, 0, fun _ => .empty 0⟩

theorem bootTrace_boot (K : KernMalloc) : bootTrace.Boot K :=
  ⟨bootPool_ok K, rfl, fun _ => rfl, rfl⟩

/-- A first call by thread 1 and two calls by thread 2: each has a cache of its own. -/
theorem trace_cache_two_threads :
    (getAll bumpKernel [1, 2, 2] bootTrace).1 = .ok [0x100fe0, 0x141fe0, 0x141fe0] ∧
      OneLaterThread [1, 2, 2] ∧ ThreadSpecific [1, 2, 2] [0x100fe0, 0x141fe0, 0x141fe0] := by
  have hrun : (getAll bumpKernel [1, 2, 2] bootTrace).1 = .ok [0x100fe0, 0x141fe0, 0x141fe0] := by
    decide +kernel
  have hone : OneLaterThread [1, 2, 2] := by
    intro u hu
    simp_all
  refine ⟨hrun, hone, ?_⟩
  have hnonnull : ∀ c ∈ ([0x100fe0, 0x141fe0, 0x141fe0] : List Word), c ≠ 0 := by simp
  have hiff := trace_cache_thread_specific_iff bumpKernel (bootTrace_boot bumpKernel)
    (Act.run_of_outcome hrun) hnonnull
  exact hiff.2 hone

/-- One call each by three threads: the last two are given the same cache. -/
theorem trace_cache_shared :
    bootTrace.Boot bumpKernel ∧
      (getAll bumpKernel [1, 2, 3] bootTrace).1 = .ok [0x100fe0, 0x141fe0, 0x141fe0] ∧
      ¬ ThreadSpecific [1, 2, 3] [0x100fe0, 0x141fe0, 0x141fe0] :=
  ⟨bootTrace_boot _, by decide +kernel, by decide⟩

end LibunwindKern
