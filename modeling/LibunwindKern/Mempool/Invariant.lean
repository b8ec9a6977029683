import LibunwindKern.Mempool.Mempool
import Mathlib.Tactic.Ring

/-!
# The free objects and the allocated objects of a pool

The invariant of a pool (`PoolInv`) speaks about two lists: `free`, which is what is linked
in memory from `pool->free_list`, and `live`, the objects the callers hold. It says that
the objects of both lists are pairwise apart, that each lies aligned inside a block of the
pool, and that together they are as many as the blocks have room for. The counter
`num_free` is the length of the free list modulo `2 ^ 32`.

* `expandMemory_spec`: `expand` gets a block that overlaps nothing that exists.
* `addMemoryLoop_spec`: the loop that carves a block into objects.
* `PoolRun.inv`: the invariant holds after every run of `mempool_alloc` and
  `mempool_free`, with the callers writing to what they hold in between.
* `mempool_never_hands_out_twice`: the result.
-/

namespace LibunwindKern

open CProg ByteMem

/-! ### Rounding -/

private theorem toNat_zero : (0 : Word).toNat = 0 := rfl

private theorem toNat_one : (1 : Word).toNat = 1 := rfl

/-- `UNW_ALIGN` rounds up to a multiple of a power of two. -/
theorem toNat_unwAlign {x : Word} {k : ℕ} (hk : k < 64) (hx : x.toNat + 2 ^ k ≤ 2 ^ 64) :
    (unwAlign x (BitVec.ofNat 64 (2 ^ k))).toNat = (x.toNat + 2 ^ k - 1) / 2 ^ k * 2 ^ k := by
  have hpos : 0 < 2 ^ k := Nat.two_pow_pos k
  have hlt : 2 ^ k < 2 ^ 64 := Nat.pow_lt_pow_right (by omega) hk
  have hone : BitVec.ofNat 64 (2 ^ k) - 1 = BitVec.ofNat 64 (2 ^ k - 1) := by
    apply BitVec.eq_of_toNat_eq
    rw [BitVec.toNat_sub, BitVec.toNat_ofNat, BitVec.toNat_ofNat, toNat_one]
    omega
  -- the hypothesis excludes the only way in which the sum could wrap
  have hsum : (x + BitVec.ofNat 64 (2 ^ k) - 1).toNat = x.toNat + 2 ^ k - 1 := by
    rw [BitVec.toNat_sub, BitVec.toNat_add, BitVec.toNat_ofNat, toNat_one]
    omega
  unfold unwAlign
  rw [hone, toNat_and_not_low, hsum]

/-- Rounding up keeps what is there and ends on a multiple. -/
theorem unwAlign_spec {x : Word} {k : ℕ} (hk : k < 64) (hx : x.toNat + 2 ^ k ≤ 2 ^ 64) :
    x.toNat ≤ (unwAlign x (BitVec.ofNat 64 (2 ^ k))).toNat ∧
      (unwAlign x (BitVec.ofNat 64 (2 ^ k))).toNat < x.toNat + 2 ^ k ∧
      2 ^ k ∣ (unwAlign x (BitVec.ofNat 64 (2 ^ k))).toNat := by
  have hpos : 0 < 2 ^ k := Nat.two_pow_pos k
  have hdiv := Nat.div_add_mod (x.toNat + 2 ^ k - 1) (2 ^ k)
  have hmod := Nat.mod_lt (x.toNat + 2 ^ k - 1) hpos
  rw [toNat_unwAlign hk hx, Nat.mul_comm]
  refine ⟨by omega, by omega, Nat.dvd_mul_right _ _⟩

/-! ### The invariant -/

/-- The memory below a pool: the emergency memory is used from the bottom up, and the
unused part overlaps no block. -/
structure PoolSt.Ok (K : KernMalloc) (s : PoolSt) : Prop where
  page : s.pgSize = 0 ∨ s.pgSize = pageSize
  pos_aligned : s.sosMemoryFreepos.toNat % 16 = 0
  pos_le : s.sosMemoryFreepos.toNat ≤ 16384
  apart_sos : ∀ b ∈ s.blocks, b.Apart
    ⟨K.sosMemory.toNat + s.sosMemoryFreepos.toNat, 16384 - s.sosMemoryFreepos.toNat⟩
  block_end : ∀ b ∈ s.blocks, b.fin < 2 ^ 64

/-- The sizes of a pool. -/
structure Mempool.Ok (p : Mempool) : Prop where
  aligned : p.objSize.toNat % 16 = 0
  pos : 16 ≤ p.objSize.toNat
  le : p.objSize.toNat ≤ 2 ^ 32
  le_chunk : p.objSize.toNat ≤ p.chunkSize.toNat

/-- An object of the pool: aligned, and inside one of the pool's blocks. -/
structure PoolSt.Object (s : PoolSt) (o : Word) : Prop where
  pos : o ≠ 0
  aligned : o.toNat % 16 = 0
  inside : ∃ b ∈ s.poolBlocks, (extentAt s.pool.objSize.toNat o).Inside b

/-- The part of the invariant that holds while a block is being carved. -/
structure Linked (s : PoolSt) (free live : List Word) : Prop where
  chain : Chain s.mem s.pool.freeList free
  count : s.pool.numFree = BitVec.ofNat 32 free.length
  object : ∀ o ∈ free ++ live, s.Object o
  apart : (free ++ live).Pairwise (ApartBy s.pool.objSize.toNat)

/-- **The invariant of a pool.** -/
structure PoolInv (K : KernMalloc) (s : PoolSt) (free live : List Word) : Prop where
  ok : s.Ok K
  page : s.pgSize = pageSize
  sizes : s.pool.Ok
  sub : ∀ b ∈ s.poolBlocks, b ∈ s.blocks
  linked : Linked s free live
  total : (free ++ live).length = s.capacity

/-! ### Carving a block -/

/-- Two states of a pool that differ at most in memory and in the free list. -/
structure SameBase (s s' : PoolSt) : Prop where
  pgSize : s'.pgSize = s.pgSize
  freepos : s'.sosMemoryFreepos = s.sosMemoryFreepos
  blocks : s'.blocks = s.blocks
  poolBlocks : s'.poolBlocks = s.poolBlocks
  objSize : s'.pool.objSize = s.pool.objSize
  chunkSize : s'.pool.chunkSize = s.pool.chunkSize

theorem SameBase.refl (s : PoolSt) : SameBase s s := ⟨rfl, rfl, rfl, rfl, rfl, rfl⟩

theorem SameBase.trans {s t u : PoolSt} (h : SameBase s t) (h' : SameBase t u) : SameBase s u :=
  ⟨h'.1.trans h.1, h'.2.trans h.2, h'.3.trans h.3, h'.4.trans h.4, h'.5.trans h.5,
    h'.6.trans h.6⟩

theorem SameBase.ok {K : KernMalloc} {s s' : PoolSt} (h : SameBase s s') (hs : s.Ok K) : s'.Ok K := by
  obtain ⟨h₁, h₂, h₃, h₄, h₅⟩ := hs
  exact ⟨h.pgSize ▸ h₁, h.freepos ▸ h₂, h.freepos ▸ h₃, by rw [h.blocks, h.freepos]; exact h₄,
    h.blocks ▸ h₅⟩

theorem SameBase.sizes {s s' : PoolSt} (h : SameBase s s') (hs : s.pool.Ok) : s'.pool.Ok := by
  obtain ⟨h₁, h₂, h₃, h₄⟩ := hs
  refine ⟨?_, ?_, ?_, ?_⟩
  · rwa [h.objSize]
  · rwa [h.objSize]
  · rwa [h.objSize]
  · rwa [h.objSize, h.chunkSize]

theorem SameBase.object {s s' : PoolSt} (h : SameBase s s') {o : Word} (ho : s.Object o) :
    s'.Object o := by
  refine ⟨ho.pos, ho.aligned, ?_⟩
  rw [h.objSize, h.poolBlocks]
  exact ho.inside

theorem SameBase.capacity {s s' : PoolSt} (h : SameBase s s') : s'.capacity = s.capacity := by
  unfold PoolSt.capacity
  rw [h.objSize, h.poolBlocks]

/-- An object ends inside the address space. -/
def PoolSt.Fits (s : PoolSt) (o : Word) : Prop := (extentAt s.pool.objSize.toNat o).fin ≤ 2 ^ 64

/-- Putting one object on the free list. -/
theorem freeObject_spec {s : PoolSt} {free live : List Word} {o : Word}
    (h : Linked s free live) (ho : s.Object o)
    (hapart : ∀ o' ∈ free ++ live, ApartBy s.pool.objSize.toNat o o')
    (hsize : 16 ≤ s.pool.objSize.toNat) (hfit : s.Fits o) (hfits : ∀ o' ∈ free, s.Fits o') :
    ∃ s', freeObject o s = (.ok (), s') ∧ SameBase s s' ∧ Linked s' (o :: free) live := by
  -- the link is written into the object, and no other free object overlaps it
  have hdisj : ∀ o' ∈ free, Disjoint64 o o' := fun o' ho' =>
    (hapart o' (List.mem_append_left _ ho')).disjoint64 (by omega) hfit (hfits o' ho')
  have hbase : SameBase s (freeObject o s).2 := ⟨rfl, rfl, rfl, rfl, rfl, rfl⟩
  refine ⟨(freeObject o s).2, rfl, hbase, ?_, ?_, ?_, ?_⟩
  · exact h.chain.cons_store ho.pos hdisj
  · change s.pool.numFree + 1 = _
    rw [h.count, List.length_cons, BitVec.ofNat_add]
    rfl
  · intro o' ho'
    rw [List.cons_append, List.mem_cons] at ho'
    rcases ho' with rfl | ho'
    · exact hbase.object ho
    · exact hbase.object (h.object o' ho')
  · rw [hbase.objSize, List.cons_append, List.pairwise_cons]
    exact ⟨hapart, h.apart⟩

/-- What the loop of `add_memory` has still to carve: the addresses from `obj` to `e`, at
the end of a block of the pool. -/
structure Uncarved (s : PoolSt) (free live : List Word) (obj : Word) (e : ℕ) : Prop where
  pos : obj ≠ 0
  aligned : obj.toNat % 16 = 0
  le : obj.toNat ≤ e
  lt : e < 2 ^ 64
  block : ∃ b ∈ s.poolBlocks, b.base ≤ obj.toNat ∧ e ≤ b.fin
  apart : ∀ o ∈ free ++ live,
    (extentAt s.pool.objSize.toNat o).Apart ⟨obj.toNat, e - obj.toNat⟩
  fits : ∀ o ∈ free, s.Fits o

/-- One turn: the first object of the rest goes on the free list. -/
theorem Uncarved.turn {s : PoolSt} {free live : List Word} {obj : Word} {e : ℕ}
    (hu : Uncarved s free live obj e) (h : Linked s free live) (hp : s.pool.Ok)
    (hroom : obj.toNat + s.pool.objSize.toNat ≤ e) :
    ∃ s', freeObject obj s = (.ok (), s') ∧ SameBase s s' ∧ Linked s' (obj :: free) live ∧
      Uncarved s' (obj :: free) live (obj + s.pool.objSize) e := by
  obtain ⟨b, hb, hbase, hfin⟩ := hu.block
  have hlt := hu.lt
  have hal := hu.aligned
  have hal' := hp.aligned
  have hpos := hp.pos
  have hobj : s.Object obj :=
    ⟨hu.pos, hu.aligned, b, hb, hbase, by unfold Extent.fin extentAt at *; dsimp only; omega⟩
  have hfit : s.Fits obj := by
    unfold PoolSt.Fits Extent.fin extentAt
    dsimp only
    omega
  -- the object is the first part of what is left
  have hfirst : (extentAt s.pool.objSize.toNat obj).Inside ⟨obj.toNat, e - obj.toNat⟩ :=
    ⟨Nat.le_refl _, by unfold Extent.fin extentAt; dsimp only; omega⟩
  have hapart : ∀ o ∈ free ++ live, ApartBy s.pool.objSize.toNat obj o := fun o ho =>
    ((hu.apart o ho).mono ⟨Nat.le_refl _, Nat.le_refl _⟩ hfirst).symm
  obtain ⟨s', hrun, hsame, hlinked⟩ := freeObject_spec h hobj hapart hpos hfit hu.fits
  -- the next one starts where it ends, below the end of the block
  have hnext : (obj + s.pool.objSize).toNat = obj.toNat + s.pool.objSize.toNat := by
    rw [BitVec.toNat_add, Nat.mod_eq_of_lt (by omega)]
  refine ⟨s', hrun, hsame, hlinked, ?_, ?_, ?_, hlt, ?_, ?_, ?_⟩
  · intro hzero
    have := congrArg BitVec.toNat hzero
    rw [hnext, toNat_zero] at this
    omega
  · omega
  · omega
  · rw [hsame.poolBlocks]
    exact ⟨b, hb, by omega, hfin⟩
  · rw [hsame.objSize, hnext]
    intro o ho
    rw [List.cons_append, List.mem_cons] at ho
    rcases ho with rfl | ho
    · exact Or.inl (Nat.le_refl _)
    · refine (hu.apart o ho).mono ⟨Nat.le_refl _, Nat.le_refl _⟩ ⟨?_, ?_⟩
      · dsimp only
        omega
      · unfold Extent.fin
        dsimp only
        omega
  · intro o ho
    unfold PoolSt.Fits
    rw [hsame.objSize]
    rcases List.mem_cons.1 ho with rfl | ho
    · exact hfit
    · exact hu.fits o ho

/-- **The loop of `add_memory`.** The induction is on the number of tests; it ends because
every turn takes one object from the rest. -/
theorem addMemoryLoop_spec {e : ℕ} {limit : Word} {live : List Word} (fuel : ℕ) {obj : Word}
    {s : PoolSt} {free : List Word} (hu : Uncarved s free live obj e) (h : Linked s free live)
    (hp : s.pool.Ok) (hlimit : limit.toNat + s.pool.objSize.toNat = e)
    (hfuel : (e - obj.toNat) / s.pool.objSize.toNat < fuel) :
    ∃ s' new, addMemoryLoop limit s.pool.objSize fuel obj s = (.ok (), s') ∧ SameBase s s' ∧
      Linked s' (new ++ free) live ∧
      new.length = (e - obj.toNat) / s.pool.objSize.toNat := by
  induction fuel generalizing obj s free with
  | zero => exact absurd hfuel (Nat.not_lt_zero _)
  | succ fuel ih =>
    have hpos := hp.pos
    by_cases hle : obj ≤ limit
    · -- there is room for one more object
      have hroom : obj.toNat + s.pool.objSize.toNat ≤ e := by
        have := BitVec.le_def.1 hle
        omega
      obtain ⟨s₁, hrun, hsame, hlinked, hu₁⟩ := hu.turn h hp hroom
      have hnext : (obj + s.pool.objSize).toNat = obj.toNat + s.pool.objSize.toNat := by
        have := hu.lt
        rw [BitVec.toNat_add, Nat.mod_eq_of_lt (by omega)]
      -- one object less is to be carved
      have hquot : (e - obj.toNat) / s.pool.objSize.toNat =
          (e - (obj + s.pool.objSize).toNat) / s.pool.objSize.toNat + 1 := by
        rw [hnext, ← Nat.add_div_right _ (by omega)]
        congr 1
        omega
      obtain ⟨s', new, hloop, hsame', hlinked', hlen⟩ := ih hu₁ hlinked (hsame.sizes hp)
        (by rw [hsame.objSize]; exact hlimit) (by rw [hsame.objSize]; omega)
      rw [hsame.objSize] at hloop hlen
      refine ⟨s', new ++ [obj], ?_, hsame.trans hsame', ?_, ?_⟩
      · simp only [addMemoryLoop, if_pos hle]
        rw [Act.bind_of_ok hrun, hloop]
      · rwa [List.append_assoc, List.singleton_append]
      · rw [List.length_append, hlen, List.length_singleton, hquot]
    · -- less than one object is left
      have hless : e - obj.toNat < s.pool.objSize.toNat := by
        have := mt BitVec.le_def.2 hle
        omega
      refine ⟨s, [], ?_, SameBase.refl s, h, ?_⟩
      · simp only [addMemoryLoop, if_neg hle]
      · rw [Nat.div_eq_of_lt hless, List.length_nil]

/-! ### Getting a block -/

/-- A block that overlaps nothing that exists, and nothing but the bookkeeping of the
blocks has changed. -/
structure GotBlock (K : KernMalloc) (s s' : PoolSt) (mem size : Word) : Prop where
  memory : s'.mem = s.mem
  pool : s'.pool = s.pool
  pgSize : s'.pgSize = s.pgSize
  poolBlocks : s'.poolBlocks = s.poolBlocks
  ok : s'.Ok K
  grows : ∀ b ∈ s.blocks, b ∈ s'.blocks
  got : extentAt size.toNat mem ∈ s'.blocks
  fresh : ∀ b ∈ s.blocks, b.Apart (extentAt size.toNat mem)
  pos : mem ≠ 0
  aligned : mem.toNat % 16 = 0
  lt : mem.toNat + size.toNat < 2 ^ 64

/-- A request that is not answered leaves a state with the same blocks. -/
theorem PoolSt.Ok.request {K : KernMalloc} {s : PoolSt} (h : s.Ok K) :
    ({ s with requests := s.requests + 1 } : PoolSt).Ok K :=
  ⟨h.page, h.pos_aligned, h.pos_le, h.apart_sos, h.block_end⟩

theorem GotBlock.of_request {K : KernMalloc} {s s' : PoolSt} {mem size : Word}
    (h : GotBlock K { s with requests := s.requests + 1 } s' mem size) :
    GotBlock K s s' mem size :=
  ⟨h.memory, h.pool, h.pgSize, h.poolBlocks, h.ok, h.grows, h.got, h.fresh, h.pos, h.aligned,
    h.lt⟩

theorem getMemory_spec {K : KernMalloc} {s : PoolSt} (hs : s.Ok K) (size : Word) :
    getMemory K size s = (.ok none, { s with requests := s.requests + 1 }) ∨
      ∃ a s', getMemory K size s = (.ok (some a), s') ∧ GotBlock K s s' a size := by
  unfold getMemory
  cases hm : K.malloc s.requests s.blocks size with
  | none => exact Or.inl rfl
  | some a =>
    have hend := K.malloc_end hm
    -- the unused part of the emergency memory is inside all of it
    have hroom : (⟨K.sosMemory.toNat + s.sosMemoryFreepos.toNat,
        16384 - s.sosMemoryFreepos.toNat⟩ : Extent).Inside (extentAt 16384 K.sosMemory) := by
      have := hs.pos_le
      unfold Extent.Inside Extent.fin extentAt
      dsimp only
      omega
    refine Or.inr ⟨a, _, rfl, rfl, rfl, rfl, rfl, ?_, ?_, ?_, K.malloc_fresh hm, K.malloc_pos hm,
      K.malloc_aligned hm, hend⟩
    · refine ⟨hs.page, hs.pos_aligned, hs.pos_le, ?_, ?_⟩
      · intro b hb
        rcases List.mem_cons.1 hb with rfl | hb
        · exact (K.malloc_sos hm).symm.mono ⟨Nat.le_refl _, Nat.le_refl _⟩ hroom
        · exact hs.apart_sos b hb
      · intro b hb
        rcases List.mem_cons.1 hb with rfl | hb
        · exact hend
        · exact hs.block_end b hb
    · exact fun b hb => List.mem_cons_of_mem _ hb
    · exact List.mem_cons_self

/-- The low four bits of an aligned address are clear. -/
private theorem and_maxAlign_eq_zero {a : Word} (h : a.toNat % 16 = 0) :
    a &&& (maxAlign - 1) = 0 := by
  apply BitVec.eq_of_toNat_eq
  have hmask : (maxAlign - 1).toNat = 2 ^ 4 - 1 := by decide
  rw [BitVec.toNat_and, hmask, Nat.and_two_pow_sub_one_eq_mod, toNat_zero]
  omega

/-- Rounding an aligned size changes nothing. -/
private theorem unwAlign_maxAlign_of_aligned {size : Word} (h : size.toNat % 16 = 0)
    (hle : size.toNat ≤ 2 ^ 32) : unwAlign size maxAlign = size := by
  apply BitVec.eq_of_toNat_eq
  have hround := toNat_unwAlign (x := size) (k := 4) (by omega) (by omega)
  have hmax : maxAlign = BitVec.ofNat 64 (2 ^ 4) := by decide
  rw [hmax, hround]
  omega

/-- Taking a piece of the emergency memory that has room for it. -/
theorem takeSos_gotBlock {K : KernMalloc} {s : PoolSt} (hs : s.Ok K) {size : Word}
    (hal : size.toNat % 16 = 0) (hle : s.sosMemoryFreepos.toNat + size.toNat ≤ 16384) :
    GotBlock K s (takeSos K size s).2 (K.sosMemory + s.sosMemoryFreepos) size := by
  have hpos := hs.pos_le
  have hposal := hs.pos_aligned
  have hsos := K.sos_aligned
  have hend := K.sos_end
  -- neither the address nor the position wraps
  have haddr : (K.sosMemory + s.sosMemoryFreepos).toNat =
      K.sosMemory.toNat + s.sosMemoryFreepos.toNat := by
    rw [BitVec.toNat_add, Nat.mod_eq_of_lt (by omega)]
  have hsum : (s.sosMemoryFreepos + size).toNat = s.sosMemoryFreepos.toNat + size.toNat := by
    rw [BitVec.toNat_add, Nat.mod_eq_of_lt (by omega)]
  refine ⟨rfl, rfl, rfl, rfl, ⟨hs.page, ?_, ?_, ?_, ?_⟩, ?_, ?_, ?_, ?_, ?_, ?_⟩
  · change (s.sosMemoryFreepos + size).toNat % 16 = 0
    omega
  · change (s.sosMemoryFreepos + size).toNat ≤ 16384
    omega
  · intro b hb
    change b.Apart ⟨K.sosMemory.toNat + (s.sosMemoryFreepos + size).toNat,
      16384 - (s.sosMemoryFreepos + size).toNat⟩
    rw [hsum]
    rcases List.mem_cons.1 hb with rfl | hb
    · -- the new block ends where the unused part now begins
      refine Or.inl ?_
      unfold Extent.fin extentAt
      dsimp only
      omega
    · refine (hs.apart_sos b hb).mono ⟨Nat.le_refl _, Nat.le_refl _⟩ ⟨?_, ?_⟩
      · dsimp only
        omega
      · unfold Extent.fin
        dsimp only
        omega
  · intro b hb
    rcases List.mem_cons.1 hb with rfl | hb
    · unfold Extent.fin extentAt
      dsimp only
      omega
    · exact hs.block_end b hb
  · exact fun b hb => List.mem_cons_of_mem _ hb
  · exact List.mem_cons_self
  · intro b hb
    refine (hs.apart_sos b hb).mono ⟨Nat.le_refl _, Nat.le_refl _⟩ ⟨?_, ?_⟩
    · exact Nat.le_of_eq haddr.symm
    · unfold Extent.fin extentAt
      dsimp only
      omega
  · intro hzero
    have h0 := congrArg BitVec.toNat hzero
    rw [haddr, toNat_zero] at h0
    exact K.sos_pos (BitVec.eq_of_toNat_eq (by rw [toNat_zero]; omega))
  · omega
  · omega

theorem assertThat_of_true {a : Assertion} {p : Bool} (h : p = true) (s : PoolSt) :
    assertThat a p s = (.ok (), s) := by
  rw [assertThat, h, if_pos rfl]

theorem assertThat_of_false {a : Assertion} {p : Bool} (h : p = false) (s : PoolSt) :
    assertThat a p s = (.err a, s) := by
  rw [assertThat, h, if_neg Bool.false_ne_true]

/-- The emergency memory gives one object, or its last assertion fails. -/
theorem sosAlloc_spec {K : KernMalloc} {s : PoolSt} (hs : s.Ok K) {size : Word}
    (hal : size.toNat % 16 = 0) (hle : size.toNat ≤ 2 ^ 32) :
    (∃ s', sosAlloc K size s = (.err .sosRoom, s')) ∨
      ∃ a s', sosAlloc K size s = (.ok a, s') ∧ GotBlock K s s' a size := by
  have hpos := hs.pos_le
  have hposal := hs.pos_aligned
  have hsos := K.sos_aligned
  have hend := K.sos_end
  -- so the two assertions on the alignment hold
  have haddr : (K.sosMemory + s.sosMemoryFreepos).toNat % 16 = 0 := by
    rw [BitVec.toNat_add]
    omega
  have htake : takeSos K size s = (.ok s.sosMemoryFreepos, (takeSos K size s).2) := rfl
  unfold sosAlloc
  rw [Act.bind_of_ok (assertThat_of_true (decide_eq_true (and_maxAlign_eq_zero hsos)) s),
    unwAlign_maxAlign_of_aligned hal hle, Act.bind_of_ok htake,
    Act.bind_of_ok (assertThat_of_true (decide_eq_true (and_maxAlign_eq_zero haddr)) _)]
  by_cases hroom : s.sosMemoryFreepos + size ≤ sosMemorySize
  · refine Or.inr ⟨K.sosMemory + s.sosMemoryFreepos, (takeSos K size s).2, ?_, ?_⟩
    · rw [Act.bind_of_ok (assertThat_of_true (decide_eq_true hroom) _), Act.pure_apply]
    · have hle' := BitVec.le_def.1 hroom
      rw [BitVec.toNat_add, Nat.mod_eq_of_lt (by omega)] at hle'
      exact takeSos_gotBlock hs hal hle'
  · -- the position was counted up already
    exact Or.inl ⟨_, Act.bind_of_err (assertThat_of_false (decide_eq_false hroom) _)⟩

/-- **What `expand` gets.** It is a block with room for an object that overlaps nothing
that exists, unless the emergency memory is used up. -/
theorem expandMemory_spec {K : KernMalloc} {s : PoolSt} (hs : s.Ok K) (hp : s.pool.Ok)
    (hpage : s.pgSize = pageSize) :
    (∃ s', expandMemory K s = (.err .sosRoom, s')) ∨
      ∃ mem size s', expandMemory K s = (.ok (mem, size), s') ∧ GotBlock K s s' mem size ∧
        s.pool.objSize.toNat ≤ size.toNat := by
  have hle := hp.le
  -- whole pages for one object are enough for it
  have hpages : s.pool.objSize.toNat ≤ (unwAlign s.pool.objSize s.pgSize).toNat := by
    rw [hpage]
    exact (unwAlign_spec (k := 12) (by omega) (by omega)).1
  unfold expandMemory
  rcases getMemory_spec hs s.pool.chunkSize with hnone | ⟨a, s', hsome, hgot⟩
  · rw [Act.bind_of_ok hnone]
    dsimp only
    rcases getMemory_spec hs.request (unwAlign s.pool.objSize s.pgSize) with
      hnone' | ⟨a, s', hsome, hgot⟩
    · -- neither a chunk nor whole pages
      rw [Act.bind_of_ok hnone']
      dsimp only
      rcases sosAlloc_spec hs.request.request hp.aligned hle with ⟨s', herr⟩ | ⟨a, s', hok, hgot⟩
      · exact Or.inl ⟨s', Act.bind_of_err herr⟩
      · exact Or.inr ⟨a, s.pool.objSize, s', Act.bind_of_ok hok,
          hgot.of_request.of_request, Nat.le_refl _⟩
    · exact Or.inr ⟨a, _, s', Act.bind_of_ok hsome, hgot.of_request, hpages⟩
  · exact Or.inr ⟨a, s.pool.chunkSize, s', Act.bind_of_ok hsome, hgot, hp.le_chunk⟩

/-! ### The operations keep the invariant -/

/-- Every object ends inside the address space, as its block does. -/
theorem PoolInv.fits {K : KernMalloc} {s : PoolSt} {free live : List Word}
    (h : PoolInv K s free live) : ∀ o ∈ free ++ live, s.Fits o := by
  intro o ho
  obtain ⟨b, hb, -, hfin⟩ := (h.linked.object o ho).inside
  have hend := h.ok.block_end b (h.sub b hb)
  unfold PoolSt.Fits
  omega

/-- The objects that exist are apart from a block that is added to the pool. -/
theorem PoolInv.note {K : KernMalloc} {s t : PoolSt} {free live : List Word} {mem size : Word}
    (h : PoolInv K s free live) (hgot : GotBlock K s t mem size) :
    Linked (notePoolBlock mem size t).2 free live ∧
      Uncarved (notePoolBlock mem size t).2 free live mem (mem.toNat + size.toNat) := by
  have hsize : (notePoolBlock mem size t).2.pool = s.pool := hgot.pool
  have hblocks : (notePoolBlock mem size t).2.poolBlocks =
      extentAt size.toNat mem :: s.poolBlocks := congrArg _ hgot.poolBlocks
  have hmem : (notePoolBlock mem size t).2.mem = s.mem := hgot.memory
  -- a block that is noted changes neither the memory nor the pool
  have hlinked := h.linked
  refine ⟨⟨?_, ?_, ?_, ?_⟩, hgot.pos, hgot.aligned, Nat.le_add_right _ _, hgot.lt, ?_, ?_, ?_⟩
  · rw [hsize, hmem]
    exact hlinked.chain
  · rw [hsize]
    exact hlinked.count
  · intro o ho
    obtain ⟨b, hb, hin⟩ := (hlinked.object o ho).inside
    refine ⟨(hlinked.object o ho).pos, (hlinked.object o ho).aligned, b, ?_, ?_⟩
    · rw [hblocks]
      exact List.mem_cons_of_mem _ hb
    · rwa [hsize]
  · rw [hsize]
    exact hlinked.apart
  · rw [hblocks]
    exact ⟨_, List.mem_cons_self, Nat.le_refl _, Nat.le_refl _⟩
  · rw [hsize, Nat.add_sub_cancel_left]
    intro o ho
    obtain ⟨b, hb, hin⟩ := (hlinked.object o ho).inside
    exact (hgot.fresh b (h.sub b hb)).mono hin ⟨Nat.le_refl _, Nat.le_refl _⟩
  · intro o ho
    unfold PoolSt.Fits
    rw [hsize]
    exact h.fits o (List.mem_append_left _ ho)

/-- A pool that has only grown, by blocks that overlap nothing that existed before. -/
structure GrownBy (s s' : PoolSt) : Prop where
  objSize : s'.pool.objSize = s.pool.objSize
  grows : ∀ b ∈ s.blocks, b ∈ s'.blocks
  fresh : ∀ b ∈ s'.poolBlocks, b ∈ s.poolBlocks ∨ ∀ c ∈ s.blocks, c.Apart b

theorem GrownBy.refl (s : PoolSt) : GrownBy s s := ⟨rfl, fun _ hb => hb, fun _ hb => Or.inl hb⟩

theorem GrownBy.trans {s t u : PoolSt} (h : GrownBy s t) (h' : GrownBy t u) : GrownBy s u := by
  refine ⟨h'.objSize.trans h.objSize, fun b hb => h'.grows b (h.grows b hb), ?_⟩
  intro b hb
  rcases h'.fresh b hb with hb | hb
  · exact h.fresh b hb
  · exact Or.inr fun c hc => hb c (h.grows c hc)

/-- **`expand`** adds at least one object to the free list. -/
theorem expand_spec {K : KernMalloc} {s : PoolSt} {free live : List Word}
    (h : PoolInv K s free live) :
    (∃ s', expand K s = (.err .sosRoom, s')) ∨
      ∃ s' new, expand K s = (.ok (), s') ∧ PoolInv K s' (new ++ free) live ∧ new ≠ [] ∧
        GrownBy s s' := by
  rcases expandMemory_spec h.ok h.sizes h.page with ⟨s', herr⟩ | ⟨mem, size, t, hok, hgot, hle⟩
  · exact Or.inl ⟨s', Act.bind_of_err herr⟩
  · refine Or.inr ?_
    have hpos := h.sizes.pos
    have hlt := hgot.lt
    have hpool : (notePoolBlock mem size t).2.pool = s.pool := hgot.pool
    have hnote : notePoolBlock mem size t = (.ok (), (notePoolBlock mem size t).2) := rfl
    have hblocks : (notePoolBlock mem size t).2.poolBlocks =
        extentAt size.toNat mem :: s.poolBlocks := congrArg _ hgot.poolBlocks
    obtain ⟨hlinked, hun⟩ := h.note hgot
    -- the loop ends at the last address where an object still fits
    have hlimit : (mem + size - s.pool.objSize).toNat + s.pool.objSize.toNat =
        mem.toNat + size.toNat := by
      rw [BitVec.toNat_sub, BitVec.toNat_add]
      omega
    -- and it has a turn for each byte, which is more than it needs
    have hfuel : (mem.toNat + size.toNat - mem.toNat) / s.pool.objSize.toNat < size.toNat + 1 := by
      rw [Nat.add_sub_cancel_left]
      exact Nat.lt_succ_of_le (Nat.div_le_self _ _)
    obtain ⟨s', new, hloop, hsame, hlinked', hlen⟩ :=
      addMemoryLoop_spec (size.toNat + 1) hun hlinked (by rw [hpool]; exact h.sizes)
        (by rw [hpool]; exact hlimit) (by rw [hpool]; exact hfuel)
    rw [hpool, Nat.add_sub_cancel_left] at hlen
    refine ⟨s', new, ?_, ⟨?_, ?_, ?_, ?_, hlinked', ?_⟩, ?_, ?_⟩
    · unfold expand
      rw [Act.bind_of_ok hok]
      dsimp only
      rw [Act.bind_of_ok hnote, Act.get_bind]
      unfold addMemory
      rw [hpool] at hloop ⊢
      exact hloop
    · exact hsame.ok ⟨hgot.ok.page, hgot.ok.pos_aligned, hgot.ok.pos_le, hgot.ok.apart_sos,
        hgot.ok.block_end⟩
    · exact hsame.pgSize.trans (hgot.pgSize.trans h.page)
    · exact hsame.sizes (by rw [hpool]; exact h.sizes)
    · intro b hb
      rw [hsame.blocks]
      rw [hsame.poolBlocks, hblocks] at hb
      rcases List.mem_cons.1 hb with rfl | hb
      · exact hgot.got
      · exact hgot.grows b (h.sub b hb)
    · -- the block has room for as many objects as were carved
      have htotal := h.total
      rw [hsame.capacity]
      unfold PoolSt.capacity at htotal ⊢
      rw [hpool, hblocks, List.map_cons, List.sum_cons, ← htotal, List.append_assoc,
        List.length_append, hlen]
      rfl
    · intro hnil
      rw [hnil, List.length_nil] at hlen
      have := Nat.div_pos hle (by omega)
      omega
    · refine ⟨by rw [hsame.objSize, hpool], ?_, ?_⟩
      · intro b hb
        rw [hsame.blocks]
        exact hgot.grows b hb
      · intro b hb
        rw [hsame.poolBlocks, hblocks] at hb
        rcases List.mem_cons.1 hb with rfl | hb
        · exact Or.inr hgot.fresh
        · exact Or.inl hb

/-- The invariant with an object moved between the lists, in a state with the same
blocks. -/
theorem PoolInv.move {K : KernMalloc} {s s' : PoolSt} {free live free' live' : List Word}
    (h : PoolInv K s free live) (hsame : SameBase s s') (hperm : (free' ++ live').Perm (free ++ live))
    (hchain : Chain s'.mem s'.pool.freeList free')
    (hcount : s'.pool.numFree = BitVec.ofNat 32 free'.length) : PoolInv K s' free' live' := by
  refine ⟨hsame.ok h.ok, hsame.pgSize.trans h.page, hsame.sizes h.sizes, ?_,
    ⟨hchain, hcount, ?_, ?_⟩, ?_⟩
  · rw [hsame.poolBlocks, hsame.blocks]
    exact h.sub
  · exact fun o ho => hsame.object (h.linked.object o (hperm.mem_iff.1 ho))
  · rw [hsame.objSize]
    exact (hperm.pairwise_iff ApartBy.symm).2 h.linked.apart
  · rw [hsame.capacity, hperm.length_eq]
    exact h.total

/-- Taking the first object off the free list. -/
theorem PoolInv.pop {K : KernMalloc} {s : PoolSt} {o : Word} {free live : List Word}
    (h : PoolInv K s (o :: free) live) :
    popFree s = (.ok o, (popFree s).2) ∧ PoolInv K (popFree s).2 free (o :: live) ∧ o ∉ live := by
  obtain ⟨hhead, -, hrest⟩ := h.linked.chain
  refine ⟨?_, h.move ⟨rfl, rfl, rfl, rfl, rfl, rfl⟩ List.perm_middle ?_ ?_, ?_⟩
  · rw [← hhead]
    rfl
  · change Chain s.mem (load64 s.mem s.pool.freeList) free
    rw [hhead]
    exact hrest
  · change s.pool.numFree - 1 = _
    rw [h.linked.count, List.length_cons, BitVec.ofNat_add]
    exact BitVec.add_sub_cancel _ _
  · intro hmem
    -- an object that is free and allocated would overlap itself
    have hapart := h.linked.apart
    rw [List.cons_append, List.pairwise_cons] at hapart
    exact not_apartBy_self (by have := h.sizes.pos; omega) o
      (hapart.1 o (List.mem_append_right _ hmem))

/-- After the first part of `mempool_alloc` the free list is not empty. -/
theorem refill_spec {K : KernMalloc} {s : PoolSt} {free live : List Word}
    (h : PoolInv K s free live) :
    (∃ s', refill K s = (.err .sosRoom, s')) ∨
      ∃ t free', refill K s = (.ok (), t) ∧ PoolInv K t free' live ∧ free' ≠ [] ∧
        GrownBy s t := by
  unfold refill
  by_cases hle : s.pool.numFree ≤ s.pool.reserve
  · rw [if_pos hle]
    rcases expand_spec h with herr | ⟨t, new, hok, hinv, hne, hgrown⟩
    · exact Or.inl herr
    · exact Or.inr ⟨t, new ++ free, hok, hinv, by simp [hne], hgrown⟩
  · -- the counter is greater than the reserve, so it is not 0
    rw [if_neg hle]
    refine Or.inr ⟨s, free, rfl, h, ?_, GrownBy.refl s⟩
    rintro rfl
    refine hle ?_
    rw [h.linked.count]
    exact BitVec.le_def.2 (Nat.zero_le _)

/-- A counter that is 0 while an object is free has wrapped. -/
theorem PoolInv.capacity_of_numFree {K : KernMalloc} {s : PoolSt} {o : Word} {free live : List Word}
    (h : PoolInv K s (o :: free) live) (hzero : ¬0 < s.pool.numFree) : 2 ^ 32 ≤ s.capacity := by
  have hcount := congrArg BitVec.toNat h.linked.count
  have hnat : s.pool.numFree.toNat = 0 :=
    Nat.eq_zero_of_not_pos fun hlt => hzero (BitVec.lt_def.2 hlt)
  have htotal := h.total
  rw [hnat, BitVec.toNat_ofNat] at hcount
  rw [List.length_append] at htotal
  rw [List.length_cons] at hcount htotal
  omega

/-- **`mempool_alloc`** hands out an object that is not allocated. The assertion on
`num_free` can only fail when the counter has wrapped. -/
theorem mempoolAlloc_spec {K : KernMalloc} {s : PoolSt} {free live : List Word}
    (h : PoolInv K s free live) :
    (∃ s', mempoolAlloc K s = (.err .sosRoom, s')) ∨
      (∃ s', mempoolAlloc K s = (.err .numFree, s') ∧ 2 ^ 32 ≤ s'.capacity) ∨
      ∃ o s' free', mempoolAlloc K s = (.ok o, s') ∧ PoolInv K s' free' (o :: live) ∧ o ∉ live ∧
        GrownBy s s' := by
  unfold mempoolAlloc
  rcases refill_spec h with ⟨s', herr⟩ | ⟨t, free₁, hok, hinv, hne, hgrown⟩
  · exact Or.inl ⟨s', Act.bind_of_err herr⟩
  · refine Or.inr ?_
    rw [Act.bind_of_ok hok]
    obtain ⟨o, free', rfl⟩ := List.exists_cons_of_ne_nil hne
    by_cases hpos : 0 < t.pool.numFree
    · have hassert : assertNumFree t = (.ok (), t) := assertThat_of_true (decide_eq_true hpos) t
      obtain ⟨hpop, hinv', hnot⟩ := hinv.pop
      refine Or.inr ⟨o, (popFree t).2, free', ?_, hinv', hnot,
        hgrown.trans ⟨rfl, fun _ hb => hb, fun _ hb => Or.inl hb⟩⟩
      rw [Act.bind_of_ok hassert, hpop]
    · have hassert : assertNumFree t = (.err .numFree, t) :=
        assertThat_of_false (decide_eq_false hpos) t
      exact Or.inl ⟨t, Act.bind_of_err hassert, hinv.capacity_of_numFree hpos⟩

/-- **`mempool_free`** of an allocated object. -/
theorem mempoolFree_spec {K : KernMalloc} {s : PoolSt} {free live : List Word} {o : Word}
    (h : PoolInv K s free live) (ho : o ∈ live) :
    mempoolFree o s = (.ok (), (mempoolFree o s).2) ∧
      PoolInv K (mempoolFree o s).2 (o :: free) (live.erase o) := by
  -- the object moves from one list to the other
  have hperm : (free ++ live).Perm (o :: (free ++ live.erase o)) :=
    ((List.perm_cons_erase ho).append_left free).trans List.perm_middle
  have hapart := (hperm.pairwise_iff ApartBy.symm).1 h.linked.apart
  rw [List.pairwise_cons] at hapart
  have hpos := h.sizes.pos
  refine ⟨rfl, h.move ⟨rfl, rfl, rfl, rfl, rfl, rfl⟩ hperm.symm ?_ ?_⟩
  · refine h.linked.chain.cons_store (h.linked.object o (List.mem_append_right _ ho)).pos ?_
    intro o' ho'
    exact (hapart.1 o' (List.mem_append_left _ ho')).disjoint64 (by omega)
      (h.fits o (List.mem_append_right _ ho)) (h.fits o' (List.mem_append_left _ ho'))
  · change s.pool.numFree + 1 = _
    rw [h.linked.count, List.length_cons, BitVec.ofNat_add]
    rfl

/-- The default reserve is between one object and a quarter of a page of them. -/
private theorem defaultReserve_bounds {objSize : Word} (h : 16 ≤ objSize.toNat) :
    1 ≤ (defaultReserve pageSize objSize).toNat ∧
      (defaultReserve pageSize objSize).toNat ≤ 64 := by
  have hpage : pageSize.toNat = 4096 := by decide
  have hfour : (4 : Word).toNat = 4 := by decide
  have hquot : (pageSize / objSize / 4).toNat = 4096 / objSize.toNat / 4 := by
    rw [BitVec.toNat_udiv, BitVec.toNat_udiv, hpage, hfour]
  have hle : 4096 / objSize.toNat ≤ 4096 / 16 := Nat.div_le_div_left h (by omega)
  unfold defaultReserve
  split
  · decide
  · next hne =>
    have : (pageSize / objSize / 4).toNat ≠ 0 := fun h0 =>
      hne (BitVec.eq_of_toNat_eq (by rw [h0, toNat_zero]))
    omega

/-- The sizes `mempool_init` computes. -/
theorem mempoolSetup_sizes {size : Word} (h0 : size ≠ 0) (hsize : size.toNat < 2 ^ 32)
    {s : PoolSt} {K : KernMalloc} (hs : s.Ok K) :
    (mempoolSetup size 0 s).2.pgSize = pageSize ∧ (mempoolSetup size 0 s).2.pool.Ok := by
  have hpos : 0 < size.toNat :=
    Nat.pos_of_ne_zero fun hz => h0 (BitVec.eq_of_toNat_eq (by rw [hz, toNat_zero]))
  have hpage : (if s.pgSize = 0 then pageSize else s.pgSize) = pageSize := by
    rcases hs.page with h | h
    · rw [if_pos h]
    · rw [h, if_neg (by decide)]
  have hmax : maxAlign = BitVec.ofNat 64 (2 ^ 4) := by decide
  have hpg : pageSize = BitVec.ofNat 64 (2 ^ 12) := by decide
  obtain ⟨hle, hlt, hdvd⟩ := unwAlign_spec (x := size) (k := 4) (by omega) (by omega)
  rw [← hmax] at hle hlt hdvd
  have hobj : 16 ≤ (unwAlign size maxAlign).toNat := by omega
  obtain ⟨hres, hres'⟩ := defaultReserve_bounds hobj
  -- the products stay far below the word size
  have hprod : (defaultReserve pageSize (unwAlign size maxAlign)).toNat *
      (unwAlign size maxAlign).toNat ≤ 64 * 2 ^ 32 := Nat.mul_le_mul hres' (by omega)
  have hprod' : 1 * (unwAlign size maxAlign).toNat ≤
      (defaultReserve pageSize (unwAlign size maxAlign)).toNat *
        (unwAlign size maxAlign).toNat := Nat.mul_le_mul_right _ hres
  have htwo : (2 : Word).toNat = 2 := by decide
  have hchunk : (2 * defaultReserve pageSize (unwAlign size maxAlign) *
      unwAlign size maxAlign).toNat = 2 * ((defaultReserve pageSize
        (unwAlign size maxAlign)).toNat * (unwAlign size maxAlign).toNat) := by
    rw [BitVec.mul_assoc, BitVec.toNat_mul, BitVec.toNat_mul, htwo]
    omega
  refine ⟨hpage, ?_, hobj, ?_, ?_⟩
  · exact Nat.mod_eq_zero_of_dvd hdvd
  · change (unwAlign size maxAlign).toNat ≤ 2 ^ 32
    omega
  · change (unwAlign size maxAlign).toNat ≤ (unwAlign (2 * (if (0 : Word) = 0 then
      defaultReserve (if s.pgSize = 0 then pageSize else s.pgSize) (unwAlign size maxAlign) else 0) *
      unwAlign size maxAlign) (if s.pgSize = 0 then pageSize else s.pgSize)).toNat
    rw [hpage, if_pos rfl]
    have hround := (unwAlign_spec (x := 2 * defaultReserve pageSize (unwAlign size maxAlign) *
      unwAlign size maxAlign) (k := 12) (by omega) (by omega)).1
    rw [← hpg] at hround
    omega

/-- **`mempool_init`** sets up a pool without allocated objects. -/
theorem mempoolInit_spec {K : KernMalloc} {s : PoolSt} {size : Word} (h0 : size ≠ 0)
    (hsize : size.toNat < 2 ^ 32) (hs : s.Ok K) :
    (∃ s', mempoolInit K size 0 s = (.err .sosRoom, s')) ∨
      ∃ s' free, mempoolInit K size 0 s = (.ok (), s') ∧ PoolInv K s' free [] ∧
        s'.pool.objSize = unwAlign size maxAlign ∧ (∀ b ∈ s.blocks, b ∈ s'.blocks) ∧
        ∀ b ∈ s'.poolBlocks, ∀ c ∈ s.blocks, c.Apart b := by
  obtain ⟨hpage, hsizes⟩ := mempoolSetup_sizes h0 hsize hs
  have hsetup : mempoolSetup size 0 s = (.ok (), (mempoolSetup size 0 s).2) := rfl
  -- the empty pool
  have hinv : PoolInv K (mempoolSetup size 0 s).2 [] [] := by
    refine ⟨⟨Or.inr hpage, hs.pos_aligned, hs.pos_le, hs.apart_sos, hs.block_end⟩, hpage, hsizes,
      ?_, ⟨rfl, rfl, ?_, List.Pairwise.nil⟩, rfl⟩
    · exact fun b hb => absurd hb List.not_mem_nil
    · exact fun o ho => absurd ho List.not_mem_nil
  unfold mempoolInit
  rw [Act.bind_of_ok hsetup]
  rcases expand_spec hinv with herr | ⟨s', new, hok, hinv', -, hgrown⟩
  · exact Or.inl herr
  · refine Or.inr ⟨s', new ++ [], hok, hinv', hgrown.objSize, hgrown.grows, ?_⟩
    intro b hb
    exact (hgrown.fresh b hb).resolve_left List.not_mem_nil

/-! ### Runs -/

/-- What can happen between two calls: the rest of the system may write anywhere but into
the free objects, get memory of its own, and use the emergency memory. -/
structure ClientStep (K : KernMalloc) (s s' : PoolSt) : Prop where
  pool : s'.pool = s.pool
  pgSize : s'.pgSize = s.pgSize
  poolBlocks : s'.poolBlocks = s.poolBlocks
  ok : s'.Ok K
  grows : ∀ b ∈ s.blocks, b ∈ s'.blocks
  free : ∀ free, Chain s.mem s.pool.freeList free → ∀ o ∈ free, ∀ d < s.pool.objSize.toNat,
    s'.mem (o + BitVec.ofNat 64 d) = s.mem (o + BitVec.ofNat 64 d)

/-- The states of a pool set up for objects of `size` bytes, with the objects that are
allocated in them. Only allocated objects are freed. -/
inductive PoolRun (K : KernMalloc) (size : Word) : PoolSt → List Word → Prop
  | init {s s' : PoolSt} (hs : s.Ok K) (hrun : mempoolInit K size 0 s = (.ok (), s')) :
      PoolRun K size s' []
  | alloc {s s' : PoolSt} {live : List Word} {o : Word} (h : PoolRun K size s live)
      (hrun : mempoolAlloc K s = (.ok o, s')) : PoolRun K size s' (o :: live)
  | free {s s' : PoolSt} {live : List Word} {o : Word} (h : PoolRun K size s live)
      (ho : o ∈ live) (hrun : mempoolFree o s = (.ok (), s')) : PoolRun K size s' (live.erase o)
  | client {s s' : PoolSt} {live : List Word} (h : PoolRun K size s live)
      (hstep : ClientStep K s s') : PoolRun K size s' live

theorem ClientStep.inv {K : KernMalloc} {s s' : PoolSt} {free live : List Word}
    (hstep : ClientStep K s s') (h : PoolInv K s free live) : PoolInv K s' free live := by
  have hlinked := h.linked
  have hpos := h.sizes.pos
  refine ⟨hstep.ok, hstep.pgSize.trans h.page, by rw [hstep.pool]; exact h.sizes, ?_,
    ⟨?_, by rw [hstep.pool]; exact hlinked.count, ?_, ?_⟩, ?_⟩
  · intro b hb
    rw [hstep.poolBlocks] at hb
    exact hstep.grows b (h.sub b hb)
  · rw [hstep.pool]
    refine hlinked.chain.frame fun o ho => ?_
    -- the link is the first word of the object
    unfold load64
    rw [loadNat_congr fun d hd => hstep.free free hlinked.chain o ho d (by omega)]
  · intro o ho
    refine ⟨(hlinked.object o ho).pos, (hlinked.object o ho).aligned, ?_⟩
    rw [hstep.poolBlocks, hstep.pool]
    exact (hlinked.object o ho).inside
  · rw [hstep.pool]
    exact hlinked.apart
  · unfold PoolSt.capacity
    rw [hstep.poolBlocks, hstep.pool]
    exact h.total

/-- **The invariant holds in every state of a run.** -/
theorem PoolRun.inv {K : KernMalloc} {size : Word} (h0 : size ≠ 0) (hsize : size.toNat < 2 ^ 32)
    {s : PoolSt} {live : List Word} (h : PoolRun K size s live) :
    (∃ free, PoolInv K s free live) ∧ s.pool.objSize = unwAlign size maxAlign := by
  induction h with
  | init hs hrun =>
    rcases mempoolInit_spec h0 hsize hs with ⟨t, herr⟩ | ⟨t, free, hok, hinv, hobj, -, -⟩
    · rw [hrun] at herr
      cases herr
    · rw [hrun] at hok
      cases hok
      exact ⟨⟨free, hinv⟩, hobj⟩
  | alloc _ hrun ih =>
    -- a call that has returned an object has failed no assertion
    obtain ⟨⟨free, hinv⟩, hobj⟩ := ih
    rcases mempoolAlloc_spec hinv with ⟨t, herr⟩ | ⟨t, herr, -⟩ | ⟨o, t, free', hok, hinv', -, hgrown⟩
    · rw [hrun] at herr
      cases herr
    · rw [hrun] at herr
      cases herr
    · rw [hrun] at hok
      cases hok
      exact ⟨⟨free', hinv'⟩, hgrown.objSize.trans hobj⟩
  | free _ ho hrun ih =>
    obtain ⟨⟨free, hinv⟩, hobj⟩ := ih
    obtain ⟨hok, hinv'⟩ := mempoolFree_spec hinv ho
    rw [hrun] at hok
    cases hok
    rw [hrun] at hinv'
    exact ⟨⟨_, hinv'⟩, by cases hrun; exact hobj⟩
  | client _ hstep ih =>
    obtain ⟨⟨free, hinv⟩, hobj⟩ := ih
    exact ⟨⟨free, hstep.inv hinv⟩, by rw [hstep.pool]; exact hobj⟩

/-- What a pool promises in a state with the allocated objects `live`. -/
def PoolExact (s : PoolSt) (live : List Word) : Prop :=
  ∃ free, Chain s.mem s.pool.freeList free ∧ s.pool.numFree.toNat = free.length ∧
    (free ++ live).Pairwise (ApartBy s.pool.objSize.toNat) ∧
    ∀ o ∈ free ++ live, o.toNat % maxAlign.toNat = 0 ∧
      ∃ b ∈ s.poolBlocks, b ∈ s.blocks ∧ (extentAt s.pool.objSize.toNat o).Inside b

theorem PoolInv.exact {K : KernMalloc} {s : PoolSt} {free live : List Word}
    (h : PoolInv K s free live) (hcap : s.capacity < 2 ^ 32) : PoolExact s live := by
  refine ⟨free, h.linked.chain, ?_, h.linked.apart, ?_⟩
  · have htotal := h.total
    rw [List.length_append] at htotal
    rw [h.linked.count, BitVec.toNat_ofNat, Nat.mod_eq_of_lt (by omega)]
  · intro o ho
    obtain ⟨b, hb, hin⟩ := (h.linked.object o ho).inside
    exact ⟨(h.linked.object o ho).aligned, b, hb, h.sub b hb, hin⟩

/-- **A pool never hands out an object twice.** `mempool_init` returns, and in every state
of every run the free objects and the allocated objects are pairwise disjoint, aligned and
inside a block of the pool, `num_free` counts the free ones, and `mempool_alloc` returns an
object that is not allocated. The one thing that can go wrong is that the emergency memory
is used up (`Assertion.sosRoom`). -/
theorem mempool_never_hands_out_twice (K : KernMalloc) (size : Word) (h0 : size ≠ 0)
    (hsize : size.toNat < 2 ^ 32) :
    (∀ s : PoolSt, s.Ok K → (mempoolInit K size 0 s).1 ≠ .err .sosRoom →
      (mempoolInit K size 0 s).1 = .ok ()) ∧
    ∀ (s : PoolSt) (live : List Word), PoolRun K size s live → s.capacity < 2 ^ 32 →
      s.pool.objSize = unwAlign size maxAlign ∧ PoolExact s live ∧
      ((mempoolAlloc K s).2.capacity < 2 ^ 32 → (mempoolAlloc K s).1 ≠ .err .sosRoom →
        ∃ o, (mempoolAlloc K s).1 = .ok o ∧ o ∉ live) := by
  refine ⟨?_, ?_⟩
  · intro s hs hsos
    rcases mempoolInit_spec h0 hsize hs with ⟨s', herr⟩ | ⟨s', free, hok, -⟩
    · rw [herr] at hsos
      exact absurd rfl hsos
    · rw [hok]
  · intro s live hrun hcap
    obtain ⟨⟨free, hinv⟩, hobj⟩ := hrun.inv h0 hsize
    refine ⟨hobj, hinv.exact hcap, ?_⟩
    intro hcap' hsos
    rcases mempoolAlloc_spec hinv with ⟨s', herr⟩ | ⟨s', herr, hfull⟩ | ⟨o, s', free', hok, -, hnot, -⟩
    · rw [herr] at hsos
      exact absurd rfl hsos
    · rw [herr] at hcap'
      exact absurd hcap' (Nat.not_lt.2 hfull)
    · exact ⟨o, by rw [hok], hnot⟩

/-- Where `bumpKernel` puts the next block. -/
def nextBlock (bs : List Extent) : ℕ := (bs.foldr (fun b n => max b.fin n) 0x100000 + 15) / 16 * 16

theorem fin_le_nextBlock {bs : List Extent} {b : Extent} (hb : b ∈ bs) :
    b.fin ≤ nextBlock bs := by
  have hfold : b.fin ≤ bs.foldr (fun b n => max b.fin n) 0x100000 := by
    induction bs with
    | nil => exact absurd hb List.not_mem_nil
    | cons c bs ih =>
      rw [List.foldr_cons]
      rcases List.mem_cons.1 hb with rfl | hb
      · exact Nat.le_max_left _ _
      · exact Nat.le_trans (ih hb) (Nat.le_max_right _ _)
  unfold nextBlock
  omega

theorem le_nextBlock (bs : List Extent) : 0x100000 ≤ nextBlock bs := by
  have hfold : 0x100000 ≤ bs.foldr (fun b n => max b.fin n) 0x100000 := by
    induction bs with
    | nil => exact Nat.le_refl _
    | cons c bs ih => exact Nat.le_trans ih (Nat.le_max_right _ _)
  unfold nextBlock
  omega

/-- A kernel that hands out blocks one after the other from 1 MiB on. -/
def bumpKernel : KernMalloc where
  malloc _ bs size :=
    if nextBlock bs + size.toNat < 2 ^ 64 then some (BitVec.ofNat 64 (nextBlock bs)) else none
  sosMemory := 0x8000
  sos_pos := by decide
  sos_aligned := by decide
  sos_end := by decide
  malloc_pos := by
    intro n bs size a h
    split at h
    · next hlt =>
      cases h
      intro hzero
      have := congrArg BitVec.toNat hzero
      rw [BitVec.toNat_ofNat, toNat_zero] at this
      have := le_nextBlock bs
      omega
    · cases h
  malloc_aligned := by
    intro n bs size a h
    split at h
    · cases h
      rw [BitVec.toNat_ofNat]
      unfold nextBlock
      omega
    · cases h
  malloc_end := by
    intro n bs size a h
    split at h
    · cases h
      rw [BitVec.toNat_ofNat]
      omega
    · cases h
  malloc_fresh := by
    intro n bs size a h b hb
    split at h
    · cases h
      have := fin_le_nextBlock hb
      refine Or.inl ?_
      unfold extentAt
      rw [BitVec.toNat_ofNat]
      dsimp only
      omega
    · cases h
  malloc_sos := by
    intro n bs size a h
    split at h
    · cases h
      have := le_nextBlock bs
      have hsos : (extentAt 16384 0x8000).fin = 0xc000 := by decide
      refine Or.inl ?_
      rw [hsos]
      unfold extentAt
      rw [BitVec.toNat_ofNat]
      dsimp only
      omega
    · cases h

/-- The state at boot. -/
def bootPool : PoolSt := ⟨fun _ => 0, Mempool.zero, 0, 0, 0, [], []⟩

theorem bootPool_ok (K : KernMalloc) : bootPool.Ok K :=
  ⟨Or.inl rfl, rfl, Nat.zero_le _, fun _ hb => absurd hb List.not_mem_nil,
    fun _ hb => absurd hb List.not_mem_nil⟩

/-- A new pool of 2000-byte objects. -/
def newPool : PoolSt := (mempoolInit bumpKernel 2000 0 bootPool).2

/-- The pool after one allocation. -/
def oneTaken : PoolSt := (mempoolAlloc bumpKernel newPool).2

/-- The pool after two allocations. -/
def twoTaken : PoolSt := (mempoolAlloc bumpKernel oneTaken).2

private theorem twoTaken_run : PoolRun bumpKernel 2000 twoTaken [0x10ea60, 0x10f230] := by
  have h₁ : (mempoolInit bumpKernel 2000 0 bootPool).1 = .ok () := by decide +kernel
  have h₂ : (mempoolAlloc bumpKernel newPool).1 = .ok 0x10f230 := by decide +kernel
  have h₃ : (mempoolAlloc bumpKernel oneTaken).1 = .ok 0x10ea60 := by decide +kernel
  have hrun₁ : PoolRun bumpKernel 2000 newPool [] :=
    .init (bootPool_ok _) (Act.run_of_outcome h₁)
  have hrun₂ : PoolRun bumpKernel 2000 oneTaken [0x10f230] := .alloc hrun₁ (Act.run_of_outcome h₂)
  exact .alloc hrun₂ (Act.run_of_outcome h₃)

/-- After two allocations the third one gives a third object. -/
theorem mempool_third_object :
    PoolRun bumpKernel 2000 twoTaken [0x10ea60, 0x10f230] ∧
      PoolExact twoTaken [0x10ea60, 0x10f230] ∧
      ∃ o, (mempoolAlloc bumpKernel twoTaken).1 = .ok o ∧ o ∉ [0x10ea60, 0x10f230] := by
  have hcap : twoTaken.capacity < 2 ^ 32 := by decide +kernel
  have hcap' : (mempoolAlloc bumpKernel twoTaken).2.capacity < 2 ^ 32 := by decide +kernel
  have hsos : (mempoolAlloc bumpKernel twoTaken).1 ≠ .err .sosRoom := by decide +kernel
  obtain ⟨-, hexact, halloc⟩ :=
    (mempool_never_hands_out_twice bumpKernel 2000 (by decide) (by decide)).2 twoTaken _
      twoTaken_run hcap
  exact ⟨twoTaken_run, hexact, halloc hcap' hsos⟩

end LibunwindKern
