import LibunwindKern.Lib.Res
import LibunwindKern.Lib.FreeList

/-!
# Memory pools

`src/mempool.c`: the free list of a pool and the memory it is carved from.

The free list lives in memory. The first word of a free object is the address of the next
one, so `free_object` stores into the object and `mempool_alloc` loads from it. The other
state is the pool's record, the emergency memory and what `GET_MEMORY` has handed out.

`GET_MEMORY` is the allocator of the kernel. `KernMalloc` is what is assumed about it: the
answer to a request may depend on everything that happened before, and is either `NULL`
or a block that overlaps nothing that was handed out earlier. The blocks are recorded in
the state (`blocks`, and `poolBlocks` for those of this pool). The code never reads these
two.

A failed assertion stops the system. It is kept as an error with the assertion's name, so
that the assertions can be told apart.
-/

namespace LibunwindKern

open CProg ByteMem

/-- `MAX_ALIGN`, the biggest alignment of the target. -/
def maxAlign : Word := 16

/-- `PAGE_SIZE`. -/
def pageSize : Word := 4096

/-- `SOS_MEMORY_SIZE`. -/
def sosMemorySize : Word := 16384

/-- `UNW_ALIGN`. -/
def unwAlign (x a : Word) : Word := (x + a - 1) &&& ~~~(a - 1)

/-- The allocator of the kernel, and where `sos_memory` is. -/
structure KernMalloc where
  /-- The answer to a request, from the number of the request, the blocks that have been
  handed out and the size. -/
  malloc : ℕ → List Extent → Word → Option Word
  /-- `&sos_memory[0]`. -/
  sosMemory : Word
  sos_pos : sosMemory ≠ 0
  sos_aligned : sosMemory.toNat % 16 = 0
  sos_end : sosMemory.toNat + 16384 < 2 ^ 64
  malloc_pos : ∀ {n bs size a}, malloc n bs size = some a → a ≠ 0
  malloc_aligned : ∀ {n bs size a}, malloc n bs size = some a → a.toNat % 16 = 0
  malloc_end : ∀ {n bs size a}, malloc n bs size = some a → a.toNat + size.toNat < 2 ^ 64
  malloc_fresh : ∀ {n bs size a}, malloc n bs size = some a →
    ∀ b ∈ bs, b.Apart (extentAt size.toNat a)
  malloc_sos : ∀ {n bs size a}, malloc n bs size = some a →
    (extentAt 16384 sosMemory).Apart (extentAt size.toNat a)

/-- `struct mempool`, less its lock. -/
structure Mempool where
  objSize : Word
  chunkSize : Word
  reserve : BitVec 32
  numFree : BitVec 32
  freeList : Word
  deriving DecidableEq, Repr

/-- `memset (pool, 0, sizeof (*pool))`. -/
def Mempool.zero : Mempool := ⟨0, 0, 0, 0, 0⟩

/-- The state the functions of a pool work on. -/
structure PoolSt where
  mem : Mem
  pool : Mempool
  /-- `pg_size`. -/
  pgSize : Word
  /-- `sos_memory_freepos`. -/
  sosMemoryFreepos : Word
  /-- How often `GET_MEMORY` has been used. -/
  requests : ℕ
  /-- Every block that has been handed out. -/
  blocks : List Extent
  /-- The blocks this pool is carved from. -/
  poolBlocks : List Extent

/-- The assertions of `mempool.c`. -/
inductive Assertion where
  | sosMemoryAligned
  | sosPosAligned
  | sosRoom
  | numFree
  deriving DecidableEq, Repr

abbrev PoolAct := Act Assertion PoolSt

/-- `assert`. -/
def assertThat (a : Assertion) (p : Bool) : PoolAct Unit := fun s =>
  if p then (.ok (), s) else (.err a, s)

/-- `GET_MEMORY`. -/
def getMemory (K : KernMalloc) (size : Word) : PoolAct (Option Word) := fun s =>
  match K.malloc s.requests s.blocks size with
  | some a => (.ok (some a), { s with
      requests := s.requests + 1, blocks := extentAt size.toNat a :: s.blocks })
  | none => (.ok none, { s with requests := s.requests + 1 })

/-- `fetch_and_add (&sos_memory_freepos, size)`, with the block recorded that is handed
out. -/
def takeSos (K : KernMalloc) (size : Word) : PoolAct Word := fun s =>
  (.ok s.sosMemoryFreepos, { s with
    sosMemoryFreepos := s.sosMemoryFreepos + size
    blocks := extentAt size.toNat (K.sosMemory + s.sosMemoryFreepos) :: s.blocks })

def sosAlloc (K : KernMalloc) (size : Word) : PoolAct Word :=
  assertThat .sosMemoryAligned (K.sosMemory &&& (maxAlign - 1) = 0) >>= fun _ =>
  takeSos K (unwAlign size maxAlign) >>= fun pos =>
  assertThat .sosPosAligned ((K.sosMemory + pos) &&& (maxAlign - 1) = 0) >>= fun _ =>
  assertThat .sosRoom (pos + unwAlign size maxAlign ≤ sosMemorySize) >>= fun _ =>
  pure (K.sosMemory + pos)

def freeObject (object : Word) : PoolAct Unit :=
  Act.modify fun s => { s with
    mem := store64 s.mem object s.pool.freeList
    pool := { s.pool with freeList := object, numFree := s.pool.numFree + 1 } }

/-- The loop of `add_memory`. -/
def addMemoryLoop (limit objSize : Word) : ℕ → Word → PoolAct Unit
  | 0, _ => Act.lift .diverge
  | fuel + 1, obj => fun s =>
    if obj ≤ limit then
      (freeObject obj >>= fun _ => addMemoryLoop limit objSize fuel (obj + objSize)) s
    else (.ok (), s)

/-- An object has at least one byte, so `size + 1` tests of the condition are enough. -/
def addMemory (mem size objSize : Word) : PoolAct Unit :=
  addMemoryLoop (mem + size - objSize) objSize (size.toNat + 1) mem

/-- The memory `expand` gets and its size: a chunk, else whole pages for one object, else
one object of the emergency memory. -/
def expandMemory (K : KernMalloc) : PoolAct (Word × Word) := fun s =>
  (getMemory K s.pool.chunkSize >>= fun r =>
    match r with
    | some mem => pure (mem, s.pool.chunkSize)
    | none =>
      getMemory K (unwAlign s.pool.objSize s.pgSize) >>= fun r =>
        match r with
        | some mem => pure (mem, unwAlign s.pool.objSize s.pgSize)
        | none => sosAlloc K s.pool.objSize >>= fun mem => pure (mem, s.pool.objSize)) s

/-- Record a block of the pool. -/
def notePoolBlock (mem size : Word) : PoolAct Unit :=
  Act.modify fun s => { s with poolBlocks := extentAt size.toNat mem :: s.poolBlocks }

def expand (K : KernMalloc) : PoolAct Unit :=
  expandMemory K >>= fun r =>
  notePoolBlock r.1 r.2 >>= fun _ =>
  Act.get >>= fun s => addMemory r.1 r.2 s.pool.objSize

/-- `reserve` of a pool for which the caller leaves the choice. -/
def defaultReserve (pgSize objSize : Word) : Word :=
  if pgSize / objSize / 4 = 0 then 16 else pgSize / objSize / 4

/-- The record `mempool_init` sets up before it expands the pool. The new pool has no
blocks. -/
def mempoolSetup (objSize reserve : Word) : PoolAct Unit :=
  Act.modify fun s =>
    let pgSize := if s.pgSize = 0 then pageSize else s.pgSize
    let objSize := unwAlign objSize maxAlign
    let reserve := if reserve = 0 then defaultReserve pgSize objSize else reserve
    { s with
      pgSize := pgSize
      pool := { Mempool.zero with
        objSize := objSize
        reserve := reserve.setWidth 32
        chunkSize := unwAlign (2 * reserve * objSize) pgSize }
      poolBlocks := [] }

def mempoolInit (K : KernMalloc) (objSize reserve : Word) : PoolAct Unit :=
  mempoolSetup objSize reserve >>= fun _ => expand K

/-- `if (pool->num_free <= pool->reserve) expand (pool)`. -/
def refill (K : KernMalloc) : PoolAct Unit := fun s =>
  if s.pool.numFree ≤ s.pool.reserve then expand K s else (.ok (), s)

/-- `assert (pool->num_free > 0)`. -/
def assertNumFree : PoolAct Unit := fun s =>
  assertThat .numFree (0 < s.pool.numFree) s

/-- Unlink the first object of the free list. -/
def popFree : PoolAct Word := fun s =>
  (.ok s.pool.freeList, { s with pool := { s.pool with
    numFree := s.pool.numFree - 1, freeList := load64 s.mem s.pool.freeList } })

def mempoolAlloc (K : KernMalloc) : PoolAct Word :=
  refill K >>= fun _ => assertNumFree >>= fun _ => popFree

def mempoolFree (object : Word) : PoolAct Unit := freeObject object

/-- How many objects the pool is carved into. -/
def PoolSt.capacity (s : PoolSt) : ℕ :=
  (s.poolBlocks.map fun b => b.size / s.pool.objSize.toNat).sum

end LibunwindKern
