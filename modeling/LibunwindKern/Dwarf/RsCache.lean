import LibunwindKern.Dwarf.Cfi

/-!
# The cache of register states

The model of the cache in `Gparser.c` (`flush_rs_cache` to `rs_new`) and of `unw_flush_cache`
(`flush_cache.c`). `dwarf_find_save_locs` looks up the row for an address there before it runs the
CFI programs.

The buckets of the cache are in two linked structures at once. `lru_chain` links all of them in the
order in which they are reused, from `lru_head` to `lru_tail`, and `coll_chain` links those with the
same hash value, from the entry of the hash table on, with `-1` at the end. Both are 16-bit indices.
An index past the buckets makes the behaviour undefined.

* `unwFlushCache` only counts: the flush itself is done by the next `getRsCache`, which compares
  the two generations.
* `rsLookup` and `rsNew` walk along the collision chains. They take a bound on the number of turns.

The lock of the cache and the debug frames that `unw_flush_cache` frees are left out.
-/

namespace LibunwindKern

open CProg ByteMem

/-! ### The data -/

/-- `DWARF_UNW_CACHE_SIZE`. -/
abbrev dwarfUnwCacheSize : ℕ := 128

/-- `DWARF_UNW_HASH_SIZE`. -/
abbrev dwarfUnwHashSize : ℕ := 256

/-- A bucket of the cache, a `dwarf_reg_state_t`. -/
structure Bucket where
  reg : RegState
  ip : Word
  retAddrColumn : Word
  lruChain : BitVec 16
  collChain : BitVec 16
  hint : BitVec 16
  valid : Bool
  signalFrame : Bool

/-- `struct dwarf_rs_cache`. -/
structure RsCache where
  lruHead : BitVec 16
  lruTail : BitVec 16
  hash : BitVec 8 → BitVec 16
  generation : BitVec 32
  buckets : Fin dwarfUnwCacheSize → Bucket

/-- `unw_caching_policy_t`. -/
inductive CachingPolicy where
  | none
  | global
  | perThread
  deriving DecidableEq, Repr

/-- `struct unw_addr_space`, the fields the cache uses. -/
structure AddrSpace where
  cachingPolicy : CachingPolicy
  cacheGeneration : BitVec 32
  globalCache : RsCache

/-- The cache and the two indices that a cursor keeps into it. -/
structure RsSt where
  cache : RsCache
  hint : BitVec 16
  prevRs : BitVec 16

/-- A call on the cache. -/
abbrev Rs (α : Type) : Type := Act UnwError RsSt α

/-! ### Flushing -/

/-- `flush_rs_cache`. The link of the first bucket is left as it is. -/
def flushRsCache (cache : RsCache) : RsCache :=
  { cache with
    lruHead := BitVec.ofNat 16 (dwarfUnwCacheSize - 1)
    lruTail := 0
    hash := fun _ => BitVec.allOnes 16
    buckets := fun i =>
      { cache.buckets i with
        lruChain := if 0 < i.val then BitVec.ofNat 16 (i - 1) else (cache.buckets i).lruChain
        collChain := BitVec.allOnes 16
        ip := 0
        valid := false } }

/-- `get_rs_cache`. `none` is `NULL`. -/
def getRsCache (as : AddrSpace) : Option AddrSpace :=
  if as.cachingPolicy = .none then
    none
  else if as.cacheGeneration ≠ as.globalCache.generation then
    some { as with
      globalCache := { flushRsCache as.globalCache with generation := as.cacheGeneration } }
  else
    some as

/-- `unw_flush_cache`. -/
def unwFlushCache (as : AddrSpace) : AddrSpace :=
  { as with cacheGeneration := as.cacheGeneration + 1 }

/-- A zeroed bucket. -/
def Bucket.zero : Bucket := ⟨fun _ => ⟨.undefined, 0⟩, 0, 0, 0, 0, 0, false, false⟩

/-- The address space that `x86_64_local_addr_space_init` leaves: all zero but for the policy, and
flushed once. -/
def x86_64LocalAddrSpaceInit : AddrSpace :=
  unwFlushCache ⟨.global, 0, ⟨0, 0, fun _ => 0, 0, fun _ => Bucket.zero⟩⟩

/-! ### Looking up -/

/-- `hash`. -/
def rsHash (ip : Word) : BitVec 8 := ((ip * 0x9e3779b97f4a7c16) >>> 56).setWidth 8

/-- `cache_match`. -/
def cacheMatch (rs : Bucket) (ip : Word) : Bool := rs.valid ∧ ip = rs.ip

namespace Rs

/-- The bucket with an index. -/
def bucket (index : BitVec 16) : Rs (Fin dwarfUnwCacheSize) :=
  if h : index.toNat < dwarfUnwCacheSize then pure ⟨index.toNat, h⟩ else Act.lift .undefined

/-- The index of a bucket, `rs - cache->buckets`. -/
def index (rs : Fin dwarfUnwCacheSize) : BitVec 16 := BitVec.ofNat 16 rs

/-- Change the cache. -/
def setCache (f : RsCache → RsCache) : Rs Unit := Act.modify fun s => { s with cache := f s.cache }

/-- Change a bucket. -/
def setBucket (rs : Fin dwarfUnwCacheSize) (f : Bucket → Bucket) : Rs Unit :=
  setCache fun cache =>
    { cache with buckets := Function.update cache.buckets rs (f (cache.buckets rs)) }

end Rs

open Rs

/-- One turn of the loop of `rs_lookup`. The end of the chain is tested against the size of the hash
table. -/
def lookupTurn (ip : Word) (rs : Fin dwarfUnwCacheSize) :
    Rs (Fin dwarfUnwCacheSize ⊕ Option (Fin dwarfUnwCacheSize)) := do
  let s ← Act.get
  if cacheMatch (s.cache.buckets rs) ip then do
    -- the cursor comes from this bucket, so the next lookup there will try `rs` first
    let prev ← bucket s.prevRs
    setBucket prev fun b => { b with hint := index rs }
    Act.modify fun s => { s with hint := index rs }
    pure (.inr (some rs))
  else if dwarfUnwHashSize ≤ (s.cache.buckets rs).collChain.toNat then
    pure (.inr none)
  else do
    let rs ← bucket (s.cache.buckets rs).collChain
    pure (.inl rs)

/-- `rs_lookup`, for a cursor at `ip`. -/
def rsLookup (fuel : ℕ) (ip : Word) : Rs (Option (Fin dwarfUnwCacheSize)) := do
  let s ← Act.get
  let rs ← bucket s.hint
  -- the bucket that was used after the last one, the last time
  if cacheMatch (s.cache.buckets rs) ip then
    pure (some rs)
  else if dwarfUnwCacheSize ≤ (s.cache.hash (rsHash ip)).toNat then
    pure none
  else do
    let rs ← bucket (s.cache.hash (rsHash ip))
    Act.iter (lookupTurn ip) fuel rs

/-! ### Inserting -/

/-- One turn of the loop that removes a bucket from its collision chain, with the bucket it is at
and the one before it. -/
def removeTurn (rs : Fin dwarfUnwCacheSize) (i : BitVec 8)
    (pos : Fin dwarfUnwCacheSize × Option (Fin dwarfUnwCacheSize)) :
    Rs ((Fin dwarfUnwCacheSize × Option (Fin dwarfUnwCacheSize)) ⊕ Unit) := do
  let s ← Act.get
  if pos.1 = rs then do
    match pos.2 with
    | some prev => setBucket prev fun b => { b with collChain := (s.cache.buckets rs).collChain }
    | none =>
      setCache fun cache =>
        { cache with hash := Function.update cache.hash i (s.cache.buckets rs).collChain }
    pure (.inr ())
  else if dwarfUnwCacheSize ≤ (s.cache.buckets pos.1).collChain.toNat then
    -- the old bucket was not in the hash table
    pure (.inr ())
  else do
    let tmp ← bucket (s.cache.buckets pos.1).collChain
    pure (.inl (tmp, some pos.1))

/-- The second part of `rs_new`: remove the bucket from the hash table, if it is there. -/
def removeRs (fuel : ℕ) (rs : Fin dwarfUnwCacheSize) : Rs Unit := do
  let s ← Act.get
  if (s.cache.buckets rs).ip ≠ 0 then do
    let tmp ← bucket (s.cache.hash (rsHash (s.cache.buckets rs).ip))
    Act.iter (removeTurn rs (rsHash (s.cache.buckets rs).ip)) fuel (tmp, none)
  -- a bucket without an address is on no chain
  else
    pure ()

/-- The first part of `rs_new`: the bucket that is reused, which goes to the end of the queue. -/
def reuseRs : Rs (Fin dwarfUnwCacheSize) := do
  let s ← Act.get
  let rs ← bucket s.cache.lruHead
  setCache fun cache => { cache with lruHead := (cache.buckets rs).lruChain }
  -- the old tail is linked to the bucket
  let tail ← bucket s.cache.lruTail
  setBucket tail fun b => { b with lruChain := s.cache.lruHead }
  setCache fun cache => { cache with lruTail := s.cache.lruHead }
  pure rs

/-- The last part of `rs_new`: enter the bucket in the hash table. -/
def enterRs (ip retAddrColumn : Word) (rs : Fin dwarfUnwCacheSize) : Rs Unit := do
  let s ← Act.get
  setBucket rs fun b =>
    { b with
      collChain := s.cache.hash (rsHash ip)
      hint := 0
      ip := ip
      valid := true
      retAddrColumn := retAddrColumn
      signalFrame := false }
  setCache fun cache => { cache with hash := Function.update cache.hash (rsHash ip) (index rs) }

/-- `rs_new`, for a cursor at `ip`. -/
def rsNew (fuel : ℕ) (ip retAddrColumn : Word) : Rs (Fin dwarfUnwCacheSize) := do
  let rs ← reuseRs
  removeRs fuel rs
  enterRs ip retAddrColumn rs
  pure rs

end LibunwindKern
