import LibunwindKern.Dwarf.RsCache
import LibunwindKern.Dwarf.StepOutcome

/-!
# Finding the save locations through the cache

The model of the body of `dwarf_find_save_locs` after its first `return`, which turns the cache
off, and of `unw_set_caching_policy` (`Gset_caching_policy.c`).

The body looks the instruction pointer up in the cache. On a hit it takes the row, the
return-address column and `use_prev_instr` from the bucket. On a miss it finds the row as
`uncached_dwarf_find_save_locs` does, stores it, and puts the unwind info back before the row is
applied. The row is applied from a copy, so the bucket may be reused meanwhile.
-/

namespace LibunwindKern

open CProg ByteMem Unw Rs

/-! ### The cached body -/

/-- What a call reads and writes when the cache is on. -/
structure CachedSt where
  st : St
  as : AddrSpace
  hint : BitVec 16
  prevRs : BitVec 16

/-- The cache, with the cursor's indices into it. -/
def CachedSt.rsSt (s : CachedSt) : RsSt := ⟨s.as.globalCache, s.hint, s.prevRs⟩

/-- The state with another cache and other indices. -/
def CachedSt.withRs (t : RsSt) (s : CachedSt) : CachedSt :=
  { s with as := { s.as with globalCache := t.cache }, hint := t.hint, prevRs := t.prevRs }

/-- A call on a cursor and on the cache. -/
abbrev CachedUnw (α : Type) : Type := Act UnwError CachedSt α

namespace CachedUnw

/-- A call on the cursor. -/
def onSt {α : Type} (x : Unw α) : CachedUnw α :=
  Act.zoom CachedSt.st (fun t s => { s with st := t }) x

/-- A call on the cache. -/
def onRs {α : Type} (x : Rs α) : CachedUnw α := Act.zoom CachedSt.rsSt CachedSt.withRs x

theorem onSt_of_run {α : Type} {x : Unw α} {s : CachedSt} {r : Res UnwError α} {t : St}
    (h : x s.st = (r, t)) : onSt x s = (r, { s with st := t }) := by
  unfold onSt
  rw [Act.zoom_apply, h]

theorem onRs_of_run {α : Type} {x : Rs α} {s : CachedSt} {r : Res UnwError α} {t : RsSt}
    (h : x s.rsSt = (r, t)) : onRs x s = (r, s.withRs t) := by
  unfold onRs
  rw [Act.zoom_apply, h]

end CachedUnw

open CachedUnw

/-- Copy a row into a new bucket, and link the bucket to the one used before it. -/
def fillRs (row : RegState) (rs : Fin dwarfUnwCacheSize) : Rs Unit := do
  setBucket rs fun b => { b with reg := row }
  let s ← Act.get
  let prev ← bucket s.prevRs
  setBucket prev fun b => { b with hint := index rs }
  Act.modify fun s => { s with hint := (s.cache.buckets rs).hint, prevRs := index rs }

/-- The two branches, for the bucket that `rs_lookup` returned. On a hit the return-address column
and `use_prev_instr` come from the bucket, and on a miss the row is found and stored. -/
def useRs (k : Kernel) (m : Mem) (fuel : ℕ) :
    Option (Fin dwarfUnwCacheSize) → CachedUnw (Fin dwarfUnwCacheSize)
  | some rs => do
    let s ← Act.get
    onSt (setCursor fun c =>
      { c with
        retAddrColumn := (s.as.globalCache.buckets rs).retAddrColumn
        usePrevInstr := !(s.as.globalCache.buckets rs).signalFrame })
    pure rs
  | none => do
    let sr ← onSt (findRow k m fuel)
    let s ← Act.get
    -- `parse_fde` has left the column in the cursor
    let rs ← onRs (rsNew fuel s.st.c.ip s.st.c.retAddrColumn)
    onRs (fillRs sr.rsCurrent rs)
    onSt putUnwindInfo
    pure rs

/-- The row of the cursor's frame, through the cache. -/
def cachedRow (k : Kernel) (m : Mem) (fuel : ℕ) : CachedUnw RegState := do
  let s ← Act.get
  let hit ← onRs (rsLookup fuel s.st.c.ip)
  let rs ← useRs k m fuel hit
  let s ← Act.get
  pure (s.as.globalCache.buckets rs).reg

/-- The body of `dwarf_find_save_locs` after its first `return`. -/
def dwarfFindSaveLocs (k : Kernel) (v : Validator) (m : Mem) (fuel : ℕ) : CachedUnw Unit := do
  let s ← Act.get
  if s.as.cachingPolicy = .none then
    onSt (uncachedDwarfFindSaveLocs k v m fuel)
  else
    match getRsCache s.as with
    -- a cache that is on is never `NULL`
    | none => Act.lift .undefined
    | some as => do
      Act.modify fun s => { s with as := as }
      let rs ← cachedRow k m fuel
      onSt (applyRegState v m fuel rs)

/-- The policy that is set. There is no policy per thread without `HAVE___THREAD`. -/
def effectivePolicy (policy : CachingPolicy) : CachingPolicy :=
  if policy = .perThread then .global else policy

/-- `unw_set_caching_policy`. -/
def unwSetCachingPolicy (as : AddrSpace) (policy : CachingPolicy) : AddrSpace :=
  if effectivePolicy policy = as.cachingPolicy then as
  else unwFlushCache { as with cachingPolicy := effectivePolicy policy }

end LibunwindKern
