import LibunwindKern.Dwarf.CallSite
import LibunwindKern.Dwarf.RowLookup
import LibunwindKern.Dwarf.RsCacheInvariant
import LibunwindKern.Dwarf.CachedSaveLocs

/-!
# The cached and the uncached body

The cache is keyed by the instruction pointer alone. The row also depends on the address that is
looked up, which is one less for a cursor with `use_prev_instr`, and `rs_new` stores `0` for the
signal bit of every row. So the two bodies of `dwarf_find_save_locs` agree as long as a hit is for
the unwind info that would be looked up, and this is no signal frame.

* A history (`CachedRun`) is any sequence of flushes, changes of the policy and calls by any
  cursors. The memory may change between the calls, but not the unwind info.
* `rowsServed` is what the next call may find in the cache.
* The invariant (`RsCache.Holds`) says that each bucket holds what looking its address up finds.
* `cached_eq_uncached` is the agreement of the two bodies.
-/

namespace LibunwindKern

open CProg ByteMem Unw Rs CachedUnw

/-! ### Histories -/

/-- What has happened to the cache: it was flushed, or there was a call. A call that has found a row
comes with the instruction pointer and the address that was looked up for it. -/
inductive CacheEvent where
  | flush
  | call (row : Option (Word × Word))
  deriving DecidableEq

/-- The flushes since the last call. The events come with the last one first, and the address space
is flushed once when it is set up. -/
def flushesPending : List CacheEvent → ℕ
  | [] => 1
  | .flush :: events => flushesPending events + 1
  | .call _ :: _ => 0

/-- The rows with the row of a call added, the most recent one first. A call that finds its
instruction pointer among the last 128 adds nothing. -/
def addRow : Option (Word × Word) → List (Word × Word) → List (Word × Word)
  | none, rows => rows
  | some row, rows =>
    if row.1 ∈ (rows.take dwarfUnwCacheSize).map Prod.fst then rows else row :: rows

/-- The rows that were put into the cache since it was flushed. The flush itself is done by the next
call, unless the generation has come round. -/
def rowsStored : List CacheEvent → List (Word × Word)
  | [] => []
  | .flush :: events => rowsStored events
  | .call row :: events =>
    addRow row (if flushesPending events % 2 ^ 32 = 0 then rowsStored events else [])

/-- The rows that the next call may find in the cache. -/
def rowsServed (events : List CacheEvent) : List (Word × Word) :=
  (if flushesPending events % 2 ^ 32 = 0 then rowsStored events else []).take dwarfUnwCacheSize

/-- The row for `ip` that is found by looking up `addr`. -/
def rowLookedUp (k : Kernel) (m : Mem) (fuel : ℕ) (addr ip : Word) : Res UnwError RegState :=
  unwindInfoAt k m addr >>= fun pi => rowOfInfo m fuel pi ip

/-- The instruction pointer and the address that is looked up for it, if this finds a row. -/
def rowKey (k : Kernel) (m : Mem) (fuel : ℕ) (c : Cursor) : Option (Word × Word) :=
  match rowLookedUp k m fuel (lookupIp c c.ip) c.ip with
  | .ok _ => some (c.ip, lookupIp c c.ip)
  | _ => none

/-- The unwind info is unchanged: every lookup finds the same, and gives the same row. -/
structure SameUnwindInfo (k : Kernel) (m : Mem) (fuel : ℕ) (k' : Kernel) (m' : Mem) (fuel' : ℕ) :
    Prop where
  info : ∀ addr, unwindInfoAt k' m' addr = unwindInfoAt k m addr
  row : ∀ addr pi, unwindInfoAt k m addr = .ok pi →
    ∀ ip, rowOfInfo m' fuel' pi ip = rowOfInfo m fuel pi ip

/-- A cursor may use the cache.

* The cache was flushed since it was set up.
* If the instruction pointer is in the cache, the unwind info that is looked up for the cursor is
  the unwind info that was looked up for the one that is there, and no signal frame.
* There is no row for the instruction pointer `0`, which marks an unused bucket. -/
structure CacheSafe (k : Kernel) (m : Mem) (fuel : ℕ) (events : List CacheEvent) (c : Cursor) :
    Prop where
  setUp : flushesPending events % 2 ^ 32 = 0 → ∃ row, .call row ∈ events
  same : ∀ addr, (c.ip, addr) ∈ rowsServed events →
    unwindInfoAt k m (lookupIp c c.ip) = unwindInfoAt k m addr
  signal : ∀ addr, (c.ip, addr) ∈ rowsServed events →
    ∀ pi, unwindInfoAt k m addr = .ok pi → pi.unwindInfo.signalFrame ≠ some true
  zero : c.ip = 0 → rowKey k m fuel c = none

/-- The cursor's indices are indices of buckets, as `0` is, which a cursor starts with. -/
structure CachedSt.Indexed (s : CachedSt) : Prop where
  hint : ∃ b, s.hint = index b
  prevRs : ∃ b, s.prevRs = index b

/-- A call in a history over unchanged unwind info. It may use the cache, unless this is turned
off. -/
structure CallAfter (k : Kernel) (m : Mem) (fuel : ℕ) (events : List CacheEvent) (k' : Kernel)
    (m' : Mem) (fuel' : ℕ) (s : CachedSt) : Prop where
  unchanged : SameUnwindInfo k m fuel k' m' fuel'
  turns : dwarfUnwCacheSize ≤ fuel'
  indexed : s.Indexed
  safe : s.as.cachingPolicy ≠ .none → CacheSafe k m fuel events s.st.c

/-- The history after a call. -/
def afterCall (k : Kernel) (m : Mem) (fuel : ℕ) (events : List CacheEvent) (s : CachedSt) :
    List CacheEvent :=
  if s.as.cachingPolicy = .none then events else .call (rowKey k m fuel s.st.c) :: events

/-- The address space after a history of calls that may use the cache, by any cursors. -/
inductive CachedRun (k : Kernel) (m : Mem) (fuel : ℕ) : List CacheEvent → AddrSpace → Prop
  | init : CachedRun k m fuel [] x86_64LocalAddrSpaceInit
  | flush {events : List CacheEvent} {as : AddrSpace} (run : CachedRun k m fuel events as) :
      CachedRun k m fuel (.flush :: events) (unwFlushCache as)
  | policy {events : List CacheEvent} {as : AddrSpace} (run : CachedRun k m fuel events as)
      (policy : CachingPolicy) :
      CachedRun k m fuel
        (if effectivePolicy policy = as.cachingPolicy then events else .flush :: events)
        (unwSetCachingPolicy as policy)
  | call {events : List CacheEvent} {s : CachedSt} (run : CachedRun k m fuel events s.as)
      {k' : Kernel} {v : Validator} {m' : Mem} {fuel' : ℕ}
      (call : CallAfter k m fuel events k' m' fuel' s) :
      CachedRun k m fuel (afterCall k m fuel events s) (dwarfFindSaveLocs k' v m' fuel' s).2.as

/-! ### What the cache holds -/

/-- A row in the cache, with the instruction pointer, the address that was looked up for it, and its
bucket. -/
structure StoredRow where
  ip : Word
  addr : Word
  rs : Fin dwarfUnwCacheSize

/-- The bucket of a row holds what looking its address up finds. -/
def StoredRow.Held (k : Kernel) (m : Mem) (fuel : ℕ) (c : RsCache) (row : StoredRow) : Prop :=
  ∃ pi dci rs, unwindInfoAt k m row.addr = .ok pi ∧ rowOfInfo m fuel pi row.ip = .ok rs ∧
    pi.unwindInfo = .cie dci ∧ c.content row.rs = (rs, dci.retAddrColumn, false)

/-- The cache holds these rows. -/
structure RsCache.Holds (k : Kernel) (m : Mem) (fuel : ℕ) (c : RsCache) (rows : List StoredRow) :
    Prop where
  inv : ∃ free, c.Inv free (rows.map fun row => (row.ip, row.rs))
  held : ∀ row ∈ rows, row.Held k m fuel c

section Holds

variable {k : Kernel} {m : Mem} {fuel : ℕ} {c c' : RsCache} {rows : List StoredRow}

theorem RsCache.Holds.of_apart (h : c.Holds k m fuel rows) (hskeleton : c'.skeleton = c.skeleton)
    (hcontent : c'.content = c.content) : c'.Holds k m fuel rows := by
  obtain ⟨free, hinv⟩ := h.inv
  -- the buckets hold the same, and their addresses are in the skeleton
  refine ⟨⟨free, hinv.of_skeleton hskeleton⟩, fun row hrow => ?_⟩
  unfold StoredRow.Held
  rw [hcontent]
  exact h.held row hrow

theorem holds_flushed (as : AddrSpace) : as.flushed.globalCache.Holds k m fuel [] :=
  ⟨⟨_, flushed_inv as⟩, nofun⟩

/-- What filling a bucket does: it changes the row of the bucket, and hints. -/
structure Filled (row : RegState) (b : Fin dwarfUnwCacheSize) (s t : RsSt) : Prop where
  skeleton : t.cache.skeleton = s.cache.skeleton
  content : t.cache.content = Function.update s.cache.content b (row, (s.cache.content b).2)
  hint : t.hint = (s.cache.buckets b).hint ∨ t.hint = index b
  prevRs : t.prevRs = index b

theorem fillRs_spec {s : RsSt} {prev : Fin dwarfUnwCacheSize} (hprev : s.prevRs = index prev)
    (row : RegState) (b : Fin dwarfUnwCacheSize) :
    ∃ t, fillRs row b s = (.ok (), t) ∧ Filled row b s t := by
  -- the row is copied, and then the bucket used before gets a hint
  have hrow : (setBucket b (fun x => { x with reg := row }) s).2.cache.skeleton =
      s.cache.skeleton := by
    refine setBucket_skeleton (fun _ => ?_) b s
    exact ⟨rfl, rfl, rfl, rfl⟩
  set u := (setBucket b (fun x => { x with reg := row }) s).2 with hu
  have hfill : fillRs row b s = ((do
      let prev ← bucket u.prevRs
      setBucket prev fun x => { x with hint := index b }
      Act.modify fun s => { s with hint := (s.cache.buckets b).hint, prevRs := index b } :
        Rs Unit) u) := rfl
  have hindex : u.prevRs = index prev := hprev
  rw [hfill, hindex, Act.bind_of_ok (bucket_index prev u)]
  obtain ⟨hskeleton, hcontent⟩ := Prod.mk.inj (setHint_apart (index b) prev u)
  refine ⟨_, rfl, hskeleton.trans hrow, hcontent.trans ?_, ?_, rfl⟩
  · exact view_update (fun x => (x.reg, x.retAddrColumn, x.signalFrame)) _ _ _
  · by_cases hb : b = prev
    · -- the bucket was also the one used before
      right
      rw [← hb]
      exact congrArg Bucket.hint (Function.update_self b _ u.cache.buckets)
    · left
      -- copying the row has left its hint
      have hself : u.cache.buckets b = { s.cache.buckets b with reg := row } :=
        Function.update_self b _ s.cache.buckets
      refine (congrArg Bucket.hint (Function.update_of_ne hb _ u.cache.buckets)).trans ?_
      rw [hself]

/-- A cache with one more row. The oldest row goes if the cache was full. -/
theorem RsCache.Holds.add (h : c.Holds k m fuel rows) {row : StoredRow}
    {free : List (Fin dwarfUnwCacheSize)}
    (hinv : c'.Inv free
      (((row.ip, row.rs) :: rows.map fun row => (row.ip, row.rs)).take dwarfUnwCacheSize))
    (hrow : row.Held k m fuel c') (hother : ∀ b, b ≠ row.rs → c'.content b = c.content b) :
    c'.Holds k m fuel ((row :: rows).take dwarfUnwCacheSize) := by
  have hkeys : ((row :: rows).take dwarfUnwCacheSize).map (fun row => (row.ip, row.rs)) =
      ((row.ip, row.rs) :: rows.map fun row => (row.ip, row.rs)).take dwarfUnwCacheSize := by
    rw [List.map_take]
    rfl
  rw [← hkeys] at hinv
  refine ⟨⟨free, hinv⟩, fun row' hmem => ?_⟩
  rw [List.take_succ_cons] at hmem hinv
  -- the buckets of the other rows are other buckets
  have hnodup := (List.nodup_append.1 hinv.nodup).2.1
  rw [List.nodup_reverse, List.map_cons, List.map_cons, List.nodup_cons] at hnodup
  rcases List.mem_cons.1 hmem with rfl | hmem
  · exact hrow
  · have hne : row'.rs ≠ row.rs := by
      intro heq
      refine hnodup.1 ?_
      rw [List.map_map]
      exact List.mem_map.2 ⟨row', hmem, heq⟩
    unfold StoredRow.Held
    rw [hother row'.rs hne]
    exact h.held row' (List.take_subset _ _ hmem)

/-- What storing a row does. -/
structure StoresRow (k : Kernel) (m : Mem) (fuel : ℕ) (rows : List StoredRow) (row : StoredRow)
    (rs : RegState) (s t : RsSt) : Prop where
  reg : (t.cache.buckets row.rs).reg = rs
  generation : t.cache.generation = s.cache.generation
  hint : ∃ b, t.hint = index b
  prevRs : ∃ b, t.prevRs = index b
  holds : t.cache.Holds k m fuel ((row :: rows).take dwarfUnwCacheSize)

/-- **A row is stored** that is not in the cache. -/
theorem RsCache.Holds.store {s : RsSt} (h : s.cache.Holds k m fuel rows)
    {prev : Fin dwarfUnwCacheSize} (hprev : s.prevRs = index prev) {ip addr : Word} (hip : ip ≠ 0)
    (hnew : ∀ row ∈ rows, row.ip ≠ ip) {pi : ProcInfo} {dci : CieInfo} {rs : RegState}
    (hinfo : unwindInfoAt k m addr = .ok pi) (hrow : rowOfInfo m fuel pi ip = .ok rs)
    (hcie : pi.unwindInfo = .cie dci) {turns : ℕ} (hturns : dwarfUnwCacheSize ≤ turns) :
    ∃ b u t, rsNew turns ip dci.retAddrColumn s = (.ok b, u) ∧ fillRs rs b u = (.ok (), t) ∧
      StoresRow k m fuel rows ⟨ip, addr, b⟩ rs s t := by
  obtain ⟨free, hinv⟩ := h.inv
  -- `rs_new` needs an address that is not in the cache
  have hfresh : ∀ b, (ip, b) ∉ rows.map fun row => (row.ip, row.rs) := by
    intro b hb
    obtain ⟨row, hmem, heq⟩ := List.mem_map.1 hb
    exact hnew row hmem (congrArg Prod.fst heq)
  obtain ⟨b, free', u, hrun, hstored, hinv'⟩ :=
    rsNew_spec hinv hip hfresh dci.retAddrColumn hturns
  obtain ⟨t, hfill, hfilled⟩ := fillRs_spec (hstored.prevRs.trans hprev) rs b
  -- the row comes from the copy, the column and the signal bit from `rs_new`
  have hself : t.cache.content b = (rs, dci.retAddrColumn, false) := by
    rw [hfilled.content, Function.update_self, hstored.content, Function.update_self]
  have hother : ∀ b', b' ≠ b → t.cache.content b' = s.cache.content b' := by
    intro b' hb'
    rw [hfilled.content, Function.update_of_ne hb', hstored.content, Function.update_of_ne hb']
  have hgeneration : t.cache.skeleton.generation = u.cache.skeleton.generation := by
    rw [hfilled.skeleton]
  -- the next bucket is guessed from the hint of this one
  have hhint : ∃ b', t.hint = index b' := by
    rcases hfilled.hint with hhint | hhint
    · exact ⟨0, by rw [hhint, hstored.newHint]; rfl⟩
    · exact ⟨b, hhint⟩
  exact ⟨b, u, t, hrun, hfill, congrArg Prod.fst hself, hgeneration.trans hstored.generation, hhint,
    ⟨b, hfilled.prevRs⟩, h.add (hinv'.of_skeleton hfilled.skeleton)
      ⟨pi, dci, rs, hinfo, hrow, hcie, hself⟩ hother⟩

end Holds

/-- The cache holds the last of these rows. -/
def RsCache.HoldsLast (k : Kernel) (m : Mem) (fuel : ℕ) (c : RsCache) (stored : List (Word × Word)) :
    Prop :=
  ∃ rows, c.Holds k m fuel rows ∧
    stored.take dwarfUnwCacheSize = rows.map fun row => (row.ip, row.addr)

/-! ### A call -/

section Call

variable {k k' : Kernel} {m m' : Mem} {fuel fuel' : ℕ}

/-- A search that finds a row, over unchanged unwind info. -/
theorem rowKey_of_found (hsame : SameUnwindInfo k m fuel k' m' fuel') {s t : St} {sr : StateRecord}
    (h : findRow k' m' fuel' s = (.ok sr, t)) :
    rowKey k m fuel s.c = some (s.c.ip, lookupIp s.c s.c.ip) := by
  obtain ⟨pi, dci, g, hinfo, hrow, -, -⟩ := findRow_ok h
  rw [hsame.info] at hinfo
  rw [hsame.row _ pi hinfo] at hrow
  unfold rowKey rowLookedUp
  rw [hinfo, Res.ok_bind, hrow]

theorem rowKey_of_not_found (hsame : SameUnwindInfo k m fuel k' m' fuel') {s t : St}
    {r : Res UnwError StateRecord} (h : findRow k' m' fuel' s = (r, t)) (hr : ∀ sr, r ≠ .ok sr) :
    rowKey k m fuel s.c = none := by
  unfold rowKey
  cases hat : rowLookedUp k m fuel (lookupIp s.c s.c.ip) s.c.ip with
  | ok rs =>
    -- if there were a row, the search would find it
    obtain ⟨pi, hinfo, hrow⟩ := Res.bind_eq_ok hat
    rw [← hsame.row _ pi hinfo] at hrow
    rw [← hsame.info] at hinfo
    obtain ⟨sr, t', hfind, -⟩ := findRow_of_row hinfo hrow
    exact absurd (congrArg Prod.fst (h.symm.trans hfind)) (hr sr)
  | _ => rfl

/-- How the row of a frame is found through the cache, by what the search without it does: it is the
same row, or the search fails in the same way. -/
inductive CachedRowEnd (k : Kernel) (m : Mem) (fuel : ℕ) (s : St) : Res UnwError RegState → St → Prop
  | found {sr : StateRecord} {w : St} {g : Leftover} (g' : Leftover)
      (hfind : findRow k m fuel s = (.ok sr, w.withLeftover g)) :
      CachedRowEnd k m fuel s (.ok sr.rsCurrent) (w.withLeftover g')
  | notFound {r : Res UnwError StateRecord} {u : St} (hfind : findRow k m fuel s = (r, u))
      (hr : ∀ sr, r ≠ .ok sr) : CachedRowEnd k m fuel s (r >>= fun _ => .diverge) u

variable {s : CachedSt}

/-- **A hit.** -/
theorem cachedRow_of_hit {b : Fin dwarfUnwCacheSize} {t : RsSt}
    (hlookup : rsLookup fuel' s.st.c.ip s.rsSt = (.ok (some b), t)) :
    cachedRow k' m' fuel' s = (.ok (t.cache.buckets b).reg,
      { s.withRs t with
        st := s.st.withRow (t.cache.buckets b).retAddrColumn (!(t.cache.buckets b).signalFrame) }) := by
  unfold cachedRow
  rw [Act.get_bind, Act.bind_of_ok (onRs_of_run hlookup)]
  rfl

/-- **A miss**, and no row is found. -/
theorem cachedRow_of_not_found {t : RsSt}
    (hlookup : rsLookup fuel' s.st.c.ip s.rsSt = (.ok none, t)) {r : Res UnwError StateRecord} {u : St}
    (hfind : findRow k' m' fuel' s.st = (r, u)) (hr : ∀ sr, r ≠ .ok sr) :
    cachedRow k' m' fuel' s = (r >>= fun _ => .diverge, { s.withRs t with st := u }) := by
  -- the error of the search is returned as it is
  have huse : useRs k' m' fuel' none (s.withRs t) =
      (r >>= fun _ => .diverge, { s.withRs t with st := u }) := by
    have hrun : onSt (findRow k' m' fuel') (s.withRs t) = (r, { s.withRs t with st := u }) :=
      onSt_of_run hfind
    exact Act.bind_of_not_ok hrun hr _
  unfold cachedRow
  rw [Act.get_bind, Act.bind_of_ok (onRs_of_run hlookup), Act.bind_of_not_ok huse (Res.bind_ne_ok hr _),
    Res.bind_bind_of_not_ok hr _ _ fun _ => .diverge]

/-- **A miss**, and the row that is found is stored. -/
theorem cachedRow_of_found {t u t' : RsSt} (hlookup : rsLookup fuel' s.st.c.ip s.rsSt = (.ok none, t))
    {sr : StateRecord} {w w' : St} (hfind : findRow k' m' fuel' s.st = (.ok sr, w))
    {b : Fin dwarfUnwCacheSize} (hnew : rsNew fuel' w.c.ip w.c.retAddrColumn t = (.ok b, u))
    (hfill : fillRs sr.rsCurrent b u = (.ok (), t')) (hput : putUnwindInfo w = (.ok (), w')) :
    cachedRow k' m' fuel' s =
      (.ok (t'.cache.buckets b).reg, { s.withRs t' with st := w' }) := by
  -- the row is searched, a bucket is taken and filled, and the unwind info is put back
  have huse : useRs k' m' fuel' none (s.withRs t) = (.ok b, { s.withRs t' with st := w' }) := by
    have hrow : onSt (findRow k' m' fuel') (s.withRs t) = (.ok sr, { s.withRs t with st := w }) :=
      onSt_of_run hfind
    have hrs : onRs (rsNew fuel' w.c.ip w.c.retAddrColumn) { s.withRs t with st := w } =
        (.ok b, { s.withRs u with st := w }) := onRs_of_run hnew
    have hcopy : onRs (fillRs sr.rsCurrent b) { s.withRs u with st := w } =
        (.ok (), { s.withRs t' with st := w }) := onRs_of_run hfill
    have hfree : onSt putUnwindInfo { s.withRs t' with st := w } =
        (.ok (), { s.withRs t' with st := w' }) := onSt_of_run hput
    rw [useRs, Act.bind_of_ok hrow, Act.get_bind, Act.bind_of_ok hrs, Act.bind_of_ok hcopy,
      Act.bind_of_ok hfree]
    rfl
  unfold cachedRow
  rw [Act.get_bind, Act.bind_of_ok (onRs_of_run hlookup), Act.bind_of_ok huse]
  rfl

/-- What a call leaves of the cache, and of the indices into it. -/
structure LeavesRows (k : Kernel) (m : Mem) (fuel : ℕ) (stored : List (Word × Word))
    (s s' : CachedSt) : Prop where
  cacheGeneration : s'.as.cacheGeneration = s.as.cacheGeneration
  generation : s'.as.globalCache.generation = s.as.globalCache.generation
  rows : s'.as.globalCache.HoldsLast k m fuel stored
  indexed : s'.Indexed

section Ends

variable {events : List CacheEvent} {stored : List (Word × Word)} {rows : List StoredRow}
  (hcall : CallAfter k m fuel events k' m' fuel' s) (hsafe : CacheSafe k m fuel events s.st.c)
  (hrows : s.as.globalCache.Holds k m fuel rows)
  (hkeys : stored.take dwarfUnwCacheSize = rows.map fun row => (row.ip, row.addr))
include hcall hrows hkeys

include hsafe in
omit hkeys in
/-- The search finds the row that the cache holds for the cursor. -/
theorem findRow_of_held {row : StoredRow} (hmem : row ∈ rows) (hip : row.ip = s.st.c.ip)
    (hserved : (s.st.c.ip, row.addr) ∈ rowsServed events) :
    ∃ sr column g, findRow k' m' fuel' s.st =
        (.ok sr, (s.st.withRow column true).withLeftover g) ∧
      s.as.globalCache.content row.rs = (sr.rsCurrent, column, false) := by
  obtain ⟨pi, dci, rs, hinfo, hrow, hcie, hheld⟩ := hrows.held row hmem
  -- the cache has the bit 0 for every row, and this is right for this one
  have hsignal : dci.signalFrame = false := by
    have hne := hsafe.signal row.addr hserved pi hinfo
    rw [hcie] at hne
    exact Bool.eq_false_iff.2 fun h => hne (congrArg some h)
  -- the address that is looked up has the unwind info of the one that was looked up then
  have hinfo' : unwindInfoAt k' m' (lookupIp s.st.c s.st.c.ip) = .ok pi := by
    rw [hcall.unchanged.info, hsafe.same row.addr hserved, hinfo]
  have hrow' : rowOfInfo m' fuel' pi s.st.c.ip = .ok rs := by
    rw [hcall.unchanged.row row.addr pi hinfo, ← hip, hrow]
  obtain ⟨sr, w, hfind, rfl⟩ := findRow_of_row hinfo' hrow'
  obtain ⟨pi', dci', g, hinfo'', -, hcie', hw⟩ := findRow_ok hfind
  cases hinfo'.symm.trans hinfo''
  cases hcie.symm.trans hcie'
  rw [hsignal] at hw
  rw [hw] at hfind
  exact ⟨sr, dci.retAddrColumn, g, hfind, hheld⟩

include hsafe in
/-- **The end of a hit.** The bucket holds the row that the search finds. -/
theorem cachedRow_end_of_hit (hserved : rowsServed events = stored.take dwarfUnwCacheSize)
    {b : Fin dwarfUnwCacheSize} {t : RsSt}
    (hlookup : rsLookup fuel' s.st.c.ip s.rsSt = (.ok (some b), t))
    (hb : (s.st.c.ip, b) ∈ rows.map fun row => (row.ip, row.rs))
    (hlooks : LooksUp s.st.c.ip [] s.rsSt (some b) t) :
    ∃ r s', cachedRow k' m' fuel' s = (r, s') ∧ CachedRowEnd k' m' fuel' s.st r s'.st ∧
      LeavesRows k m fuel (addRow (rowKey k m fuel s.st.c) stored) s s' := by
  obtain ⟨row, hmem, heq⟩ := List.mem_map.1 hb
  obtain ⟨hip, rfl⟩ := Prod.mk.inj heq
  obtain ⟨hskeleton, hcontent⟩ := Prod.mk.inj hlooks.apart
  have hstored : (s.st.c.ip, row.addr) ∈ stored.take dwarfUnwCacheSize := by
    rw [hkeys, ← hip]
    exact List.mem_map_of_mem hmem
  obtain ⟨sr, column, g, hfind, hheld⟩ :=
    findRow_of_held hcall hsafe hrows hmem hip (hserved ▸ hstored)
  -- the lookup has changed nothing but hints
  have hbucket : t.cache.content row.rs = (sr.rsCurrent, column, false) := by
    rw [hcontent]
    exact hheld
  obtain ⟨hreg, hrest⟩ := Prod.mk.inj hbucket
  obtain ⟨hcolumn, hbit⟩ := Prod.mk.inj hrest
  refine ⟨_, _, cachedRow_of_hit hlookup, ?_, ?_⟩
  · rw [hreg, hcolumn, hbit]
    exact .found ⟨s.st.c.pi, s.st.c.piValid, s.st.c.piIsDynamic, s.st.ciePool,
      s.st.regStatePool, s.st.fetched⟩ hfind
  · -- the same rows are in the cache afterwards
    have hgeneration : t.cache.skeleton.generation = s.as.globalCache.skeleton.generation :=
      congrArg RsCache.generation hskeleton
    refine ⟨rfl, hgeneration, ⟨rows, hrows.of_apart hskeleton hcontent, ?_⟩, ⟨?_, ?_⟩⟩
    · have hin : s.st.c.ip ∈ (stored.take dwarfUnwCacheSize).map Prod.fst :=
        List.mem_map.2 ⟨_, hstored, rfl⟩
      rw [rowKey_of_found hcall.unchanged hfind, addRow, if_pos hin, hkeys]
    · rcases hlooks.hint with hhint | hhint
      · exact hcall.indexed.hint.imp fun _ h => hhint.trans h
      · exact hhint
    · exact hcall.indexed.prevRs.imp fun _ h => hlooks.prevRs.trans h

/-- **The end of a miss** for which no row is found. -/
theorem cachedRow_end_of_not_found
    (hlookup : rsLookup fuel' s.st.c.ip s.rsSt = (.ok none, s.rsSt)) {r : Res UnwError StateRecord}
    {u : St} (hfind : findRow k' m' fuel' s.st = (r, u)) (hr : ∀ sr, r ≠ .ok sr) :
    ∃ r s', cachedRow k' m' fuel' s = (r, s') ∧ CachedRowEnd k' m' fuel' s.st r s'.st ∧
      LeavesRows k m fuel (addRow (rowKey k m fuel s.st.c) stored) s s' := by
  refine ⟨_, _, cachedRow_of_not_found hlookup hfind hr, .notFound hfind hr, rfl, rfl,
    ⟨rows, hrows, ?_⟩, hcall.indexed.hint, hcall.indexed.prevRs⟩
  rw [rowKey_of_not_found hcall.unchanged hfind hr, addRow, hkeys]

include hsafe in
/-- **The end of a miss** for which a row is found. The row is stored. -/
theorem cachedRow_end_of_found
    (hlookup : rsLookup fuel' s.st.c.ip s.rsSt = (.ok none, s.rsSt))
    (hnew : ∀ row ∈ rows, row.ip ≠ s.st.c.ip) {sr : StateRecord} {u : St}
    (hfind : findRow k' m' fuel' s.st = (.ok sr, u)) :
    ∃ r s', cachedRow k' m' fuel' s = (r, s') ∧ CachedRowEnd k' m' fuel' s.st r s'.st ∧
      LeavesRows k m fuel (addRow (rowKey k m fuel s.st.c) stored) s s' := by
  have hkey := rowKey_of_found hcall.unchanged hfind
  -- an insertion for 0 would look like an unused bucket
  have hip : s.st.c.ip ≠ 0 := by
    intro hzero
    have hnone := hsafe.zero hzero
    rw [hkey] at hnone
    cases hnone
  obtain ⟨pi, dci, g, hinfo, hrow, hcie, rfl⟩ := findRow_ok hfind
  rw [hcall.unchanged.info] at hinfo
  rw [hcall.unchanged.row _ pi hinfo] at hrow
  obtain ⟨prev, hprev⟩ := hcall.indexed.prevRs
  obtain ⟨b, u, t, hrsNew, hfill, hstores⟩ :=
    RsCache.Holds.store (s := s.rsSt) hrows hprev hip hnew hinfo hrow hcie hcall.turns
  obtain ⟨w, hput⟩ := putUnwindInfo_ok (St.withLeftover g
    (s.st.withRow dci.retAddrColumn !dci.signalFrame))
  obtain ⟨g', rfl⟩ := putUnwindInfo_left hput
  refine ⟨_, _, cachedRow_of_found hlookup hfind hrsNew hfill hput, ?_, rfl,
    hstores.generation, ⟨_, hstores.holds, ?_⟩, hstores.hint, hstores.prevRs⟩
  · rw [hstores.reg]
    exact .found g' hfind
  · -- the call has added its row in front
    have hout : s.st.c.ip ∉ (stored.take dwarfUnwCacheSize).map Prod.fst := by
      rw [hkeys, List.map_map]
      intro hmem
      obtain ⟨row, hmem, heq⟩ := List.mem_map.1 hmem
      exact hnew row hmem heq
    rw [hkey, addRow, if_neg hout, List.map_take, List.map_cons, ← hkeys, List.take_succ_cons,
      List.take_succ_cons, List.take_take]
    rfl

include hsafe in
/-- **The row of a frame** is found through the cache as it is found without it, and the cache holds
the rows of the history that ends with the call. -/
theorem cachedRow_end (hserved : rowsServed events = stored.take dwarfUnwCacheSize) :
    ∃ r s', cachedRow k' m' fuel' s = (r, s') ∧ CachedRowEnd k' m' fuel' s.st r s'.st ∧
      LeavesRows k m fuel (addRow (rowKey k m fuel s.st.c) stored) s s' := by
  obtain ⟨free, hinv⟩ := hrows.inv
  obtain ⟨hint, hhint⟩ := hcall.indexed.hint
  obtain ⟨prev, hprev⟩ := hcall.indexed.prevRs
  obtain ⟨o, t, hlookup, hexact, hlooks⟩ :=
    rsLookup_spec (s := s.rsSt) hinv hhint hprev hcall.turns s.st.c.ip
  cases o with
  | some b =>
    exact cachedRow_end_of_hit hcall hsafe hrows hkeys hserved hlookup ((hexact b).1 rfl) hlooks
  | none =>
    -- a miss changes nothing at all
    obtain ⟨rfl, -⟩ := hlooks.miss rfl
    -- all rows in the cache are for other addresses
    have hnew : ∀ row ∈ rows, row.ip ≠ s.st.c.ip := by
      intro row hmem hip
      have hin : (s.st.c.ip, row.rs) ∈ rows.map fun row => (row.ip, row.rs) := by
        rw [← hip]
        exact List.mem_map_of_mem hmem
      cases (hexact row.rs).2 hin
    rcases hfind : findRow k' m' fuel' s.st with ⟨r, u⟩
    obtain ⟨sr, rfl⟩ | hr := r.ok_or_ne
    · exact cachedRow_end_of_found hcall hsafe hrows hkeys hlookup hnew hfind
    · exact cachedRow_end_of_not_found hcall hrows hkeys hlookup hfind hr

end Ends

/-! ### The two bodies -/

/-- What the two bodies are compared by. -/
def frameLeft (s : St) : Word × Word × (Fin dwarfNumPreservedRegs → Word) × Word × Bool :=
  (s.c.ip, s.c.cfa, s.c.loc, s.c.retAddrColumn, s.c.usePrevInstr)

theorem uncachedDwarfFindSaveLocs_eq (v : Validator) :
    uncachedDwarfFindSaveLocs k v m fuel = findRow k m fuel >>= fun sr =>
      (applyRegState v m fuel sr.rsCurrent >>= fun _ => putUnwindInfo : Unw Unit) := by
  unfold uncachedDwarfFindSaveLocs findRow
  simp only [Act.bind_assoc]

/-- Putting the unwind info back at the end changes neither the outcome nor the frame. -/
theorem bind_putUnwindInfo (x : Unw Unit) (s : St) :
    ((x >>= fun _ => putUnwindInfo) s).1 = (x s).1 ∧
      frameLeft ((x >>= fun _ => putUnwindInfo) s).2 = frameLeft (x s).2 := by
  -- only the unwind info and the pool it came from are changed
  have hkeeps : Act.Keeps frameLeft putUnwindInfo := putUnwindInfo_keeps fun _ => rfl
  have hok : ∀ (a : Unit) (t : St), (putUnwindInfo t).1 = .ok a := by
    intro a t
    obtain ⟨t', ht'⟩ := putUnwindInfo_ok t
    rw [ht']
  refine ⟨?_, Act.Keeps.bind_snd (fun _ => hkeeps) x s⟩
  rw [Act.bind_fst hok]
  cases (x s).1 <;> rfl

/-- **A row that is found alike** is applied alike. -/
theorem CachedRowEnd.agrees {r : Res UnwError RegState} {s' : CachedSt} (v : Validator)
    (hrun : cachedRow k m fuel s = (r, s')) (h : CachedRowEnd k m fuel s.st r s'.st) :
    ((cachedRow k m fuel >>= fun rs => onSt (applyRegState v m fuel rs)) s).1 =
        (uncachedDwarfFindSaveLocs k v m fuel s.st).1 ∧
      frameLeft ((cachedRow k m fuel >>= fun rs => onSt (applyRegState v m fuel rs)) s).2.st =
        frameLeft (uncachedDwarfFindSaveLocs k v m fuel s.st).2 := by
  rw [uncachedDwarfFindSaveLocs_eq]
  generalize hu : s'.st = u at h
  cases h with
  | @found sr w g g' hfind =>
    -- both bodies apply the same row, to states that differ in the leftover
    obtain ⟨hout, hframe⟩ := bind_putUnwindInfo (applyRegState v m fuel sr.rsCurrent)
      (w.withLeftover g)
    obtain ⟨houtg, g₁, hg⟩ := applyRegState_ignores v m fuel sr.rsCurrent w g
    obtain ⟨houtg', g₂, hg'⟩ := applyRegState_ignores v m fuel sr.rsCurrent w g'
    have happly : applyRegState v m fuel sr.rsCurrent s'.st =
        ((applyRegState v m fuel sr.rsCurrent w).1,
          (applyRegState v m fuel sr.rsCurrent w).2.withLeftover g₂) := by
      rw [hu]
      exact Prod.ext houtg' hg'
    rw [Act.bind_of_ok hrun, Act.bind_of_ok hfind, onSt_of_run happly]
    refine ⟨(hout.trans houtg).symm, ?_⟩
    rw [hframe, hg]
    rfl
  | @notFound r u hfind hr =>
    -- nothing is applied
    rw [Act.bind_of_not_ok hrun (Res.bind_ne_ok hr _), Act.bind_of_not_ok hfind hr]
    exact ⟨Res.bind_bind_of_not_ok hr _ _ _, congrArg frameLeft hu⟩

end Call

/-! ### Runs -/

/-- What holds of the address space after a history. -/
structure CachedRunInv (k : Kernel) (m : Mem) (fuel : ℕ) (events : List CacheEvent)
    (as : AddrSpace) : Prop where
  generation : as.cacheGeneration =
    as.globalCache.generation + BitVec.ofNat 32 (flushesPending events)
  rows : (∃ row, .call row ∈ events) → as.globalCache.HoldsLast k m fuel (rowsStored events)

section Runs

variable {k k' : Kernel} {m m' : Mem} {fuel fuel' : ℕ} {events : List CacheEvent}

/-- **`get_rs_cache`** returns a cache with the rows of the history, if there were no flushes, or
without any. -/
theorem CachedRunInv.get {as : AddrSpace} (h : CachedRunInv k m fuel events as)
    (hpolicy : as.cachingPolicy ≠ .none)
    (hsetUp : flushesPending events % 2 ^ 32 = 0 → ∃ row, .call row ∈ events) :
    ∃ as', getRsCache as = some as' ∧ as'.cacheGeneration = as'.globalCache.generation ∧
      as'.globalCache.HoldsLast k m fuel
        (if flushesPending events % 2 ^ 32 = 0 then rowsStored events else []) := by
  refine ⟨_, getRsCache_of_pending hpolicy h.generation, ?_⟩
  by_cases hzero : flushesPending events % 2 ^ 32 = 0
  · rw [if_pos hzero, if_pos hzero]
    -- the generations are the same, and the cache stays
    refine ⟨?_, h.rows (hsetUp hzero)⟩
    rw [h.generation, ofNat_eq_zero_iff.2 hzero]
    exact BitVec.add_zero _
  · rw [if_neg hzero, if_neg hzero]
    -- the cache is flushed first
    exact ⟨rfl, [], holds_flushed as, rfl⟩

theorem CachedRunInv.flush {as : AddrSpace} (h : CachedRunInv k m fuel events as)
    (policy : CachingPolicy) :
    CachedRunInv k m fuel (.flush :: events) (unwFlushCache { as with cachingPolicy := policy }) := by
  refine ⟨?_, ?_⟩
  · change as.cacheGeneration + 1 =
      as.globalCache.generation + BitVec.ofNat 32 (flushesPending events + 1)
    rw [h.generation, BitVec.ofNat_add, BitVec.add_assoc]
    rfl
  · rintro ⟨row, hmem⟩
    exact h.rows ⟨row, (List.mem_cons.1 hmem).resolve_left nofun⟩

theorem LeavesRows.inv {row : Option (Word × Word)} {s s' : CachedSt}
    (h : LeavesRows k m fuel (rowsStored (.call row :: events)) s s')
    (hgeneration : s.as.cacheGeneration = s.as.globalCache.generation) :
    CachedRunInv k m fuel (.call row :: events) s'.as := by
  refine ⟨?_, fun _ => h.rows⟩
  rw [h.cacheGeneration, h.generation, hgeneration]
  exact (BitVec.add_zero _).symm

/-- The body after `get_rs_cache`. -/
theorem dwarfFindSaveLocs_of_get {s : CachedSt} {as : AddrSpace} (v : Validator)
    (hpolicy : s.as.cachingPolicy ≠ .none) (hget : getRsCache s.as = some as) :
    dwarfFindSaveLocs k v m fuel s =
      (cachedRow k m fuel >>= fun rs => onSt (applyRegState v m fuel rs)) { s with as := as } := by
  unfold dwarfFindSaveLocs
  rw [Act.get_bind, if_neg hpolicy, hget]
  rfl

/-- The cache, and the indices into it. -/
def CachedSt.indices (s : CachedSt) : AddrSpace × BitVec 16 × BitVec 16 := (s.as, s.hint, s.prevRs)

/-- Applying the row leaves the cache and the indices alone. -/
theorem applyRegState_indices {s s' : CachedSt} {r : Res UnwError RegState} (v : Validator)
    (hrun : cachedRow k m fuel s = (r, s')) :
    ((cachedRow k m fuel >>= fun rs => onSt (applyRegState v m fuel rs)) s).2.indices =
      s'.indices := by
  have hkeeps : ∀ rs, Act.Keeps CachedSt.indices (onSt (applyRegState v m fuel rs)) :=
    fun _ _ => rfl
  rw [Act.Keeps.bind_snd hkeeps, hrun]

/-- What a call does, in a history: it ends as the uncached one does, leaves the rows of the longer
history in the cache, and leaves indices of buckets in the cursor. -/
structure CallAgrees (k : Kernel) (m : Mem) (fuel : ℕ) (events : List CacheEvent) (s : CachedSt)
    (p : Res UnwError Unit × CachedSt) (q : Res UnwError Unit × St) : Prop where
  outcome : p.1 = q.1
  frame : frameLeft p.2.st = frameLeft q.2
  inv : CachedRunInv k m fuel (afterCall k m fuel events s) p.2.as
  indexed : p.2.Indexed

/-- **A call** agrees with the uncached one. -/
theorem CachedRunInv.call {s : CachedSt} (h : CachedRunInv k m fuel events s.as)
    (hcall : CallAfter k m fuel events k' m' fuel' s) (v : Validator) :
    CallAgrees k m fuel events s (dwarfFindSaveLocs k' v m' fuel' s)
      (uncachedDwarfFindSaveLocs k' v m' fuel' s.st) := by
  by_cases hpolicy : s.as.cachingPolicy = .none
  · -- with the cache turned off the call is the uncached one
    have hrun : dwarfFindSaveLocs k' v m' fuel' s =
        onSt (uncachedDwarfFindSaveLocs k' v m' fuel') s := by
      unfold dwarfFindSaveLocs
      rw [Act.get_bind, if_pos hpolicy]
    rw [hrun]
    refine ⟨rfl, rfl, ?_, hcall.indexed.hint, hcall.indexed.prevRs⟩
    unfold afterCall
    rw [if_pos hpolicy]
    exact h
  · obtain ⟨as', hget, hgeneration, rows, hrows, hkeys⟩ := h.get hpolicy (hcall.safe hpolicy).setUp
    have hcall' : CallAfter k m fuel events k' m' fuel' { s with as := as' } :=
      ⟨hcall.unchanged, hcall.turns, ⟨hcall.indexed.hint, hcall.indexed.prevRs⟩,
        fun _ => hcall.safe hpolicy⟩
    -- the call works on the cache that `get_rs_cache` returns
    obtain ⟨r, s', hrun, hend, hleaves⟩ := cachedRow_end hcall' (hcall.safe hpolicy) hrows hkeys rfl
    obtain ⟨hout, hframe⟩ := hend.agrees v hrun
    obtain ⟨has, hindices⟩ := Prod.mk.inj (applyRegState_indices v hrun)
    obtain ⟨hhint, hprevRs⟩ := Prod.mk.inj hindices
    rw [dwarfFindSaveLocs_of_get v hpolicy hget]
    refine ⟨hout, hframe, ?_, ?_, ?_⟩
    · unfold afterCall
      rw [if_neg hpolicy, has]
      exact hleaves.inv hgeneration
    · exact hleaves.indexed.hint.imp fun _ h => hhint.trans h
    · exact hleaves.indexed.prevRs.imp fun _ h => hprevRs.trans h

/-- **The invariant over a history.** -/
theorem CachedRun.inv {as : AddrSpace} (run : CachedRun k m fuel events as) :
    CachedRunInv k m fuel events as := by
  induction run with
  | init => exact ⟨rfl, nofun⟩
  | @flush events as run ih => exact ih.flush as.cachingPolicy
  | @policy events as run policy ih =>
    unfold unwSetCachingPolicy
    by_cases hchange : effectivePolicy policy = as.cachingPolicy
    · rw [if_pos hchange, if_pos hchange]
      exact ih
    · rw [if_neg hchange, if_neg hchange]
      -- a change of the policy flushes
      exact ih.flush (effectivePolicy policy)
  | call run call ih => exact (ih.call call _).inv

/-- A call leaves indices of buckets in the cursor, for the next one. -/
theorem CachedRun.indexed {s : CachedSt} (run : CachedRun k m fuel events s.as)
    (call : CallAfter k m fuel events k' m' fuel' s) (v : Validator) :
    (dwarfFindSaveLocs k' v m' fuel' s).2.Indexed := (run.inv.call call v).indexed

/-- **The cached body agrees with the uncached one**, in every history of calls that may use the
cache: the call returns the same value and leaves the same frame. -/
theorem cached_eq_uncached {s : CachedSt} (run : CachedRun k m fuel events s.as)
    (call : CallAfter k m fuel events k' m' fuel' s) (v : Validator) :
    (dwarfFindSaveLocs k' v m' fuel' s).1 = (uncachedDwarfFindSaveLocs k' v m' fuel' s.st).1 ∧
      frameLeft (dwarfFindSaveLocs k' v m' fuel' s).2.st =
        frameLeft (uncachedDwarfFindSaveLocs k' v m' fuel' s.st).2 := by
  have hagrees := run.inv.call call v
  exact ⟨hagrees.outcome, hagrees.frame⟩

end Runs

/-- A cursor at an address, with nothing in the cache. -/
def firstFrame (ip : Word) (usePrevInstr : Bool) : CachedSt :=
  ⟨(callFrame ip).withRow 16 usePrevInstr, x86_64LocalAddrSpaceInit, 0, 0⟩

/-- A cursor at the same address, after a call for it by another one. -/
def secondFrame (k : Kernel) (m : Mem) (ip : Word) (usePrevInstr usePrevInstr' : Bool) : CachedSt :=
  { firstFrame ip usePrevInstr' with
    as := (dwarfFindSaveLocs k msyncValidate m 128 (firstFrame ip usePrevInstr)).2.as }

section Frames

variable {k : Kernel} {m : Mem} {ip : Word}

theorem secondFrame_run (hip : ip ≠ 0) (usePrevInstr usePrevInstr' : Bool)
    {row : Option (Word × Word)} (hrow : rowKey k m 128 (firstFrame ip usePrevInstr).st.c = row) :
    CachedRun k m 128 [.call row] (secondFrame k m ip usePrevInstr usePrevInstr').as := by
  have hcall : CallAfter k m 128 [] k m 128 (firstFrame ip usePrevInstr) :=
    ⟨⟨fun _ => rfl, fun _ _ _ _ => rfl⟩, le_refl _, ⟨⟨0, rfl⟩, ⟨0, rfl⟩⟩,
      fun _ => ⟨nofun, nofun, nofun, fun hzero => absurd hzero hip⟩⟩
  rw [← hrow]
  exact CachedRun.call .init hcall

theorem secondFrame_call {events : List CacheEvent} (usePrevInstr usePrevInstr' : Bool)
    (hsafe : CacheSafe k m 128 events (firstFrame ip usePrevInstr').st.c) :
    CallAfter k m 128 events k m 128 (secondFrame k m ip usePrevInstr usePrevInstr') :=
  ⟨⟨fun _ => rfl, fun _ _ _ _ => rfl⟩, le_refl _, ⟨⟨0, rfl⟩, ⟨0, rfl⟩⟩, fun _ => hsafe⟩

end Frames

/-- A frame of the procedure with two rows that is met twice, the second time not as the caller of
another one. The two addresses that are looked up have the same FDE. -/
theorem cached_two_rows :
    (dwarfFindSaveLocs twoRowsKernel msyncValidate twoRowsMem 128
        (secondFrame twoRowsKernel twoRowsMem 0x5012 true false)).1 =
      (uncachedDwarfFindSaveLocs twoRowsKernel msyncValidate twoRowsMem 128
        (secondFrame twoRowsKernel twoRowsMem 0x5012 true false).st).1 ∧
      frameLeft (dwarfFindSaveLocs twoRowsKernel msyncValidate twoRowsMem 128
        (secondFrame twoRowsKernel twoRowsMem 0x5012 true false)).2.st =
      frameLeft (uncachedDwarfFindSaveLocs twoRowsKernel msyncValidate twoRowsMem 128
        (secondFrame twoRowsKernel twoRowsMem 0x5012 true false).st).2 := by
  have hkey : rowKey twoRowsKernel twoRowsMem 128 (firstFrame 0x5012 true).st.c =
      some (0x5012, 0x5011) := by decide +kernel
  have hinfo : unwindInfoAt twoRowsKernel twoRowsMem 0x5012 =
      unwindInfoAt twoRowsKernel twoRowsMem 0x5011 := by decide +kernel
  have hsignal : (unwindInfoAt twoRowsKernel twoRowsMem 0x5011 >>= fun pi =>
      .ok pi.unwindInfo.signalFrame) = .ok (some false) := by decide +kernel
  have hstored : ∀ addr : Word, ((0x5012 : Word), addr) ∈
      rowsServed [.call (some (0x5012, 0x5011))] → addr = 0x5011 := by
    intro addr hmem
    exact congrArg Prod.snd (List.mem_singleton.1 hmem)
  have hsafe : CacheSafe twoRowsKernel twoRowsMem 128 [.call (some (0x5012, 0x5011))]
      (firstFrame 0x5012 false).st.c := by
    refine ⟨fun _ => ⟨_, List.mem_singleton_self _⟩, fun addr hmem => ?_,
      fun addr hmem pi hpi => ?_, fun hzero => absurd hzero (by decide)⟩
    · rw [hstored addr hmem]
      exact hinfo
    · rw [hstored addr hmem] at hpi
      rw [hpi, Res.ok_bind] at hsignal
      rw [Res.ok.inj hsignal]
      decide
  exact cached_eq_uncached (secondFrame_run (by decide) true false hkey)
    (secondFrame_call true false hsafe) msyncValidate

/-- The memory of a procedure like the one with two rows, whose CIE is marked as a signal frame. -/
def signalMem : Mem := fun a =>
  ([0x00, 0x50, 0x00, 0x00, 0x1b, 0x20, 0x00, 0x00,
    -- the CIE: length, id, version, augmentation "S", factors 1 and -8, column 16
    0x0f, 0x00, 0x00, 0x00, 0x00, 0x00, 0x00, 0x00, 0x01, 0x53, 0x00, 0x01, 0x78, 0x10,
    -- def_cfa RSP 8, offset RIP -8
    0x0c, 0x07, 0x08, 0x90, 0x01,
    -- the FDE: length, distance to the CIE, start, range, ABI marker
    0x1b, 0x00, 0x00, 0x00, 0x17, 0x00, 0x00, 0x00,
    0x00, 0x50, 0x00, 0x00, 0x00, 0x00, 0x00, 0x00,
    0x00, 0x01, 0x00, 0x00, 0x00, 0x00, 0x00, 0x00,
    0x00, 0x00, 0x00, 0x00,
    -- advance_loc 16, def_cfa_offset 16
    0x50, 0x0e, 0x10] : List Byte).getD (a - 0x2000).toNat 0

/-- A signal frame that is met twice. The cached body takes its caller for a call site. -/
theorem cached_signal_frame :
    CachedRun twoRowsKernel signalMem 128 [.call (some (0x5012, 0x5012))]
        (secondFrame twoRowsKernel signalMem 0x5012 false false).as ∧
      (dwarfFindSaveLocs twoRowsKernel msyncValidate signalMem 128
        (secondFrame twoRowsKernel signalMem 0x5012 false false)).1 = .ok () ∧
      (dwarfFindSaveLocs twoRowsKernel msyncValidate signalMem 128
        (secondFrame twoRowsKernel signalMem 0x5012 false false)).2.st.c.usePrevInstr = true ∧
      (uncachedDwarfFindSaveLocs twoRowsKernel msyncValidate signalMem 128
        (secondFrame twoRowsKernel signalMem 0x5012 false false).st).1 = .ok () ∧
      (uncachedDwarfFindSaveLocs twoRowsKernel msyncValidate signalMem 128
        (secondFrame twoRowsKernel signalMem 0x5012 false false).st).2.c.usePrevInstr = false := by
  have hkey : rowKey twoRowsKernel signalMem 128 (firstFrame 0x5012 false).st.c =
      some (0x5012, 0x5012) := by decide +kernel
  exact ⟨secondFrame_run (by decide) false false hkey, by decide +kernel, by decide +kernel,
    by decide +kernel, by decide +kernel⟩

end LibunwindKern
