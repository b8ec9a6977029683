import LibunwindKern.Dwarf.RsCache
import LibunwindKern.Lib.LinkedChain

/-!
# The invariant of the cache of register states

`RsCache.Inv free recent` describes a cache by two lists: the buckets that are not used since the
last flush, and the addresses that are in the cache, the most recent one first, each with its bucket.

* The reuse chain links the unused buckets and then the used ones, the oldest first.
* The collision chain of a hash value links exactly the buckets of the addresses with that value.

`rsLookup_spec` and `rsNew_spec` say what the two operations do to such a cache, and
`rs_cache_sound` is the resulting statement about every sequence of operations: `rs_lookup` finds
exactly the last 128 addresses that were inserted since the last `get_rs_cache` that had to flush.
-/

namespace LibunwindKern

open CProg ByteMem LinkedChain Rs

theorem toNat_index (rs : Fin dwarfUnwCacheSize) : (index rs).toNat = rs := by
  revert rs
  decide +kernel

/-- The indices of buckets, with `-1` for none. -/
def rsNaming : Naming (Fin dwarfUnwCacheSize) (BitVec 16) where
  name := index
  null := BitVec.allOnes 16
  injective := fun a b h => Fin.ext (by rw [← toNat_index a, h, toNat_index b])
  name_ne_null := by decide +kernel

theorem bucket_index (rs : Fin dwarfUnwCacheSize) (s : RsSt) :
    bucket (index rs) s = (.ok rs, s) := by
  unfold bucket
  simp only [toNat_index, rs.isLt, dif_pos]
  rfl

/-! ### Views of a cache -/

namespace RsCache

variable (c : RsCache)

/-- The links of the reuse chain. -/
def lru (b : Fin dwarfUnwCacheSize) : BitVec 16 := (c.buckets b).lruChain

/-- The links of the collision chains. -/
def coll (b : Fin dwarfUnwCacheSize) : BitVec 16 := (c.buckets b).collChain

/-- The address that a bucket is for. -/
def key (b : Fin dwarfUnwCacheSize) : Word := (c.buckets b).ip

/-- Whether a bucket may match. -/
def isValid (b : Fin dwarfUnwCacheSize) : Bool := (c.buckets b).valid

/-- What a bucket holds for its address. -/
def content (b : Fin dwarfUnwCacheSize) : RegState × Word × Bool :=
  ((c.buckets b).reg, (c.buckets b).retAddrColumn, (c.buckets b).signalFrame)

/-- The cache without the hints and without what is held for the addresses. -/
def skeleton : RsCache :=
  { c with
    buckets := fun b =>
      { Bucket.zero with
        ip := c.key b
        lruChain := c.lru b
        collChain := c.coll b
        valid := c.isValid b } }

end RsCache

/-- A view of the buckets after a write to one of them. -/
theorem view_update {γ : Type} (f : Bucket → γ) (buckets : Fin dwarfUnwCacheSize → Bucket)
    (i : Fin dwarfUnwCacheSize) (v : Bucket) :
    (fun b => f (Function.update buckets i v b)) =
      Function.update (fun b => f (buckets b)) i (f v) :=
  Function.comp_update f buckets i v

/-- A view of the buckets that does not see a write. -/
theorem view_update_same {γ : Type} (f : Bucket → γ) {buckets : Fin dwarfUnwCacheSize → Bucket}
    {i : Fin dwarfUnwCacheSize} {v : Bucket} (h : f v = f (buckets i)) :
    (fun b => f (Function.update buckets i v b)) = fun b => f (buckets b) := by
  rw [view_update, h]
  exact Function.update_eq_self i fun b => f (buckets b)

/-! ### The invariant -/

/-- The buckets in the order in which they are reused. -/
def reuseOrder (free : List (Fin dwarfUnwCacheSize))
    (recent : List (Word × Fin dwarfUnwCacheSize)) : List (Fin dwarfUnwCacheSize) :=
  free ++ (recent.map Prod.snd).reverse

/-- For each hash value the buckets in `S` are linked, and no others. -/
def Chained (coll : Fin dwarfUnwCacheSize → BitVec 16) (heads : BitVec 8 → BitVec 16)
    (S : Fin dwarfUnwCacheSize → BitVec 8 → Prop) : Prop :=
  ∀ k, ∃ l, rsNaming.Linked coll (heads k) l ∧ ∀ b, b ∈ l ↔ S b k

/-- The bucket is used for an address with this hash value. -/
def Hashed (key : Fin dwarfUnwCacheSize → Word) (b : Fin dwarfUnwCacheSize) (k : BitVec 8) : Prop :=
  key b ≠ 0 ∧ rsHash (key b) = k

/-- A cache with these unused buckets and these addresses. -/
structure RsCache.Inv (c : RsCache) (free : List (Fin dwarfUnwCacheSize))
    (recent : List (Word × Fin dwarfUnwCacheSize)) : Prop where
  queue : rsNaming.Queue c.lru c.lruHead c.lruTail (reuseOrder free recent)
  nodup : (reuseOrder free recent).Nodup
  all : ∀ b, b ∈ reuseOrder free recent
  unused : ∀ b ∈ free, c.key b = 0 ∧ c.isValid b = false
  held : ∀ p ∈ recent, c.key p.2 = p.1 ∧ c.isValid p.2 = true ∧ p.1 ≠ 0
  distinct : (recent.map Prod.fst).Nodup
  chained : Chained c.coll c.hash (Hashed c.key)

/-- The invariant is about the skeleton. -/
theorem RsCache.Inv.of_skeleton {c c' : RsCache} {free : List (Fin dwarfUnwCacheSize)}
    {recent : List (Word × Fin dwarfUnwCacheSize)} (h : c.Inv free recent)
    (heq : c'.skeleton = c.skeleton) : c'.Inv free recent := by
  -- every field reads the skeleton only, so the two statements are the same
  have hskeleton : c.skeleton.Inv free recent :=
    ⟨h.queue, h.nodup, h.all, h.unused, h.held, h.distinct, h.chained⟩
  rw [← heq] at hskeleton
  exact ⟨hskeleton.queue, hskeleton.nodup, hskeleton.all, hskeleton.unused, hskeleton.held,
    hskeleton.distinct, hskeleton.chained⟩

section Facts

variable {c : RsCache} {free : List (Fin dwarfUnwCacheSize)}
  {recent : List (Word × Fin dwarfUnwCacheSize)} (h : c.Inv free recent)
include h

/-- A bucket is unused or holds one of the addresses. -/
theorem RsCache.Inv.unused_or_held (b : Fin dwarfUnwCacheSize) :
    b ∈ free ∨ (c.key b, b) ∈ recent := by
  have hmem := h.all b
  rw [reuseOrder, List.mem_append, List.mem_reverse, List.mem_map] at hmem
  -- the reuse order lists all the buckets
  obtain hfree | ⟨p, hp, rfl⟩ := hmem
  · exact Or.inl hfree
  · refine Or.inr ?_
    rw [(h.held p hp).1]
    exact hp

/-- A bucket matches an address if and only if it holds it. -/
theorem RsCache.Inv.cacheMatch_iff (ip : Word) (b : Fin dwarfUnwCacheSize) :
    cacheMatch (c.buckets b) ip = true ↔ (ip, b) ∈ recent := by
  unfold cacheMatch
  rw [decide_eq_true_eq]
  constructor
  · rintro ⟨hvalid, rfl⟩
    -- an unused bucket is not valid, even for the address 0
    obtain hfree | hheld := h.unused_or_held b
    · exact absurd hvalid (by rw [show (c.buckets b).valid = false from (h.unused b hfree).2]; decide)
    · exact hheld
  · intro hmem
    obtain ⟨hkey, hvalid, -⟩ := h.held _ hmem
    exact ⟨hvalid, hkey.symm⟩

/-- An address is held once. -/
theorem RsCache.Inv.bucket_unique {ip : Word} {b b' : Fin dwarfUnwCacheSize}
    (hb : (ip, b) ∈ recent) (hb' : (ip, b') ∈ recent) : b = b' := by
  have hinj := List.inj_on_of_nodup_map h.distinct
  exact congrArg Prod.snd (hinj hb hb' rfl)

/-- The buckets with an address are the ones that hold one. -/
theorem RsCache.Inv.key_ne_zero_iff (b : Fin dwarfUnwCacheSize) :
    c.key b ≠ 0 ↔ (c.key b, b) ∈ recent := by
  constructor
  · intro hkey
    obtain hfree | hheld := h.unused_or_held b
    · exact absurd (h.unused b hfree).1 hkey
    · exact hheld
  · exact fun hheld => (h.held _ hheld).2.2

end Facts

/-- A chain is no longer than there are buckets. -/
theorem chain_length_lt {link : Fin dwarfUnwCacheSize → BitVec 16} {head : BitVec 16}
    {x : Fin dwarfUnwCacheSize} {l : List (Fin dwarfUnwCacheSize)}
    (h : rsNaming.Linked link head (x :: l)) {fuel : ℕ} (hfuel : dwarfUnwCacheSize ≤ fuel) :
    l.length < fuel := by
  -- no bucket is linked twice
  have hle := h.nodup.length_le_card
  rw [Fintype.card_fin, List.length_cons] at hle
  exact Nat.lt_of_lt_of_le hle hfuel

/-! ### Looking up -/

/-- The cache without its hints, which are all that a lookup changes. -/
def apartFromHints (s : RsSt) : RsCache × (Fin dwarfUnwCacheSize → RegState × Word × Bool) :=
  (s.cache.skeleton, s.cache.content)

/-- A write to a bucket that the collision and reuse chains do not see. -/
theorem setBucket_skeleton {f : Bucket → Bucket}
    (hf : ∀ b, (f b).ip = b.ip ∧ (f b).lruChain = b.lruChain ∧ (f b).collChain = b.collChain ∧
      (f b).valid = b.valid) (rs : Fin dwarfUnwCacheSize) :
    Act.Keeps (fun s : RsSt => s.cache.skeleton) (setBucket rs f) := by
  intro s
  obtain ⟨hip, hlru, hcoll, hvalid⟩ := hf (s.cache.buckets rs)
  refine congrArg (fun buckets => { s.cache with buckets := buckets }) ?_
  exact view_update_same (fun b => { Bucket.zero with
    ip := b.ip, lruChain := b.lruChain, collChain := b.collChain, valid := b.valid })
    (by rw [hip, hlru, hcoll, hvalid])

theorem setHint_apart (hint : BitVec 16) (rs : Fin dwarfUnwCacheSize) :
    Act.Keeps apartFromHints (setBucket rs fun b => { b with hint := hint }) := by
  intro s
  have hskeleton : Act.Keeps (fun s : RsSt => s.cache.skeleton)
      (setBucket rs fun b => { b with hint := hint }) := by
    apply setBucket_skeleton
    exact fun _ => ⟨rfl, rfl, rfl, rfl⟩
  refine Prod.ext (hskeleton s) ?_
  exact view_update_same (fun b => (b.reg, b.retAddrColumn, b.signalFrame)) rfl

section Lookup

variable {ip : Word} {b : Fin dwarfUnwCacheSize} {s : RsSt}

/-- A turn at a bucket that matches. -/
theorem lookupTurn_of_match {prev : Fin dwarfUnwCacheSize} (hprev : s.prevRs = index prev)
    (h : cacheMatch (s.cache.buckets b) ip = true) :
    ∃ t, lookupTurn ip b s = (.ok (.inr (some b)), t) ∧ apartFromHints t = apartFromHints s ∧
      t.hint = index b ∧ t.prevRs = s.prevRs := by
  -- the hint of the bucket used before is set to this one
  unfold lookupTurn
  rw [Act.get_bind, if_pos h, hprev, Act.bind_of_ok (bucket_index prev s)]
  exact ⟨_, rfl, setHint_apart (index b) prev s, rfl, hprev.symm ▸ rfl⟩

/-- A turn at the last bucket of a chain. -/
theorem lookupTurn_of_last (h : cacheMatch (s.cache.buckets b) ip = false)
    (hlast : s.cache.coll b = rsNaming.null) : lookupTurn ip b s = (.ok (.inr none), s) := by
  -- the code compares with the size of the hash table, and `-1` is past that as well
  have hend : dwarfUnwHashSize ≤ (s.cache.buckets b).collChain.toNat := by
    rw [show (s.cache.buckets b).collChain = BitVec.allOnes 16 from hlast]
    decide
  unfold lookupTurn
  rw [Act.get_bind, h, if_neg Bool.false_ne_true, if_pos hend]
  rfl

/-- A turn at another bucket of a chain. -/
theorem lookupTurn_of_next {b' : Fin dwarfUnwCacheSize}
    (h : cacheMatch (s.cache.buckets b) ip = false) (hnext : s.cache.coll b = index b') :
    lookupTurn ip b s = (.ok (.inl b'), s) := by
  have hcoll : (s.cache.buckets b).collChain = index b' := hnext
  -- an index of a bucket is below the size of the hash table, which is the greater one
  have hmore : ¬dwarfUnwHashSize ≤ (s.cache.buckets b).collChain.toNat := by
    rw [hcoll, toNat_index]
    exact Nat.not_le.2 (Nat.lt_trans b'.isLt (by decide))
  unfold lookupTurn
  rw [Act.get_bind, h, if_neg Bool.false_ne_true, if_neg hmore, hcoll,
    Act.bind_of_ok (bucket_index b' s)]
  rfl

/-- What a lookup in a chain does: it ends with the bucket that matches, or with none. -/
structure LooksUp (ip : Word) (l : List (Fin dwarfUnwCacheSize)) (s : RsSt)
    (r : Option (Fin dwarfUnwCacheSize)) (t : RsSt) : Prop where
  hit : ∀ b, r = some b → cacheMatch (s.cache.buckets b) ip = true
  miss : r = none → t = s ∧ ∀ b ∈ l, cacheMatch (s.cache.buckets b) ip = false
  apart : apartFromHints t = apartFromHints s
  prevRs : t.prevRs = s.prevRs
  hint : t.hint = s.hint ∨ ∃ b, t.hint = index b

/-- The loop ends at a bucket that matches. -/
theorem iter_lookup_of_match {prev : Fin dwarfUnwCacheSize} (hprev : s.prevRs = index prev)
    (h : cacheMatch (s.cache.buckets b) ip = true) (fuel : ℕ) (l : List (Fin dwarfUnwCacheSize)) :
    ∃ r t, Act.iter (lookupTurn ip) (fuel + 1) b s = (.ok r, t) ∧ LooksUp ip l s r t := by
  obtain ⟨t, hturn, hapart, hhint, hsame⟩ := lookupTurn_of_match hprev h
  refine ⟨some b, t, Act.iter_of_inr fuel hturn, ?_, nofun, hapart, hsame, Or.inr ⟨b, hhint⟩⟩
  rintro _ ⟨⟩
  exact h

/-- **The loop of a lookup.** The induction is over the rest of the chain. -/
theorem iter_lookup (ip : Word) {prev : Fin dwarfUnwCacheSize} (hprev : s.prevRs = index prev)
    {l : List (Fin dwarfUnwCacheSize)} {fuel : ℕ} (hfuel : l.length < fuel)
    (hlink : rsNaming.Linked s.cache.coll (index b) (b :: l)) :
    ∃ r t, Act.iter (lookupTurn ip) fuel b s = (.ok r, t) ∧ LooksUp ip (b :: l) s r t := by
  induction l generalizing b fuel with
  | nil =>
    obtain ⟨fuel, rfl⟩ : ∃ n, fuel = n + 1 := ⟨fuel - 1, by omega⟩
    cases hmatch : cacheMatch (s.cache.buckets b) ip with
    | true => exact iter_lookup_of_match hprev hmatch fuel _
    | false =>
      refine ⟨none, s, Act.iter_of_inr fuel (lookupTurn_of_last hmatch hlink.2), nofun,
        fun _ => ⟨rfl, ?_⟩, rfl, rfl, Or.inl rfl⟩
      intro b' hb'
      rw [List.mem_singleton.1 hb', hmatch]
  | cons b' l ih =>
    obtain ⟨fuel, rfl⟩ : ∃ n, fuel = n + 1 := ⟨fuel - 1, by omega⟩
    cases hmatch : cacheMatch (s.cache.buckets b) ip with
    | true => exact iter_lookup_of_match hprev hmatch fuel _
    | false =>
      have hnext : s.cache.coll b = index b' := hlink.2.1
      have hrest : rsNaming.Linked s.cache.coll (index b') (b' :: l) := ⟨rfl, hlink.2.2⟩
      have hlength : l.length < fuel := Nat.lt_of_succ_lt_succ hfuel
      -- a turn that goes on has changed nothing, so the rest is looked up in the same cache
      obtain ⟨r, t, hrun, hlooks⟩ := ih hlength hrest
      rw [Act.iter_of_inl fuel (lookupTurn_of_next hmatch hnext)]
      refine ⟨r, t, hrun, hlooks.hit, fun hr => ?_, hlooks.apart, hlooks.prevRs, hlooks.hint⟩
      obtain ⟨hsame, hmiss⟩ := hlooks.miss hr
      refine ⟨hsame, fun x hx => ?_⟩
      rcases List.mem_cons.1 hx with rfl | hx
      · exact hmatch
      · exact hmiss x hx

/-- A lookup that is right about a chain on which the address would be is right about the cache. -/
theorem LooksUp.exact {r : Option (Fin dwarfUnwCacheSize)} {t : RsSt}
    {l : List (Fin dwarfUnwCacheSize)} (hlooks : LooksUp ip l s r t)
    {free : List (Fin dwarfUnwCacheSize)} {recent : List (Word × Fin dwarfUnwCacheSize)}
    (hinv : s.cache.Inv free recent) (hcover : ∀ b, (ip, b) ∈ recent → b ∈ l ∨ r ≠ none)
    (b : Fin dwarfUnwCacheSize) : r = some b ↔ (ip, b) ∈ recent := by
  constructor
  · exact fun hr => (hinv.cacheMatch_iff ip b).1 (hlooks.hit b hr)
  · intro hb
    cases r with
    | none =>
      -- if nothing is found, all of the chain was compared
      rcases hcover b hb with hl | hne
      · have hmiss := (hlooks.miss rfl).2 b hl
        rw [(hinv.cacheMatch_iff ip b).2 hb] at hmiss
        cases hmiss
      · exact absurd rfl hne
    | some b' =>
      -- and if another bucket is found, it holds the same address
      have hb' := (hinv.cacheMatch_iff ip b').1 (hlooks.hit b' rfl)
      rw [hinv.bucket_unique hb' hb]

/-- **A lookup** returns the bucket that holds the address, if there is one. It changes nothing but
hints, and nothing at all if there is none. -/
theorem rsLookup_spec {free : List (Fin dwarfUnwCacheSize)}
    {recent : List (Word × Fin dwarfUnwCacheSize)} (hinv : s.cache.Inv free recent)
    {hint prev : Fin dwarfUnwCacheSize} (hhint : s.hint = index hint)
    (hprev : s.prevRs = index prev) {fuel : ℕ} (hfuel : dwarfUnwCacheSize ≤ fuel) (ip : Word) :
    ∃ r t, rsLookup fuel ip s = (.ok r, t) ∧ (∀ b, r = some b ↔ (ip, b) ∈ recent) ∧
      LooksUp ip [] s r t := by
  unfold rsLookup
  rw [Act.get_bind, hhint, Act.bind_of_ok (bucket_index hint s)]
  cases hmatch : cacheMatch (s.cache.buckets hint) ip with
  | true =>
    -- the hint is right, and the hash table is not used
    have hlooks : LooksUp ip [] s (some hint) s :=
      ⟨by rintro _ ⟨⟩; exact hmatch, nofun, rfl, rfl, Or.inl rfl⟩
    exact ⟨some hint, s, rfl, hlooks.exact hinv fun _ _ => Or.inr nofun, hlooks⟩
  | false =>
    rw [if_neg Bool.false_ne_true]
    -- all buckets for the address are on the chain of its hash value
    obtain ⟨l, hlink, hmem⟩ := hinv.chained (rsHash ip)
    have hcover : ∀ b, (ip, b) ∈ recent → b ∈ l := by
      intro b hb
      obtain ⟨hkey, -, hne⟩ := hinv.held _ hb
      exact (hmem b).2 ⟨by rw [hkey]; exact hne, by rw [hkey]⟩
    cases l with
    | nil =>
      -- no chain for this hash value
      have hnull : dwarfUnwCacheSize ≤ (s.cache.hash (rsHash ip)).toNat := by
        rw [show s.cache.hash (rsHash ip) = BitVec.allOnes 16 from hlink]
        decide
      have hlooks : LooksUp ip [] s none s := ⟨nofun, fun _ => ⟨rfl, nofun⟩, rfl, rfl, Or.inl rfl⟩
      rw [if_pos hnull]
      exact ⟨none, s, rfl, hlooks.exact hinv fun b hb => Or.inl (hcover b hb), hlooks⟩
    | cons b l =>
      have hhead : s.cache.hash (rsHash ip) = index b := hlink.1
      have hsome : ¬dwarfUnwCacheSize ≤ (s.cache.hash (rsHash ip)).toNat := by
        rw [hhead, toNat_index]
        exact Nat.not_le.2 b.isLt
      rw [if_neg hsome, hhead, Act.bind_of_ok (bucket_index b s)]
      obtain ⟨r, t, hrun, hlooks⟩ :=
        iter_lookup ip hprev (chain_length_lt hlink hfuel) ⟨rfl, hlink.2⟩
      refine ⟨r, t, hrun, hlooks.exact hinv fun b hb => Or.inl (hcover b hb), ?_⟩
      exact ⟨hlooks.hit, fun hr => ⟨(hlooks.miss hr).1, nofun⟩, hlooks.apart, hlooks.prevRs,
        hlooks.hint⟩

/-- An address for which a lookup returns `NULL` is not in the cache. -/
theorem RsCache.Inv.notMem_of_null {free : List (Fin dwarfUnwCacheSize)}
    {recent : List (Word × Fin dwarfUnwCacheSize)} (hinv : s.cache.Inv free recent)
    {hint prev : Fin dwarfUnwCacheSize} (hhint : s.hint = index hint)
    (hprev : s.prevRs = index prev) {fuel : ℕ} (hfuel : dwarfUnwCacheSize ≤ fuel)
    (hnull : (rsLookup fuel ip s).1 = .ok none) (b : Fin dwarfUnwCacheSize) : (ip, b) ∉ recent := by
  obtain ⟨r, t, hrun, hexact, -⟩ := rsLookup_spec hinv hhint hprev hfuel ip
  intro hb
  have hr := (hexact b).2 hb
  rw [hrun, hr] at hnull
  cases hnull

end Lookup

/-! ### The bucket that is reused -/

/-- All but the reuse chain. -/
structure SameButLru (s t : RsSt) : Prop where
  coll : t.cache.coll = s.cache.coll
  hash : t.cache.hash = s.cache.hash
  key : t.cache.key = s.cache.key
  isValid : t.cache.isValid = s.cache.isValid
  content : t.cache.content = s.cache.content
  generation : t.cache.generation = s.cache.generation
  hint : t.hint = s.hint
  prevRs : t.prevRs = s.prevRs

/-- **The first part of an insertion** takes the first bucket of the queue and moves it to the
end. -/
theorem reuseRs_spec {s : RsSt} {b p : Fin dwarfUnwCacheSize} {l : List (Fin dwarfUnwCacheSize)}
    (hqueue : rsNaming.Queue s.cache.lru s.cache.lruHead s.cache.lruTail (b :: l ++ [p]))
    (hnodup : (b :: l ++ [p]).Nodup) :
    ∃ t, reuseRs s = (.ok b, t) ∧ SameButLru s t ∧
      rsNaming.Queue t.cache.lru t.cache.lruHead t.cache.lruTail (l ++ [p] ++ [b]) := by
  have hhead : s.cache.lruHead = index b := hqueue.first b rfl
  have htail : s.cache.lruTail = index p := by
    refine hqueue.last p ?_
    rw [List.getLast?_append_cons]
    rfl
  -- taking the head and appending it is a rotation of the queue
  have hrotate := hqueue.rotate hnodup
  unfold reuseRs
  rw [Act.get_bind, hhead, htail, Act.bind_of_ok (bucket_index b s)]
  -- the head is moved before the tail is read
  change ∃ t, (bucket (index p) >>= _) _ = _ ∧ _
  rw [Act.bind_of_ok (bucket_index p _)]
  set buckets := Function.update s.cache.buckets p
    { s.cache.buckets p with lruChain := index b } with hbuckets
  refine ⟨{ s with cache := { s.cache with
    lruHead := s.cache.lru b, lruTail := index b, buckets := buckets } }, rfl,
    ⟨?_, rfl, ?_, ?_, ?_, rfl, rfl, rfl⟩, ?_⟩
  · exact view_update_same Bucket.collChain rfl
  · exact view_update_same Bucket.ip rfl
  · exact view_update_same Bucket.valid rfl
  · exact view_update_same (fun b => (b.reg, b.retAddrColumn, b.signalFrame)) rfl
  · have hlru : (fun x => (buckets x).lruChain) = Function.update s.cache.lru p (index b) :=
      view_update Bucket.lruChain _ _ _
    change rsNaming.Queue (fun x => (buckets x).lruChain) (s.cache.lru b) (index b) _
    rw [hlru]
    exact hrotate

/-! ### Removing a bucket from its collision chain -/

/-- The cache with other collision chains. -/
def RsSt.rechain (s : RsSt) (coll : Fin dwarfUnwCacheSize → BitVec 16)
    (heads : BitVec 8 → BitVec 16) : RsSt :=
  { s with
    cache :=
      { s.cache with
        hash := heads
        buckets := fun b => { s.cache.buckets b with collChain := coll b } } }

section Remove

variable {s : RsSt} {b : Fin dwarfUnwCacheSize} {k : BitVec 8}

/-- The chains after a bucket was taken out of the chain `l₁ ++ b :: l₂`. -/
structure TakenOut (s : RsSt) (k : BitVec 8) (l₁ l₂ : List (Fin dwarfUnwCacheSize))
    (coll : Fin dwarfUnwCacheSize → BitVec 16) (heads : BitVec 8 → BitVec 16) : Prop where
  linked : rsNaming.Linked coll (heads k) (l₁ ++ l₂)
  others : ∀ k', k' ≠ k → heads k' = s.cache.hash k'
  links : ∀ x, x ∉ l₁ → coll x = s.cache.coll x

theorem update_collChain (buckets : Fin dwarfUnwCacheSize → Bucket) (p : Fin dwarfUnwCacheSize)
    (w : BitVec 16) :
    Function.update buckets p { buckets p with collChain := w } = fun x =>
      { buckets x with collChain := Function.update (fun b => (buckets b).collChain) p w x } := by
  funext x
  -- the write is seen at its own bucket only
  by_cases hx : x = p
  · rw [hx, Function.update_self, Function.update_self]
  · rw [Function.update_of_ne hx, Function.update_of_ne hx]

/-- The turn at the bucket itself. -/
theorem removeTurn_of_eq {l₁ l₂ : List (Fin dwarfUnwCacheSize)}
    (hlink : rsNaming.Linked s.cache.coll (s.cache.hash k) (l₁ ++ b :: l₂)) :
    ∃ coll heads, removeTurn b k (b, l₁.getLast?) s = (.ok (.inr ()), s.rechain coll heads) ∧
      TakenOut s k l₁ l₂ coll heads := by
  unfold removeTurn
  rw [Act.get_bind, if_pos rfl]
  rcases List.eq_nil_or_concat l₁ with rfl | ⟨l, p, rfl⟩
  · -- the first bucket of the chain
    refine ⟨s.cache.coll, Function.update s.cache.hash k (s.cache.coll b), rfl, ?_, ?_, ?_⟩
    · rw [Function.update_self]
      exact hlink.2
    · exact fun k' hk' => Function.update_of_ne hk' _ _
    · exact fun _ _ => rfl
  · -- the bucket before it is linked to the one behind it
    have hlast : (l.concat p).getLast? = some p := by
      rw [List.concat_eq_append, List.getLast?_append_cons]
      rfl
    rw [hlast]
    rw [List.concat_eq_append, List.append_assoc] at hlink
    refine ⟨Function.update s.cache.coll p (s.cache.coll b), s.cache.hash, ?_, ?_, ?_, ?_⟩
    · have hbuckets := update_collChain s.cache.buckets p (s.cache.coll b)
      change (Res.ok _, ({ s with cache := { s.cache with
        buckets := Function.update s.cache.buckets p
          { s.cache.buckets p with collChain := s.cache.coll b } } } : RsSt)) = _
      rw [hbuckets]
      rfl
    · rw [List.concat_eq_append, List.append_assoc]
      exact hlink.unlink
    · exact fun _ _ => rfl
    · intro x hx
      exact Function.update_of_ne (fun heq => hx (by rw [heq]; simp)) _ _

/-- A turn at a bucket before it. -/
theorem removeTurn_of_ne {x y : Fin dwarfUnwCacheSize} {prev : Option (Fin dwarfUnwCacheSize)}
    (hx : x ≠ b) (hnext : s.cache.coll x = index y) :
    removeTurn b k (x, prev) s = (.ok (.inl (y, some x)), s) := by
  have hcoll : (s.cache.buckets x).collChain = index y := hnext
  have hmore : ¬dwarfUnwCacheSize ≤ (s.cache.buckets x).collChain.toNat := by
    rw [hcoll, toNat_index]
    exact Nat.not_le.2 y.isLt
  unfold removeTurn
  rw [Act.get_bind, if_neg hx, if_neg hmore, hcoll, Act.bind_of_ok (bucket_index y s)]
  rfl

/-- **The loop that removes a bucket.** The induction is over the rest of the chain. -/
theorem iter_remove {x : Fin dwarfUnwCacheSize} (l₁ : List (Fin dwarfUnwCacheSize))
    {l : List (Fin dwarfUnwCacheSize)} {fuel : ℕ}
    (hlink : rsNaming.Linked s.cache.coll (s.cache.hash k) (l₁ ++ x :: l)) (hb : b ∈ x :: l)
    (hfuel : l.length < fuel) :
    ∃ m₁ m₂ coll heads, l₁ ++ x :: l = m₁ ++ b :: m₂ ∧
      Act.iter (removeTurn b k) fuel (x, l₁.getLast?) s = (.ok (), s.rechain coll heads) ∧
      TakenOut s k m₁ m₂ coll heads := by
  induction l generalizing x l₁ fuel with
  | nil =>
    obtain ⟨fuel, rfl⟩ : ∃ n, fuel = n + 1 := ⟨fuel - 1, by omega⟩
    -- the bucket is on the chain, so the last one that is left is the bucket
    obtain rfl : b = x := List.mem_singleton.1 hb
    obtain ⟨coll, heads, hturn, hout⟩ := removeTurn_of_eq hlink
    exact ⟨l₁, [], coll, heads, rfl, Act.iter_of_inr fuel hturn, hout⟩
  | cons y l ih =>
    obtain ⟨fuel, rfl⟩ : ∃ n, fuel = n + 1 := ⟨fuel - 1, by omega⟩
    by_cases hx : b = x
    · subst hx
      obtain ⟨coll, heads, hturn, hout⟩ := removeTurn_of_eq hlink
      exact ⟨l₁, y :: l, coll, heads, rfl, Act.iter_of_inr fuel hturn, hout⟩
    · -- the loop goes on with the bucket as the one before
      have hnext : s.cache.coll x = index y := hlink.from.2.1
      have hlast : (l₁ ++ [x]).getLast? = some x := by
        rw [List.getLast?_append_cons]
        rfl
      have hsplit : l₁ ++ x :: y :: l = (l₁ ++ [x]) ++ y :: l := by
        rw [List.append_assoc]
        rfl
      rw [Act.iter_of_inl _ (removeTurn_of_ne (Ne.symm hx) hnext), hsplit, ← hlast]
      rw [hsplit] at hlink
      exact ih (l₁ ++ [x]) hlink ((List.mem_cons.1 hb).resolve_left hx)
        (Nat.lt_of_succ_lt_succ hfuel)

/-- A bucket that is taken out of its chain is on no chain, and the others are where they were. -/
theorem Chained.takenOut (hchained : Chained s.cache.coll s.cache.hash (Hashed s.cache.key))
    {l m₁ m₂ : List (Fin dwarfUnwCacheSize)} {coll : Fin dwarfUnwCacheSize → BitVec 16}
    {heads : BitVec 8 → BitVec 16}
    (hlink : rsNaming.Linked s.cache.coll (s.cache.hash (rsHash (s.cache.key b))) l)
    (hmem : ∀ x, x ∈ l ↔ Hashed s.cache.key x (rsHash (s.cache.key b)))
    (hsplit : l = m₁ ++ b :: m₂) (hout : TakenOut s (rsHash (s.cache.key b)) m₁ m₂ coll heads) :
    Chained coll heads fun x k => Hashed s.cache.key x k ∧ x ≠ b := by
  intro k
  by_cases hk : k = rsHash (s.cache.key b)
  · -- the chain of the bucket
    subst hk
    have hnodup := hlink.nodup
    have hnot : b ∉ m₁ := fun hm => by
      rw [hsplit, List.nodup_middle, List.nodup_cons] at hnodup
      exact hnodup.1 (List.mem_append_left _ hm)
    have herase : m₁ ++ m₂ = l.erase b := by
      rw [hsplit, List.erase_append_right _ hnot, List.erase_cons_head]
    refine ⟨m₁ ++ m₂, hout.linked, fun y => ?_⟩
    change _ ↔ Hashed s.cache.key y _ ∧ y ≠ b
    rw [herase, hnodup.mem_erase_iff, hmem y, and_comm]
  · -- another chain shares no bucket with it
    obtain ⟨l', hlink', hmem'⟩ := hchained k
    have hapart : ∀ y ∈ l', y ∉ m₁ := by
      intro y hy hm
      have hyl : y ∈ l := hsplit ▸ List.mem_append_left _ hm
      exact hk (((hmem' y).1 hy).2.symm.trans ((hmem y).1 hyl).2)
    refine ⟨l', ?_, fun y => ?_⟩
    · rw [hout.others k hk]
      exact hlink'.frame fun y hy => hout.links y (hapart y hy)
    · rw [hmem' y]
      refine (and_iff_left_of_imp fun hy heq => ?_).symm
      exact hk (hy.2.symm.trans (by rw [heq]))

/-- **Removing a bucket from the hash table**: it is on no chain any more, and the others are where
they were. -/
theorem removeRs_spec (hchained : Chained s.cache.coll s.cache.hash (Hashed s.cache.key))
    (b : Fin dwarfUnwCacheSize) {fuel : ℕ} (hfuel : dwarfUnwCacheSize ≤ fuel) :
    ∃ coll heads, removeRs fuel b s = (.ok (), s.rechain coll heads) ∧
      Chained coll heads fun x k => Hashed s.cache.key x k ∧ x ≠ b := by
  unfold removeRs
  rw [Act.get_bind]
  by_cases hkey : s.cache.key b = 0
  · -- an unused bucket is on no chain
    have hip : ¬(s.cache.buckets b).ip ≠ 0 := not_not_intro hkey
    rw [if_neg hip]
    refine ⟨s.cache.coll, s.cache.hash, rfl, fun k => ?_⟩
    obtain ⟨l, hlink, hmem⟩ := hchained k
    refine ⟨l, hlink, fun x => ?_⟩
    rw [hmem x]
    refine (and_iff_left_of_imp fun hx heq => ?_).symm
    exact hx.1 (heq ▸ hkey)
  · -- a used bucket is on the chain of its address
    have hip : (s.cache.buckets b).ip ≠ 0 := hkey
    rw [if_pos hip]
    obtain ⟨l, hlink, hmem⟩ := hchained (rsHash (s.cache.key b))
    have hb : b ∈ l := (hmem b).2 ⟨hkey, rfl⟩
    obtain ⟨x, l, rfl⟩ := List.exists_cons_of_ne_nil (List.ne_nil_of_mem hb)
    obtain ⟨m₁, m₂, coll, heads, hsplit, hrun, hout⟩ :=
      iter_remove [] hlink hb (chain_length_lt hlink hfuel)
    have hhead : s.cache.hash (rsHash (s.cache.buckets b).ip) = index x := hlink.1
    rw [hhead, Act.bind_of_ok (bucket_index x s)]
    exact ⟨coll, heads, hrun, hchained.takenOut hlink hmem hsplit hout⟩

end Remove

/-! ### Inserting -/

/-- What the last part of an insertion does to the cache. -/
structure Entered (ip retAddrColumn : Word) (b : Fin dwarfUnwCacheSize) (s t : RsSt) : Prop where
  lru : t.cache.lru = s.cache.lru
  lruHead : t.cache.lruHead = s.cache.lruHead
  lruTail : t.cache.lruTail = s.cache.lruTail
  key : t.cache.key = Function.update s.cache.key b ip
  isValid : t.cache.isValid = Function.update s.cache.isValid b true
  content : t.cache.content =
    Function.update s.cache.content b ((s.cache.buckets b).reg, retAddrColumn, false)
  newHint : (t.cache.buckets b).hint = 0
  generation : t.cache.generation = s.cache.generation
  hint : t.hint = s.hint
  prevRs : t.prevRs = s.prevRs

/-- A bucket that is on no chain is put in front of the chain of its new address. -/
theorem Chained.enter {coll : Fin dwarfUnwCacheSize → BitVec 16} {heads : BitVec 8 → BitVec 16}
    {key : Fin dwarfUnwCacheSize → Word} {b : Fin dwarfUnwCacheSize}
    (h : Chained coll heads fun x k => Hashed key x k ∧ x ≠ b) {ip : Word} (hip : ip ≠ 0) :
    Chained (Function.update coll b (heads (rsHash ip)))
      (Function.update heads (rsHash ip) (index b)) (Hashed (Function.update key b ip)) := by
  intro k
  obtain ⟨l, hlink, hmem⟩ := h k
  have hnot : b ∉ l := fun hb => ((hmem b).1 hb).2 rfl
  -- what is on the chain besides the bucket is as it was
  have hother : ∀ x, x ≠ b → (Hashed (Function.update key b ip) x k ↔ x ∈ l) := by
    intro x hx
    unfold Hashed
    rw [hmem x, Function.update_of_ne hx]
    exact (and_iff_left hx).symm
  have hself : Hashed (Function.update key b ip) b k ↔ k = rsHash ip := by
    unfold Hashed
    rw [Function.update_self]
    exact ⟨fun h => h.2.symm, fun h => ⟨hip, h.symm⟩⟩
  by_cases hk : k = rsHash ip
  · -- the chain of the address
    refine ⟨b :: l, ?_, fun x => ?_⟩
    · rw [hk, Function.update_self]
      rw [hk] at hlink
      exact hlink.cons_update hnot
    · rw [List.mem_cons]
      by_cases hx : x = b
      · rw [hx]
        exact iff_of_true (Or.inl rfl) (hself.2 hk)
      · rw [hother x hx]
        exact or_iff_right hx
  · -- another chain does not come to the bucket
    refine ⟨l, ?_, fun x => ?_⟩
    · rw [Function.update_of_ne hk]
      exact hlink.update_of_notMem hnot _
    · by_cases hx : x = b
      · rw [hx]
        exact iff_of_false hnot fun h => hk (hself.1 h)
      · exact (hother x hx).symm

/-- **Entering a bucket in the hash table.** -/
theorem enterRs_spec {s : RsSt} {ip : Word} (hip : ip ≠ 0) (retAddrColumn : Word)
    {b : Fin dwarfUnwCacheSize}
    (hchained : Chained s.cache.coll s.cache.hash fun x k => Hashed s.cache.key x k ∧ x ≠ b) :
    ∃ t, enterRs ip retAddrColumn b s = (.ok (), t) ∧ Entered ip retAddrColumn b s t ∧
      Chained t.cache.coll t.cache.hash (Hashed t.cache.key) := by
  set bucket' : Bucket :=
    { s.cache.buckets b with
      collChain := s.cache.hash (rsHash ip)
      hint := 0
      ip := ip
      valid := true
      retAddrColumn := retAddrColumn
      signalFrame := false } with hbucket
  set t : RsSt :=
    { s with
      cache :=
        { s.cache with
          hash := Function.update s.cache.hash (rsHash ip) (index b)
          buckets := Function.update s.cache.buckets b bucket' } } with ht
  -- what has changed is the key of the bucket, its place in a chain, and the head of that chain
  have hkey : t.cache.key = Function.update s.cache.key b ip := view_update Bucket.ip _ _ _
  have hcoll : t.cache.coll = Function.update s.cache.coll b (s.cache.hash (rsHash ip)) :=
    view_update Bucket.collChain _ _ _
  have hentered : Entered ip retAddrColumn b s t :=
    { lru := view_update_same Bucket.lruChain rfl
      lruHead := rfl
      lruTail := rfl
      key := hkey
      isValid := view_update Bucket.valid _ _ _
      content := view_update (fun b => (b.reg, b.retAddrColumn, b.signalFrame)) _ _ _
      newHint := congrArg Bucket.hint (Function.update_self b bucket' s.cache.buckets)
      generation := rfl
      hint := rfl
      prevRs := rfl }
  refine ⟨t, rfl, hentered, ?_⟩
  rw [hcoll, hkey]
  exact hchained.enter hip

/-- The bucket that is reused next, and the lists without it. If no bucket is unused, the oldest
address goes. -/
theorem RsCache.Inv.exists_oldest {c : RsCache} {free : List (Fin dwarfUnwCacheSize)}
    {recent : List (Word × Fin dwarfUnwCacheSize)} (h : c.Inv free recent) :
    ∃ b free', reuseOrder free recent =
        b :: reuseOrder free' (recent.take (dwarfUnwCacheSize - 1)) ∧ free' ⊆ free := by
  -- there are 128 buckets, unused or with an address
  have hlength : (reuseOrder free recent).length = dwarfUnwCacheSize := by
    have hperm : (reuseOrder free recent).Perm (List.finRange dwarfUnwCacheSize) :=
      (List.perm_ext_iff_of_nodup h.nodup (List.nodup_finRange _)).2 fun b =>
        iff_of_true (h.all b) (List.mem_finRange b)
    rw [hperm.length_eq, List.length_finRange]
  unfold reuseOrder at hlength ⊢
  rw [List.length_append, List.length_reverse, List.length_map] at hlength
  cases free with
  | cons b free =>
    rw [List.length_cons] at hlength
    refine ⟨b, free, ?_, List.subset_cons_self b free⟩
    -- there is room: no address goes
    rw [List.take_of_length_le (by omega)]
    rfl
  | nil =>
    -- the queue starts with the bucket of the oldest address
    rcases List.eq_nil_or_concat recent with rfl | ⟨kept, oldest, rfl⟩
    · cases hlength
    · refine ⟨oldest.2, [], ?_, List.Subset.refl _⟩
      rw [List.concat_eq_append, List.length_append, List.length_singleton] at hlength
      have hkept : (kept ++ [oldest]).take (dwarfUnwCacheSize - 1) = kept := by
        rw [List.take_append_of_le_length (by simp at hlength; omega),
          List.take_of_length_le (by simp at hlength; omega)]
      rw [List.concat_eq_append, hkept, List.map_append, List.reverse_append]
      rfl

/-- The invariant after an insertion, from what it does to the parts of the cache. -/
theorem RsCache.Inv.insert {c c' : RsCache} {free free' : List (Fin dwarfUnwCacheSize)}
    {recent kept : List (Word × Fin dwarfUnwCacheSize)} {ip : Word} {b : Fin dwarfUnwCacheSize}
    (h : c.Inv free recent) (horder : reuseOrder free recent = b :: reuseOrder free' kept)
    (hfree : free' ⊆ free) (hkept : kept.Sublist recent) (hip : ip ≠ 0)
    (hnew : ∀ b, (ip, b) ∉ recent)
    (hqueue : rsNaming.Queue c'.lru c'.lruHead c'.lruTail (reuseOrder free' kept ++ [b]))
    (hkey : c'.key = Function.update c.key b ip)
    (hvalid : c'.isValid = Function.update c.isValid b true)
    (hchained : Chained c'.coll c'.hash (Hashed c'.key)) : c'.Inv free' ((ip, b) :: kept) := by
  have hnodup := h.nodup
  rw [horder] at hnodup
  obtain ⟨hnot, -⟩ := List.nodup_cons.1 hnodup
  have hne : ∀ x ∈ reuseOrder free' kept, x ≠ b := fun x hx => ne_of_mem_of_not_mem hx hnot
  have hnext : reuseOrder free' ((ip, b) :: kept) = reuseOrder free' kept ++ [b] := by
    unfold reuseOrder
    rw [List.map_cons, List.reverse_cons, ← List.append_assoc]
  -- the queue has the same buckets as before
  have hperm : (reuseOrder free' ((ip, b) :: kept)).Perm (reuseOrder free recent) := by
    rw [hnext, horder]
    exact List.perm_append_singleton b _
  refine
    { queue := ?_
      nodup := hperm.nodup_iff.2 h.nodup
      all := fun x => hperm.mem_iff.2 (h.all x)
      unused := fun x hx => ?_
      held := fun q hq => ?_
      distinct := ?_
      chained := hchained }
  · rw [hnext]
    exact hqueue
  · -- a bucket that stays unused is not the one that is reused
    have hx' := hne x (List.mem_append_left _ hx)
    rw [hkey, hvalid, Function.update_of_ne hx', Function.update_of_ne hx']
    exact h.unused x (hfree hx)
  · rcases List.mem_cons.1 hq with rfl | hq
    · rw [hkey, hvalid, Function.update_self, Function.update_self]
      exact ⟨rfl, rfl, hip⟩
    · have hq' := hne q.2 (List.mem_append_right _ (List.mem_reverse.2 (List.mem_map_of_mem hq)))
      rw [hkey, hvalid, Function.update_of_ne hq', Function.update_of_ne hq']
      exact h.held q (hkept.subset hq)
  · -- the address was not in the cache
    rw [List.map_cons, List.nodup_cons]
    refine ⟨fun hmem => ?_, h.distinct.sublist (hkept.map _)⟩
    obtain ⟨⟨ip', b'⟩, hq, rfl⟩ := List.mem_map.1 hmem
    exact hnew b' (hkept.subset hq)

/-- What an insertion stores, and what it leaves alone. -/
structure Stored (retAddrColumn : Word) (b : Fin dwarfUnwCacheSize) (s t : RsSt) : Prop where
  content : t.cache.content =
    Function.update s.cache.content b ((s.cache.buckets b).reg, retAddrColumn, false)
  newHint : (t.cache.buckets b).hint = 0
  generation : t.cache.generation = s.cache.generation
  hint : t.hint = s.hint
  prevRs : t.prevRs = s.prevRs

/-- **An insertion** of an address that is not in the cache: the last 128 addresses are kept. -/
theorem rsNew_spec {s : RsSt} {free : List (Fin dwarfUnwCacheSize)}
    {recent : List (Word × Fin dwarfUnwCacheSize)} (hinv : s.cache.Inv free recent) {ip : Word}
    (hip : ip ≠ 0) (hnew : ∀ b, (ip, b) ∉ recent) (retAddrColumn : Word) {fuel : ℕ}
    (hfuel : dwarfUnwCacheSize ≤ fuel) :
    ∃ b free' t, rsNew fuel ip retAddrColumn s = (.ok b, t) ∧ Stored retAddrColumn b s t ∧
      t.cache.Inv free' (((ip, b) :: recent).take dwarfUnwCacheSize) := by
  obtain ⟨b, free', horder, hsub⟩ := hinv.exists_oldest
  -- the queue has another end
  obtain ⟨l, p, hlp⟩ : ∃ l p, reuseOrder free' (recent.take (dwarfUnwCacheSize - 1)) = l ++ [p] := by
    rcases List.eq_nil_or_concat (reuseOrder free' (recent.take (dwarfUnwCacheSize - 1)))
      with hnil | ⟨l, p, hlp⟩
    · obtain ⟨x, hx⟩ := exists_ne b
      have hall := hinv.all x
      rw [horder, hnil] at hall
      exact absurd (List.mem_singleton.1 hall) hx
    · exact ⟨l, p, by rw [hlp, List.concat_eq_append]⟩
  have hqueue := hinv.queue
  have hnodup := hinv.nodup
  rw [horder, hlp] at hqueue hnodup
  -- the three parts of the insertion, one after the other
  obtain ⟨s₁, hreuse, hsame, hqueue₁⟩ := reuseRs_spec hqueue hnodup
  have hchained := hinv.chained
  rw [← hsame.coll, ← hsame.hash, ← hsame.key] at hchained
  obtain ⟨coll, heads, hremove, hchained₁⟩ := removeRs_spec hchained b hfuel
  obtain ⟨t, henter, hentered, hchained₂⟩ :=
    enterRs_spec (s := s₁.rechain coll heads) hip retAddrColumn hchained₁
  have hrun : rsNew fuel ip retAddrColumn s = (.ok b, t) := by
    unfold rsNew
    rw [Act.bind_of_ok hreuse, Act.bind_of_ok hremove, Act.bind_of_ok henter]
    rfl
  refine ⟨b, free', t, hrun, ⟨?_, hentered.newHint, hentered.generation.trans hsame.generation,
    hentered.hint.trans hsame.hint, hentered.prevRs.trans hsame.prevRs⟩, ?_⟩
  · have hreg : (s₁.cache.buckets b).reg = (s.cache.buckets b).reg :=
      congrArg Prod.fst (congrFun hsame.content b)
    rw [hentered.content, ← hsame.content, ← hreg]
    rfl
  · refine hinv.insert horder hsub (List.take_sublist _ _) hip hnew ?_ ?_ ?_ hchained₂
    · change rsNaming.Queue _ _ _ (reuseOrder free' (recent.take (dwarfUnwCacheSize - 1)) ++ [b])
      rw [hlp, hentered.lru, hentered.lruHead, hentered.lruTail]
      exact hqueue₁
    · rw [hentered.key, ← hsame.key]
      rfl
    · rw [hentered.isValid, ← hsame.isValid]
      rfl

/-! ### Flushing -/

/-- **A flushed cache** is empty. -/
theorem flushRsCache_inv (c : RsCache) :
    (flushRsCache c).Inv (List.finRange dwarfUnwCacheSize).reverse [] := by
  have horder : reuseOrder (List.finRange dwarfUnwCacheSize).reverse [] =
      (List.finRange dwarfUnwCacheSize).reverse := List.append_nil _
  -- the queue runs from the last bucket down to the first
  have hdown : (List.finRange dwarfUnwCacheSize).reverse.IsChain fun a b => a.val = b.val + 1 := by
    decide +kernel
  refine
    { queue := ⟨?_, ?_, ?_⟩
      nodup := ?_
      all := ?_
      unused := fun _ _ => ⟨rfl, rfl⟩
      held := nofun
      distinct := List.nodup_nil
      chained := fun k => ⟨[], rfl, fun b => ?_⟩ }
  · rw [horder]
    refine hdown.imp fun a b hab => ?_
    change (if 0 < a.val then BitVec.ofNat 16 (a - 1) else _) = BitVec.ofNat 16 b
    rw [if_pos (by omega), hab, Nat.add_sub_cancel]
  · rw [horder]
    change ∀ a ∈ (List.finRange dwarfUnwCacheSize).reverse.head?, BitVec.ofNat 16 127 = index a
    decide +kernel
  · rw [horder]
    change ∀ a ∈ (List.finRange dwarfUnwCacheSize).reverse.getLast?, 0 = index a
    decide +kernel
  · rw [horder]
    exact List.nodup_reverse.2 (List.nodup_finRange _)
  · intro b
    rw [horder]
    exact List.mem_reverse.2 (List.mem_finRange b)
  · -- no bucket has an address
    exact iff_of_false (List.not_mem_nil) fun h => h.1 rfl

/-- The address space with its cache flushed. -/
def AddrSpace.flushed (as : AddrSpace) : AddrSpace :=
  { as with globalCache := { flushRsCache as.globalCache with generation := as.cacheGeneration } }

theorem flushed_inv (as : AddrSpace) :
    as.flushed.globalCache.Inv (List.finRange dwarfUnwCacheSize).reverse [] :=
  flushRsCache_inv { as.globalCache with generation := as.cacheGeneration }

theorem ofNat_eq_zero_iff {w n : ℕ} : BitVec.ofNat w n = 0 ↔ n % 2 ^ w = 0 := by
  rw [← BitVec.toNat_inj, BitVec.toNat_ofNat]
  exact Iff.rfl

/-- **`get_rs_cache` flushes** if and only if there was a flush since it was called before, unless
the generation has come round. -/
theorem getRsCache_of_pending {as : AddrSpace} {n : ℕ} (hpolicy : as.cachingPolicy ≠ .none)
    (h : as.cacheGeneration = as.globalCache.generation + BitVec.ofNat 32 n) :
    getRsCache as = some (if n % 2 ^ 32 = 0 then as else as.flushed) := by
  -- the generation has 32 bits, so only the number of flushes modulo `2 ^ 32` is seen
  have hgeneration : as.cacheGeneration = as.globalCache.generation ↔ n % 2 ^ 32 = 0 := by
    rw [h, BitVec.add_right_eq_self]
    exact ofNat_eq_zero_iff
  unfold getRsCache
  rw [if_neg hpolicy]
  by_cases hzero : n % 2 ^ 32 = 0
  · rw [if_neg (not_not_intro (hgeneration.2 hzero)), if_pos hzero]
  · rw [if_pos fun heq => hzero (hgeneration.1 heq), if_neg hzero]
    rfl

/-! ### Sequences of operations -/

/-- An operation on the cache. An insertion comes with the bucket that `rs_new` returned. -/
inductive CacheOp where
  | flush
  | get
  | lookup (ip : Word)
  | new (ip : Word) (rs : Fin dwarfUnwCacheSize)
  deriving DecidableEq

/-- The flushes since the last `get_rs_cache`. The operations come with the last one first, and the
address space is flushed once when it is set up. -/
def pendingFlushes : List CacheOp → ℕ
  | [] => 1
  | .flush :: ops => pendingFlushes ops + 1
  | .get :: _ => 0
  | _ :: ops => pendingFlushes ops

/-- The addresses that were inserted since the last `get_rs_cache` that had to flush, the most recent
one first. -/
def insertedSinceGet : List CacheOp → List (Word × Fin dwarfUnwCacheSize)
  | [] => []
  | .get :: ops => if pendingFlushes ops = 0 then insertedSinceGet ops else []
  | .new ip rs :: ops => (ip, rs) :: insertedSinceGet ops
  | _ :: ops => insertedSinceGet ops

/-- The addresses that were inserted since the last `unw_flush_cache`. -/
def insertedSinceFlush : List CacheOp → List (Word × Fin dwarfUnwCacheSize)
  | [] => []
  | .flush :: _ => []
  | .new ip rs :: ops => (ip, rs) :: insertedSinceFlush ops
  | _ :: ops => insertedSinceFlush ops

/-- The cache and a cursor with these indices into it. -/
def AddrSpace.rsSt (as : AddrSpace) (hint prev : Fin dwarfUnwCacheSize) : RsSt :=
  ⟨as.globalCache, index hint, index prev⟩

/-- The address space after a sequence of operations. The cache is used after a `get_rs_cache` only,
and `rs_new` is called for an address that is not zero and for which `rs_lookup` returns `NULL`. -/
inductive CacheRun : List CacheOp → AddrSpace → Prop
  | init : CacheRun [] x86_64LocalAddrSpaceInit
  | flush {ops : List CacheOp} {as : AddrSpace} (run : CacheRun ops as) :
      CacheRun (.flush :: ops) (unwFlushCache as)
  | get {ops : List CacheOp} {as as' : AddrSpace} (run : CacheRun ops as)
      (hpending : pendingFlushes ops < 2 ^ 32) (hget : getRsCache as = some as') :
      CacheRun (.get :: ops) as'
  | lookup {ops : List CacheOp} {as : AddrSpace} (run : CacheRun ops as) (hgot : .get ∈ ops)
      {fuel : ℕ} (hfuel : dwarfUnwCacheSize ≤ fuel) {ip : Word} {hint prev : Fin dwarfUnwCacheSize}
      {r : Res UnwError (Option (Fin dwarfUnwCacheSize))} {t : RsSt}
      (hlookup : rsLookup fuel ip (as.rsSt hint prev) = (r, t)) :
      CacheRun (.lookup ip :: ops) { as with globalCache := t.cache }
  | new {ops : List CacheOp} {as : AddrSpace} (run : CacheRun ops as) (hgot : .get ∈ ops)
      {fuel : ℕ} (hfuel : dwarfUnwCacheSize ≤ fuel) {ip : Word} (hip : ip ≠ 0)
      {hint prev : Fin dwarfUnwCacheSize}
      (hnull : (rsLookup fuel ip (as.rsSt hint prev)).1 = .ok none) {retAddrColumn : Word}
      {rs : Fin dwarfUnwCacheSize} {t : RsSt}
      (hnew : rsNew fuel ip retAddrColumn (as.rsSt hint prev) = (.ok rs, t)) :
      CacheRun (.new ip rs :: ops) { as with globalCache := t.cache }

theorem get_mem_of_pendingFlushes {ops : List CacheOp} (h : pendingFlushes ops = 0) :
    .get ∈ ops := by
  induction ops with
  | nil => cases h
  | cons op ops ih =>
    cases op with
    | flush => cases h
    | get => exact List.mem_cons_self
    | lookup ip => exact List.mem_cons_of_mem _ (ih h)
    | new ip rs => exact List.mem_cons_of_mem _ (ih h)

/-- What holds of the address space after a sequence of operations. -/
structure RunInv (ops : List CacheOp) (as : AddrSpace) : Prop where
  policy : as.cachingPolicy = .global
  generation : as.cacheGeneration =
    as.globalCache.generation + BitVec.ofNat 32 (pendingFlushes ops)
  cache : .get ∈ ops → ∃ free,
    as.globalCache.Inv free ((insertedSinceGet ops).take dwarfUnwCacheSize)

theorem RunInv.get {ops : List CacheOp} {as as' : AddrSpace} (h : RunInv ops as)
    (hpending : pendingFlushes ops < 2 ^ 32) (hget : getRsCache as = some as') :
    RunInv (.get :: ops) as' := by
  have hnone : as.cachingPolicy ≠ .none := by
    rw [h.policy]
    decide
  rw [getRsCache_of_pending hnone h.generation, Nat.mod_eq_of_lt hpending] at hget
  by_cases hzero : pendingFlushes ops = 0
  · rw [if_pos hzero] at hget
    cases hget
    -- nothing is flushed, and there was a `get_rs_cache` before
    refine ⟨h.policy, ?_, fun _ => ?_⟩
    · rw [h.generation, hzero]
      rfl
    · rw [insertedSinceGet, if_pos hzero]
      exact h.cache (get_mem_of_pendingFlushes hzero)
  · rw [if_neg hzero] at hget
    cases hget
    refine ⟨h.policy, (BitVec.add_zero _).symm,
      fun _ => ⟨(List.finRange dwarfUnwCacheSize).reverse, ?_⟩⟩
    rw [insertedSinceGet, if_neg hzero]
    exact flushed_inv as

/-- **The invariant over a sequence of operations.** -/
theorem CacheRun.inv {ops : List CacheOp} {as : AddrSpace} (run : CacheRun ops as) :
    RunInv ops as := by
  induction run with
  | init => exact ⟨rfl, rfl, nofun⟩
  | @flush ops as run ih =>
    refine ⟨ih.policy, ?_, fun hmem => ih.cache ((List.mem_cons.1 hmem).resolve_left nofun)⟩
    -- a flush counts the generation up and leaves the cache
    change as.cacheGeneration + 1 =
      as.globalCache.generation + BitVec.ofNat 32 (pendingFlushes ops + 1)
    rw [ih.generation, BitVec.ofNat_add, BitVec.add_assoc]
    rfl
  | get run hpending hget ih => exact ih.get hpending hget
  | @lookup ops as run hgot fuel hfuel ip hint prev r t hlookup ih =>
    obtain ⟨free, hinv⟩ := ih.cache hgot
    obtain ⟨r', t', hrun, -, hlooks⟩ :=
      rsLookup_spec (s := as.rsSt hint prev) hinv rfl rfl hfuel ip
    cases hlookup.symm.trans hrun
    -- a lookup changes hints only
    have hskeleton : t.cache.skeleton = as.globalCache.skeleton := congrArg Prod.fst hlooks.apart
    have hgeneration : t.cache.skeleton.generation = as.globalCache.skeleton.generation := by
      rw [hskeleton]
    exact ⟨ih.policy, ih.generation.trans (congrArg (· + _) hgeneration.symm),
      fun _ => ⟨free, hinv.of_skeleton hskeleton⟩⟩
  | @new ops as run hgot fuel hfuel ip hip hint prev hnull retAddrColumn rs t hnew ih =>
    obtain ⟨free, hinv⟩ := ih.cache hgot
    -- the lookup before it has returned `NULL`, so the address is a new one
    have hfresh := RsCache.Inv.notMem_of_null (s := as.rsSt hint prev) hinv rfl rfl hfuel hnull
    obtain ⟨b, free', t₁, hrun₁, hstored, hinv₁⟩ :=
      rsNew_spec (s := as.rsSt hint prev) hinv hip hfresh retAddrColumn hfuel
    cases hnew.symm.trans hrun₁
    refine ⟨ih.policy, ?_, fun _ => ⟨free', ?_⟩⟩
    · rw [hstored.generation]
      exact ih.generation
    · -- keeping 128 of the last 128 and one more keeps the last 128
      have htake : ((ip, rs) :: (insertedSinceGet ops).take dwarfUnwCacheSize).take dwarfUnwCacheSize =
          ((ip, rs) :: insertedSinceGet ops).take dwarfUnwCacheSize := by
        rw [List.take_succ_cons, List.take_succ_cons, List.take_take]
        rfl
      rw [htake] at hinv₁
      exact hinv₁

/-- **The cache is sound**, for the addresses that were inserted. -/
structure RsCacheSound (c : RsCache) (inserted : List (Word × Fin dwarfUnwCacheSize)) : Prop where
  /-- The reuse chain visits each bucket once, from the head to the tail. -/
  reuse : ∃ q, rsNaming.Queue c.lru c.lruHead c.lruTail q ∧ q.Nodup ∧ ∀ b, b ∈ q
  /-- The collision chains end, and a bucket is on the chain of its address, once, and on no
  other. -/
  chains : ∃ chain : BitVec 8 → List (Fin dwarfUnwCacheSize), ∀ k,
     rsNaming.Linked c.coll (c.hash k) (chain k) ∧ (chain k).Nodup ∧
    ∀ b, b ∈ chain k ↔ c.key b ≠ 0 ∧ rsHash (c.key b) = k
  /-- No address is in two buckets. -/
  distinct : ∀ b b', c.key b ≠ 0 → c.key b = c.key b' → b = b'
  /-- A lookup ends, and finds exactly the last 128 addresses. -/
  lookup : ∀ fuel, dwarfUnwCacheSize ≤ fuel → ∀ ip hint prev, ∃ r t,
    rsLookup fuel ip ⟨c, index hint, index prev⟩ = (.ok r, t) ∧
      ∀ b, r = some b ↔ (ip, b) ∈ inserted.take dwarfUnwCacheSize
  /-- An insertion of another address ends. -/
  new : ∀ fuel, dwarfUnwCacheSize ≤ fuel → ∀ ip hint prev retAddrColumn, ip ≠ 0 →
    (rsLookup fuel ip ⟨c, index hint, index prev⟩).1 = .ok none →
    ∃ b t, rsNew fuel ip retAddrColumn ⟨c, index hint, index prev⟩ = (.ok b, t)

theorem RsCache.Inv.sound {c : RsCache} {free : List (Fin dwarfUnwCacheSize)}
    {inserted : List (Word × Fin dwarfUnwCacheSize)}
    (h : c.Inv free (inserted.take dwarfUnwCacheSize)) : RsCacheSound c inserted := by
  refine
    { reuse := ⟨_, h.queue, h.nodup, h.all⟩
      chains := ?_
      distinct := fun b b' hb heq => ?_
      lookup := fun fuel hfuel ip hint prev => ?_
      new := fun fuel hfuel ip hint prev retAddrColumn hip hnull => ?_ }
  · choose chain hlink hmem using h.chained
    exact ⟨chain, fun k => ⟨hlink k, (hlink k).nodup, hmem k⟩⟩
  · -- two buckets with one address would both hold it
    have hb' : c.key b' ≠ 0 := heq ▸ hb
    have hheld := (h.key_ne_zero_iff b).1 hb
    rw [heq] at hheld
    exact h.bucket_unique hheld ((h.key_ne_zero_iff b').1 hb')
  · obtain ⟨r, t, hrun, hexact, -⟩ :=
      rsLookup_spec (s := ⟨c, index hint, index prev⟩) h rfl rfl hfuel ip
    exact ⟨r, t, hrun, hexact⟩
  · have hfresh :=
      RsCache.Inv.notMem_of_null (s := ⟨c, index hint, index prev⟩) h rfl rfl hfuel hnull
    obtain ⟨b, -, t, hrun', -, -⟩ :=
      rsNew_spec (s := ⟨c, index hint, index prev⟩) h hip hfresh retAddrColumn hfuel
    exact ⟨b, t, hrun'⟩

/-- **Every sequence of operations** leaves a cache that is sound for the addresses inserted since
the last `get_rs_cache` that had to flush. -/
theorem rs_cache_sound (ops : List CacheOp) (as : AddrSpace) (run : CacheRun ops as)
    (hgot : .get ∈ ops) : RsCacheSound as.globalCache (insertedSinceGet ops) := by
  obtain ⟨free, hinv⟩ := run.inv.cache hgot
  exact hinv.sound

/-- The address space after the first `get_rs_cache`. -/
def freshAddrSpace : AddrSpace :=
  { x86_64LocalAddrSpaceInit with
    globalCache := { flushRsCache x86_64LocalAddrSpaceInit.globalCache with generation := 1 } }

theorem freshAddrSpace_run : CacheRun [.get] freshAddrSpace := CacheRun.get .init (by decide) rfl

/-- The cache after one insertion into it. -/
def oneRowCache : RsCache := (rsNew 128 0x5000 16 (freshAddrSpace.rsSt 0 0)).2.cache

theorem rsNew_fresh :
    rsNew 128 0x5000 16 (freshAddrSpace.rsSt 0 0) =
      (.ok 127, (rsNew 128 0x5000 16 (freshAddrSpace.rsSt 0 0)).2) :=
  Act.run_of_outcome (by decide +kernel)

/-- An address that was inserted. -/
theorem rs_cache_sound_one_row : RsCacheSound oneRowCache [(0x5000, 127)] := by
  have hnull : (rsLookup 128 0x5000 (freshAddrSpace.rsSt 0 0)).1 = .ok none := by decide +kernel
  exact rs_cache_sound [.new 0x5000 127, .get] { freshAddrSpace with globalCache := oneRowCache }
    (CacheRun.new freshAddrSpace_run (by decide) (le_refl _) (by decide) hnull rsNew_fresh)
    (by decide)

/-- The operations `get_rs_cache`, `unw_flush_cache`, `rs_new` and `get_rs_cache`. The address was
inserted after the flush, and the second `get_rs_cache` still removes it. -/
theorem rs_cache_flushes_late :
    ∃ as, CacheRun [.get, .new 0x5000 127, .flush, .get] as ∧
      (0x5000, 127) ∈ (insertedSinceFlush [.get, .new 0x5000 127, .flush, .get]).take
        dwarfUnwCacheSize ∧
      (rsLookup 128 0x5000 (as.rsSt 0 0)).1 = .ok none := by
  have hnull : (rsLookup 128 0x5000 ((unwFlushCache freshAddrSpace).rsSt 0 0)).1 = .ok none := by
    decide +kernel
  have hrun : CacheRun [.new 0x5000 127, .flush, .get]
      { unwFlushCache freshAddrSpace with globalCache := oneRowCache } :=
    CacheRun.new (.flush freshAddrSpace_run) (by decide) (le_refl _) (by decide) hnull rsNew_fresh
  have hget : getRsCache { unwFlushCache freshAddrSpace with globalCache := oneRowCache } =
      some { unwFlushCache freshAddrSpace with
        globalCache := { flushRsCache oneRowCache with generation := 2 } } := by
    have hgeneration : (unwFlushCache freshAddrSpace).cacheGeneration ≠ oneRowCache.generation := by
      decide +kernel
    unfold getRsCache
    rw [if_neg (by decide), if_pos hgeneration]
    rfl
  exact ⟨_, .get hrun (by decide) hget, by decide, by decide +kernel⟩

end LibunwindKern
