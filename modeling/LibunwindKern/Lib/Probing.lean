import Mathlib.Data.Finset.Card
import Mathlib.Logic.Function.Basic

/-!
# Open addressing

A hash table whose buckets are numbered. A key is searched for along a path of buckets that starts
at its home, and the search looks at a limited number of them. Keys are put where a search ends at a
free bucket, and no key is ever taken out.

* `search` ends with an `Outcome`. A key that is put in a free bucket does not change a search that
  has found another key (`search_update_of_hit`).
* `Table` is a table in which every key is found: its invariant says so, and with it that no key is
  in two buckets (`Table.unique`).
* `Table.insert` puts a key where the search for it has found a free bucket. The number of keys grows
  by one (`Table.card_insert`).
-/

namespace CProg.Probing

variable {κ : Type} [DecidableEq κ]

/-- How a search ends: at the bucket with the key, at a free bucket, or after the last bucket that
it looks at. -/
inductive Outcome where
  | hit (slot : ℕ)
  | free (slot : ℕ)
  | full
  deriving DecidableEq, Repr

/-! ### The search -/

section Search

variable (next : ℕ → ℕ) (keys : ℕ → Option κ) (key : κ)

/-- The search for a key over `n` buckets. -/
def search : ℕ → ℕ → Outcome
  | 0, _ => .full
  | n + 1, slot =>
    if keys slot = some key then .hit slot
    else if keys slot = none then .free slot
    else search n (next slot)

variable {next keys key} {n slot start : ℕ}

theorem search_of_some (h : keys slot = some key) : search next keys key (n + 1) slot = .hit slot :=
  if_pos h

theorem search_of_none (h : keys slot = none) : search next keys key (n + 1) slot = .free slot := by
  unfold search
  rw [h, if_neg nofun, if_pos rfl]

theorem search_of_other {other : κ} (h : keys slot = some other) (hne : other ≠ key) :
    search next keys key (n + 1) slot = search next keys key n (next slot) := by
  have hkey : ¬some other = some key := fun heq => hne (Option.some.inj heq)
  calc search next keys key (n + 1) slot
      = if keys slot = some key then .hit slot
        else if keys slot = none then .free slot
        else search next keys key n (next slot) := rfl
    _ = search next keys key n (next slot) := by rw [h, if_neg hkey, if_neg nofun]

/-- A search that finds the key finds it in the bucket. -/
theorem key_of_search_hit (h : search next keys key n start = .hit slot) :
    keys slot = some key := by
  induction n generalizing start with
  | zero => cases h
  | succ n ih =>
    unfold search at h
    split_ifs at h with hkey hfree
    · cases h
      exact hkey
    · exact ih h

theorem key_of_search_free (h : search next keys key n start = .free slot) : keys slot = none := by
  induction n generalizing start with
  | zero => cases h
  | succ n ih =>
    unfold search at h
    split_ifs at h with hkey hfree
    · cases h
      exact hfree
    · exact ih h

/-- A search stays where the path stays. -/
theorem search_lt {size : ℕ} (hnext : ∀ i, i < size → next i < size) (hstart : start < size)
    (h : search next keys key n start = .hit slot ∨ search next keys key n start = .free slot) :
    slot < size := by
  induction n generalizing start with
  | zero => obtain h | h := h <;> cases h
  | succ n ih =>
    unfold search at h
    split_ifs at h with hkey hfree
    · obtain h | h := h
      · cases h
        exact hstart
      · cases h
    · obtain h | h := h
      · cases h
      · cases h
        exact hstart
    · exact ih (hnext start hstart) h

/-- A key in a free bucket does not change a search that has found another key. -/
theorem search_update_of_hit {new : κ} {at_ : ℕ} (hfree : keys at_ = none)
    (h : search next keys key n start = .hit slot) :
    search next (Function.update keys at_ (some new)) key n start = .hit slot := by
  induction n generalizing start with
  | zero => cases h
  | succ n ih =>
    -- the search does not pass the free bucket, where it would have ended
    have hpass : ∀ other, keys start = some other →
        Function.update keys at_ (some new) start = some other := by
      intro other hother
      have hne : start ≠ at_ := by
        rintro rfl
        rw [hfree] at hother
        cases hother
      rw [Function.update_of_ne hne, hother]
    unfold search at h
    split_ifs at h with hkey hnone
    · cases h
      exact search_of_some (hpass key hkey)
    · obtain ⟨other, hother⟩ := Option.ne_none_iff_exists'.mp hnone
      have hne : other ≠ key := by
        rintro rfl
        exact hkey hother
      rw [search_of_other (hpass other hother) hne]
      exact ih h

/-- The key that is put where the search for it ended is found there. -/
theorem search_update_of_free (h : search next keys key n start = .free slot) :
    search next (Function.update keys slot (some key)) key n start = .hit slot := by
  induction n generalizing start with
  | zero => cases h
  | succ n ih =>
    have hslot := key_of_search_free h
    unfold search at h
    split_ifs at h with hkey hnone
    · cases h
      exact search_of_some (Function.update_self _ _ _)
    · obtain ⟨other, hother⟩ := Option.ne_none_iff_exists'.mp hnone
      have hne : other ≠ key := by
        rintro rfl
        exact hkey hother
      have hstart : start ≠ slot := by
        rintro rfl
        exact hnone hslot
      rw [search_of_other (by rw [Function.update_of_ne hstart, hother]) hne]
      exact ih h

end Search

/-! ### Tables -/

/-- The buckets of a table: their number, where the search for a key starts, and the bucket that
comes after one. -/
structure Layout (κ : Type) where
  size : ℕ
  home : κ → ℕ
  next : ℕ → ℕ
  home_lt : ∀ key, home key < size
  next_lt : ∀ i, i < size → next i < size

/-- A table in which a search over `limit` buckets finds every key that is there. -/
structure Table (L : Layout κ) (limit : ℕ) where
  keys : ℕ → Option κ
  bounded : ∀ slot key, keys slot = some key → slot < L.size
  found : ∀ slot key, keys slot = some key →
    search L.next keys key limit (L.home key) = .hit slot

namespace Table

variable {L : Layout κ} {limit : ℕ}

/-- The search for a key in a table. -/
def find (t : Table L limit) (key : κ) : Outcome := search L.next t.keys key limit (L.home key)

/-- The buckets with a key. -/
def occupied (t : Table L limit) : Finset ℕ :=
  (Finset.range L.size).filter fun slot => t.keys slot ≠ none

variable (t : Table L limit)

theorem find_of_key {slot : ℕ} {key : κ} (h : t.keys slot = some key) : t.find key = .hit slot :=
  t.found slot key h

/-- **No key is in two buckets.** -/
theorem unique {i j : ℕ} {key : κ} (hi : t.keys i = some key) (hj : t.keys j = some key) :
    i = j :=
  Outcome.hit.inj ((t.find_of_key hi).symm.trans (t.find_of_key hj))

theorem mem_occupied {slot : ℕ} : slot ∈ t.occupied ↔ t.keys slot ≠ none := by
  unfold occupied
  rw [Finset.mem_filter, Finset.mem_range]
  constructor
  · exact And.right
  · intro h
    obtain ⟨key, hkey⟩ := Option.ne_none_iff_exists'.mp h
    exact ⟨t.bounded slot key hkey, h⟩

/-- A table without keys. -/
def empty (L : Layout κ) (limit : ℕ) : Table L limit where
  keys _ := none
  bounded := nofun
  found := nofun

theorem card_empty : (empty L limit).occupied.card = 0 := by
  have hnone : (empty L limit).occupied = ∅ := by
    ext slot
    rw [mem_occupied]
    simp [empty]
  rw [hnone, Finset.card_empty]

/-- **Put a key** where the search for it has ended at a free bucket. -/
def insert {slot : ℕ} {key : κ} (h : t.find key = .free slot) : Table L limit where
  keys := Function.update t.keys slot (some key)
  bounded i other hi := by
    by_cases heq : i = slot
    · rw [heq]
      exact search_lt L.next_lt (L.home_lt key) (Or.inr h)
    · rw [Function.update_of_ne heq] at hi
      exact t.bounded i other hi
  found i other hi := by
    by_cases heq : i = slot
    · rw [heq, Function.update_self] at hi
      obtain rfl := Option.some.inj hi
      rw [heq]
      exact search_update_of_free h
    · rw [Function.update_of_ne heq] at hi
      exact search_update_of_hit (key_of_search_free h) (t.found i other hi)

section Insert

variable {t} {slot : ℕ} {key : κ} (h : t.find key = .free slot)

/-- **The number of keys** grows by one. -/
theorem card_insert : (t.insert h).occupied.card = t.occupied.card + 1 := by
  have hfree : slot ∉ t.occupied := by
    rw [mem_occupied]
    exact fun hne => hne (key_of_search_free h)
  have hgrown : (t.insert h).occupied = Insert.insert slot t.occupied := by
    ext i
    rw [Finset.mem_insert, mem_occupied, mem_occupied]
    show Function.update t.keys slot (some key) i ≠ none ↔ i = slot ∨ t.keys i ≠ none
    by_cases heq : i = slot
    · subst heq
      simp
    · simp [heq]
  rw [hgrown, Finset.card_insert_of_notMem hfree]

end Insert

end Table

end CProg.Probing
