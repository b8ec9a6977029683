import LibunwindKern.X86.Regs

/-!
# The cache of validated pages

`validate_mem` asks the validator for the pages of a word, and remembers a page that was accepted
in one of four slots. A word that crosses a page boundary is validated with the two pages it
touches. What is remembered is the first page alone, and what is looked up is the first page alone.

So every page in the cache has been accepted (`CacheGood`), in whatever order the calls come, and a
hit is as good as the validator for a word inside a page. For a word in two pages it says nothing
of the second one. `validate_mem_sound_iff` says that a run is sound as long as no call trusts a hit
for such a word (`TrustsHit`).
-/

namespace LibunwindKern

open CProg ByteMem

/-! ### Pages -/

theorem toNat_pageStart (a : Word) : (pageStart a).toNat = a.toNat / 4096 * 4096 :=
  toNat_and_not_low a 12

/-- The page is touched by the word at this address. -/
def Overlaps (addr page : Word) : Prop := ∃ i < 8, pageStart (addr + BitVec.ofNat 64 i) = page

/-- The word does not lie in one page. -/
def Crosses (addr : Word) : Prop := pageStart (addr + 7) ≠ pageStart addr

instance (addr : Word) : Decidable (Crosses addr) := inferInstanceAs (Decidable (_ ≠ _))

/-- A word touches the page of its first byte and the page of its last one. -/
theorem overlaps_iff {addr page : Word} :
    Overlaps addr page ↔ pageStart addr = page ∨ pageStart (addr + 7) = page := by
  constructor
  · rintro ⟨i, hi, rfl⟩
    -- at most one of the eight bytes is the first one of a page
    have hends : (pageStart addr).toNat = (pageStart (addr + BitVec.ofNat 64 i)).toNat ∨
        (pageStart (addr + 7)).toNat = (pageStart (addr + BitVec.ofNat 64 i)).toNat := by
      have hlt := addr.isLt
      have hseven : (7 : Word).toNat = 7 := rfl
      simp only [toNat_pageStart, BitVec.toNat_add, BitVec.toNat_ofNat, hseven]
      omega
    exact hends.imp BitVec.eq_of_toNat_eq BitVec.eq_of_toNat_eq
  · rintro (rfl | rfl)
    · exact ⟨0, by decide, by rw [show BitVec.ofNat 64 0 = (0 : Word) from rfl, add_zero]⟩
    · exact ⟨7, by decide, rfl⟩

/-- The second page of a word that crosses a boundary is the next one. -/
theorem Crosses.next {addr : Word} (h : Crosses addr) :
    pageStart (addr + 7) = pageStart addr + 4096 := by
  have hne : (pageStart (addr + 7)).toNat ≠ (pageStart addr).toNat := fun heq =>
    h (BitVec.eq_of_toNat_eq heq)
  apply BitVec.eq_of_toNat_eq
  have hlt := addr.isLt
  have hseven : (7 : Word).toNat = 7 := rfl
  have hpage : (4096 : Word).toNat = 4096 := rfl
  simp only [toNat_pageStart, BitVec.toNat_add, hseven, hpage] at hne ⊢
  omega

/-! ### The validator -/

/-- A validator that accepts a range if it accepts each page of it. -/
def pageValidator (good : Word → Bool) : Validator := fun addr len =>
  (List.range (len.toNat / 4096)).all fun i => good (addr + BitVec.ofNat 64 (4096 * i))

section

variable {good : Word → Bool} {g : Lga} {addr page : Word}

theorem pageValidator_one (good : Word → Bool) (page : Word) :
    pageValidator good page 4096 = good page := by
  have hrange : (List.range ((4096 : Word).toNat / 4096)) = [0] := rfl
  unfold pageValidator
  rw [hrange, List.all_cons, List.all_nil, Bool.and_true]
  show good (page + 0) = good page
  rw [add_zero]

theorem pageValidator_two (good : Word → Bool) (page : Word) :
    pageValidator good page 8192 = (good page && good (page + 4096)) := by
  have hrange : (List.range ((8192 : Word).toNat / 4096)) = [0, 1] := rfl
  unfold pageValidator
  rw [hrange, List.all_cons, List.all_cons, List.all_nil, Bool.and_true]
  show (good (page + 0) && good (page + 4096)) = _
  rw [add_zero]

/-! ### One call -/

/-- A call that accepts the word is right to do so. -/
def SoundCall (good : Word → Bool) (addr : Word) (g : Lga) : Prop :=
  (validateMem (pageValidator good) addr g).1 = true → ∀ page, Overlaps addr page → good page = true

/-- Every page in the cache has been accepted. -/
def CacheGood (good : Word → Bool) (g : Lga) : Prop :=
  ∀ i, g.lastGoodAddr i ≠ 0 → good (g.lastGoodAddr i) = true

/-- The call takes a hit of the first page for an answer, and the validator refuses the second
one. -/
def TrustsHit (good : Word → Bool) (addr : Word) (g : Lga) : Prop :=
  Crosses addr ∧ (pageStart addr ≠ 0 ∧ ∃ i, g.lastGoodAddr i = pageStart addr) ∧
    good (pageStart (addr + 7)) = false

theorem CacheGood.empty (good : Word → Bool) : CacheGood good Lga.empty := fun _ h => absurd rfl h

/-- A slot holds the page that was inserted, or what it held before. -/
theorem insertFrom_slot (page : Word) (n : ℕ) : ∀ (victim : Fin 4) (g : Lga) (i : Fin 4),
    (Lga.insertFrom page n victim g).lastGoodAddr i = page ∨
      (Lga.insertFrom page n victim g).lastGoodAddr i = g.lastGoodAddr i := by
  have hupdate : ∀ (victim : Fin 4) (g : Lga) (i : Fin 4),
      Function.update g.lastGoodAddr victim page i = page ∨
        Function.update g.lastGoodAddr victim page i = g.lastGoodAddr i := by
    intro victim g i
    by_cases hi : i = victim
    · subst hi
      exact Or.inl (Function.update_self _ _ _)
    · exact Or.inr (Function.update_of_ne hi _ _)
  induction n with
  | zero => exact hupdate
  | succ n ih =>
    intro victim g i
    unfold Lga.insertFrom
    by_cases hfree : g.lastGoodAddr victim = 0
    · rw [if_pos hfree]
      exact hupdate victim g i
    · rw [if_neg hfree]
      exact ih (victim + 1) g i

theorem CacheGood.insert (h : CacheGood good g) (hpage : good page = true) (n : ℕ)
    (victim : Fin 4) : CacheGood good (Lga.insertFrom page n victim g) := by
  intro i hi
  obtain heq | heq := insertFrom_slot page n victim g i
  · rw [heq]
    exact hpage
  · rw [heq] at hi ⊢
    exact h i hi

/-- The size of the range the validator is asked for. -/
def rangeLen (addr : Word) : Word :=
  if pageStart (addr + 7) = pageStart addr then 4096 else 8192

/-- What the validator is asked for, and what it accepts: the pages of the word. -/
theorem pageValidator_word (good : Word → Bool) (addr : Word) :
    pageValidator good (pageStart addr) (rangeLen addr) = true ↔
      ∀ page, Overlaps addr page → good page = true := by
  have hboth : (∀ page, Overlaps addr page → good page = true) ↔
      good (pageStart addr) = true ∧ good (pageStart (addr + 7)) = true := by
    constructor
    · intro h
      exact ⟨h _ (overlaps_iff.2 (Or.inl rfl)), h _ (overlaps_iff.2 (Or.inr rfl))⟩
    · rintro ⟨hfirst, hlast⟩ page hpage
      obtain rfl | rfl := overlaps_iff.1 hpage
      · exact hfirst
      · exact hlast
  rw [hboth]
  unfold rangeLen
  by_cases hcross : pageStart (addr + 7) = pageStart addr
  · rw [if_pos hcross, pageValidator_one, hcross, and_self]
  · rw [if_neg hcross, pageValidator_two, ← Crosses.next hcross, Bool.and_eq_true]

theorem validateMem_of_null (v : Validator) (g : Lga) (h : pageStart addr = 0) :
    validateMem v addr g = (false, g) := if_pos h

theorem validateMem_of_hit (v : Validator) (h : pageStart addr ≠ 0)
    (hhit : ∃ i, g.lastGoodAddr i = pageStart addr) : validateMem v addr g = (true, g) :=
  (if_neg h).trans (if_pos hhit)

theorem validateMem_of_miss (v : Validator) (h : pageStart addr ≠ 0)
    (hmiss : ¬∃ i, g.lastGoodAddr i = pageStart addr) :
    validateMem v addr g =
      if v (pageStart addr) (rangeLen addr) then
        (true, Lga.insertFrom (pageStart addr) 4 g.victim g)
      else (false, g) :=
  (if_neg h).trans (if_neg hmiss)

/-- **The cache after a call** holds accepted pages only. -/
theorem validateMem_cacheGood (h : CacheGood good g) (addr : Word) :
    CacheGood good (validateMem (pageValidator good) addr g).2 := by
  by_cases hnull : pageStart addr = 0
  · rw [validateMem_of_null _ g hnull]
    exact h
  by_cases hhit : ∃ i, g.lastGoodAddr i = pageStart addr
  · rw [validateMem_of_hit _ hnull hhit]
    exact h
  rw [validateMem_of_miss _ hnull hhit]
  by_cases hasked : pageValidator good (pageStart addr) (rangeLen addr) = true
  · rw [if_pos hasked]
    have hpages := (pageValidator_word good addr).1 hasked
    exact h.insert (hpages _ (overlaps_iff.2 (Or.inl rfl))) 4 g.victim
  · rw [if_neg hasked]
    exact h

/-- **One call** on a cache of accepted pages is sound, unless it trusts a hit. -/
theorem soundCall_iff (h : CacheGood good g) : SoundCall good addr g ↔ ¬TrustsHit good addr g := by
  unfold SoundCall TrustsHit
  by_cases hnull : pageStart addr = 0
  · -- the first page is always refused
    rw [validateMem_of_null _ g hnull]
    exact iff_of_true nofun fun htrust => htrust.2.1.1 hnull
  by_cases hhit : ∃ i, g.lastGoodAddr i = pageStart addr
  · rw [validateMem_of_hit _ hnull hhit]
    have hfirst : good (pageStart addr) = true := by
      obtain ⟨i, hi⟩ := hhit
      rw [← hi]
      exact h i (by rw [hi]; exact hnull)
    constructor
    · rintro hsound ⟨-, -, hbad⟩
      have hlast := hsound rfl _ (overlaps_iff.2 (Or.inr rfl))
      rw [hbad] at hlast
      cases hlast
    · intro htrust _ page hpage
      obtain rfl | rfl := overlaps_iff.1 hpage
      · exact hfirst
      · -- the second page, if there is one
        by_cases hcross : Crosses addr
        · by_contra hbad
          exact htrust ⟨hcross, ⟨hnull, hhit⟩, by simpa using hbad⟩
        · rw [not_not.1 hcross]
          exact hfirst
  · rw [validateMem_of_miss _ hnull hhit]
    refine iff_of_true ?_ fun htrust => hhit htrust.2.1.2
    intro hok
    refine (pageValidator_word good addr).1 ?_
    by_contra hasked
    rw [if_neg hasked] at hok
    cases hok

/-! ### A run of calls -/

/-- The calls of a run, each with the cache that it finds. -/
def validateCalls (v : Validator) : List Word → Lga → List (Word × Lga)
  | [], _ => []
  | addr :: addrs, g => (addr, g) :: validateCalls v addrs (validateMem v addr g).2

/-- Every call of a run finds a cache of accepted pages. The induction is on the calls. -/
theorem validateCalls_cacheGood : ∀ (addrs : List Word) {g : Lga}, CacheGood good g →
    ∀ x ∈ validateCalls (pageValidator good) addrs g, CacheGood good x.2 := by
  intro addrs
  induction addrs with
  | nil => exact fun _ _ hx => absurd hx List.not_mem_nil
  | cons addr addrs ih =>
    intro g h x hx
    obtain rfl | hx := List.mem_cons.1 hx
    · exact h
    · exact ih (validateMem_cacheGood h addr) x hx

end

/-- **When the cache is sound.** For every set of good pages and every sequence of calls of
`validate_mem` from an empty cache: every call that accepts a word is right about all pages that
the word touches, if and only if no call trusts a hit. -/
theorem validate_mem_sound_iff (good : Word → Bool) (addrs : List Word) :
    (∀ x ∈ validateCalls (pageValidator good) addrs Lga.empty, SoundCall good x.1 x.2) ↔
      ∀ x ∈ validateCalls (pageValidator good) addrs Lga.empty, ¬TrustsHit good x.1 x.2 :=
  forall₂_congr fun x hx =>
    soundCall_iff (validateCalls_cacheGood addrs (CacheGood.empty good) x hx)

/-- The page at `0x1000` is good, and no other one. After a word in it, the word that ends in the
next page is accepted. -/
theorem validate_mem_trusts_hit :
    ∃ x ∈ validateCalls (pageValidator fun page => page = 0x1000) [0x1000, 0x1ffc] Lga.empty,
      ¬SoundCall (fun page => page = 0x1000) x.1 x.2 := by
  refine ⟨(0x1ffc, (validateMem (pageValidator fun page => page = 0x1000) 0x1000 Lga.empty).2),
    List.mem_cons_of_mem _ List.mem_cons_self, fun hsound => ?_⟩
  have hpage : Overlaps 0x1ffc 0x2000 := overlaps_iff.2 (Or.inr (by decide))
  exact absurd (hsound (by decide +kernel) 0x2000 hpage) (by decide)

end LibunwindKern
