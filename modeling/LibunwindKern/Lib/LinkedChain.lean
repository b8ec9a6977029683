import Mathlib.Data.List.Chain
import Mathlib.Data.List.Nodup
import Mathlib.Logic.Function.Basic

/-!
# Chains of links

Elements of a type `α` are linked by words of a type `β`: a word is the name of an element, or
the null word. A `Naming` fixes the names.

* `Linked link head l`: the elements `l` are linked from the word `head` on, and the link of the
  last one is null. The links determine the elements (`Linked.unique`), so no element occurs twice
  (`Linked.nodup`). An element is put in front by one write (`Linked.cons_update`), and taken out by
  one write to the link before it (`Linked.unlink`).
* `Queue link first last l`: the elements `l` are linked, and the words `first` and `last` name the
  ends. Nothing is said about the link of the last one. The first element is moved to the end by one
  write (`Queue.rotate`).
-/

namespace LinkedChain

/-- Names for elements, and a word that names none of them. -/
structure Naming (α β : Type*) where
  name : α → β
  null : β
  injective : Function.Injective name
  name_ne_null : ∀ a, name a ≠ null

namespace Naming

variable {α β : Type*} (N : Naming α β) {link link' : α → β} {head : β} {a p : α} {l l₁ l₂ : List α}

/-! ### Chains with an end -/

/-- The elements are linked from `head` on, with a null link at the end. -/
def Linked (link : α → β) : β → List α → Prop
  | head, [] => head = N.null
  | head, a :: l => head = N.name a ∧ Linked link (link a) l

variable {N}

/-- The links determine the elements. -/
theorem Linked.unique {l' : List α} (h : N.Linked link head l) (h' : N.Linked link head l') :
    l = l' := by
  induction l generalizing head l' with
  | nil =>
    cases l' with
    | nil => rfl
    | cons b l' => exact absurd (h'.1.symm.trans h) (N.name_ne_null b)
  | cons a l ih =>
    cases l' with
    | nil => exact absurd (h.1.symm.trans h') (N.name_ne_null a)
    | cons b l' =>
      obtain rfl : a = b := N.injective (h.1.symm.trans h'.1)
      rw [ih h.2 h'.2]

/-- The chain from one of its elements on. -/
theorem Linked.from (h : N.Linked link head (l₁ ++ a :: l₂)) :
    N.Linked link (N.name a) (a :: l₂) := by
  induction l₁ generalizing head with
  | nil => exact ⟨rfl, h.2⟩
  | cons b l₁ ih => exact ih h.2

/-- No element occurs twice: the chain from its second occurrence on would be the one from the
first. -/
theorem Linked.nodup (h : N.Linked link head l) : l.Nodup := by
  induction l generalizing head with
  | nil => exact List.nodup_nil
  | cons a l ih =>
    refine List.nodup_cons.2 ⟨fun hmem => ?_, ih h.2⟩
    obtain ⟨l₁, l₂, rfl⟩ := List.append_of_mem hmem
    have hsame : l₂ = l₁ ++ a :: l₂ := (List.cons.inj (h.2.from.unique ⟨rfl, h.2⟩)).2
    have hlength := congrArg List.length hsame
    rw [List.length_append, List.length_cons] at hlength
    omega

/-- A chain survives every change that leaves its links alone. -/
theorem Linked.frame (h : N.Linked link head l) (hl : ∀ a ∈ l, link' a = link a) :
    N.Linked link' head l := by
  induction l generalizing head with
  | nil => exact h
  | cons a l ih =>
    refine ⟨h.1, ?_⟩
    rw [hl a List.mem_cons_self]
    exact ih h.2 fun b hb => hl b (List.mem_cons_of_mem _ hb)

section Update

variable [DecidableEq α]

theorem Linked.update_of_notMem (h : N.Linked link head l) (ha : a ∉ l) (w : β) :
    N.Linked (Function.update link a w) head l :=
  h.frame fun _ hb => Function.update_of_ne (ne_of_mem_of_not_mem hb ha) _ _

/-- One write puts an element in front. -/
theorem Linked.cons_update (h : N.Linked link head l) (ha : a ∉ l) :
    N.Linked (Function.update link a head) (N.name a) (a :: l) := by
  refine ⟨rfl, ?_⟩
  rw [Function.update_self]
  exact h.update_of_notMem ha head

/-- **Unlinking.** The element before takes over the link, and the element is out of the chain. -/
theorem Linked.unlink (h : N.Linked link head (l₁ ++ p :: a :: l₂)) :
    N.Linked (Function.update link p (link a)) head (l₁ ++ p :: l₂) := by
  induction l₁ generalizing head with
  | nil =>
    have hp : p ∉ l₂ := fun hmem =>
      (List.nodup_cons.1 h.nodup).1 (List.mem_cons_of_mem _ hmem)
    refine ⟨h.1, ?_⟩
    rw [Function.update_self]
    exact h.2.2.update_of_notMem hp _
  | cons b l₁ ih =>
    have hb : b ≠ p := by
      rintro rfl
      exact (List.nodup_cons.1 h.nodup).1 (by simp)
    refine ⟨h.1, ?_⟩
    change N.Linked (Function.update link p (link a)) (Function.update link p (link a) b) _
    rw [Function.update_of_ne hb]
    exact ih h.2

end Update

/-! ### Queues -/

variable (N)

/-- The elements are linked in a row, and `first` and `last` name its ends. -/
structure Queue (link : α → β) (first last : β) (l : List α) : Prop where
  row : l.IsChain fun a b => link a = N.name b
  first : ∀ a ∈ l.head?, first = N.name a
  last : ∀ a ∈ l.getLast?, last = N.name a

variable {N}

/-- **Rotation.** One write moves the first element to the end. -/
theorem Queue.rotate [DecidableEq α] {first last : β} (h : N.Queue link first last (a :: l ++ [p]))
    (hnodup : (a :: l ++ [p]).Nodup) :
    N.Queue (Function.update link p (N.name a)) (link a) (N.name a) (l ++ [p] ++ [a]) := by
  obtain ⟨hrow, -, -⟩ := h
  rw [List.cons_append] at hrow hnodup
  obtain ⟨hhead, hrest⟩ := List.isChain_cons.1 hrow
  have hp : p ∉ l := by
    have hnodup' := (List.nodup_cons.1 hnodup).2
    exact fun hmem => (List.nodup_append.1 hnodup').2.2 p hmem p List.mem_cons_self rfl
  refine ⟨?_, fun b hb => ?_, fun b hb => ?_⟩
  · -- the links before the end are as before, and the end links to the element
    have hold : (l ++ [p]).IsChain fun b c => Function.update link p (N.name a) b = N.name c := by
      rw [List.isChain_append] at hrest ⊢
      refine ⟨hrest.1.imp_of_mem_imp fun b c hb _ hbc => ?_, List.isChain_singleton _,
        fun b hb c hc => ?_⟩
      · rw [Function.update_of_ne (ne_of_mem_of_not_mem hb hp)]
        exact hbc
      · rw [Function.update_of_ne (ne_of_mem_of_not_mem (List.mem_of_mem_getLast? hb) hp)]
        exact hrest.2.2 b hb c hc
    refine List.isChain_append.2 ⟨hold, List.isChain_singleton _, fun b hb c hc => ?_⟩
    rw [List.getLast?_append_cons] at hb
    cases hb
    cases hc
    exact Function.update_self p _ link
  · refine hhead b ?_
    cases l with
    | nil => exact hb
    | cons c l => exact hb
  · rw [List.getLast?_append_cons] at hb
    cases hb
    rfl

end Naming

end LinkedChain
