import Mathlib.Data.List.Nodup
import Mathlib.Logic.Function.Basic
import Mathlib.Tactic.Common

/-!
# Doubly linked lists

The two links of a list are functions `next prev : α → α` on nodes. `Seg next prev p h l q e`
is a piece of a list: the nodes `l` are met in order from `h` on, `p` stands before the first
of them, `q` is the last node (`p` if there is none) and `e` is what follows it. Pieces
compose (`seg_append`), so an operation in the middle of a list is looked at between the
piece before it and the piece after it:

* `Seg.frame`: the links of other nodes do not matter.
* `Seg.setEnd`, `Seg.setBefore`: one store changes what follows a piece, or what stands
  before it.
* `Seg.next_eq_iff`: the two links are inverse to each other.
-/

namespace DoublyLinked

variable {α : Type} {next prev next' prev' : α → α}

/-- A piece of a doubly linked list. -/
def Seg (next prev : α → α) : α → α → List α → α → α → Prop
  | p, h, [], q, e => q = p ∧ e = h
  | p, h, d :: l, q, e => h = d ∧ prev d = p ∧ Seg next prev d (next d) l q e

theorem seg_nil {p h q e : α} : Seg next prev p h [] q e ↔ q = p ∧ e = h := Iff.rfl

theorem seg_cons {p h d q e : α} {l : List α} :
    Seg next prev p h (d :: l) q e ↔ h = d ∧ prev d = p ∧ Seg next prev d (next d) l q e :=
  Iff.rfl

/-- Pieces compose. -/
theorem seg_append {p h q e : α} {l l' : List α} :
    Seg next prev p h (l ++ l') q e ↔
      ∃ q' e', Seg next prev p h l q' e' ∧ Seg next prev q' e' l' q e := by
  induction l generalizing p h with
  | nil => simp [seg_nil]
  | cons d l ih =>
    rw [List.cons_append, seg_cons, ih]
    simp only [seg_cons]
    constructor
    · rintro ⟨hd, hp, q', e', hl, hl'⟩
      exact ⟨q', e', ⟨hd, hp, hl⟩, hl'⟩
    · rintro ⟨q', e', ⟨hd, hp, hl⟩, hl'⟩
      exact ⟨hd, hp, q', e', hl, hl'⟩

/-- A piece depends on the links of its own nodes only. -/
theorem Seg.frame {p h q e : α} {l : List α} (hseg : Seg next prev p h l q e)
    (hnext : ∀ d ∈ l, next' d = next d) (hprev : ∀ d ∈ l, prev' d = prev d) :
    Seg next' prev' p h l q e := by
  induction l generalizing p h with
  | nil => exact hseg
  | cons d l ih =>
    obtain ⟨hd, hp, hl⟩ := hseg
    refine ⟨hd, (hprev d List.mem_cons_self).trans hp, ?_⟩
    rw [hnext d List.mem_cons_self]
    exact ih hl (fun x hx => hnext x (List.mem_cons_of_mem _ hx))
      (fun x hx => hprev x (List.mem_cons_of_mem _ hx))

/-- The last node of a piece is one of its nodes. -/
theorem Seg.last_mem {p h q e : α} {l : List α} (hseg : Seg next prev p h l q e)
    (hne : l ≠ []) : q ∈ l := by
  induction l generalizing p h with
  | nil => exact absurd rfl hne
  | cons d l ih =>
    obtain ⟨-, -, hl⟩ := hseg
    cases l with
    | nil =>
      obtain ⟨rfl, -⟩ := hl
      exact List.mem_cons_self
    | cons d' l => exact List.mem_cons_of_mem _ (ih hl (List.cons_ne_nil _ _))

section Update

variable [DecidableEq α]

/-- Storing into the `next` link of the last node changes what follows the piece. -/
theorem Seg.setEnd {p h q e : α} {l : List α} (hseg : Seg next prev p h l q e) (hne : l ≠ [])
    (hnodup : l.Nodup) (e' : α) : Seg (Function.update next q e') prev p h l q e' := by
  induction l generalizing p h with
  | nil => exact absurd rfl hne
  | cons d l ih =>
    obtain ⟨hd, hp, hl⟩ := hseg
    obtain ⟨hnot, hnodup'⟩ := List.nodup_cons.1 hnodup
    refine ⟨hd, hp, ?_⟩
    cases l with
    | nil =>
      obtain ⟨rfl, -⟩ := hl
      exact ⟨rfl, by rw [Function.update_self]⟩
    | cons d' l =>
      -- the node is not the last one, so its own link stays
      have hq : q ∈ d' :: l := hl.last_mem (List.cons_ne_nil _ _)
      have hdq : d ≠ q := fun h => hnot (h ▸ hq)
      rw [Function.update_of_ne hdq]
      exact ih hl (List.cons_ne_nil _ _) hnodup'

/-- Storing into the `prev` link of the first node changes what stands before the piece. -/
theorem Seg.setBefore {p h q e : α} {l : List α} (hseg : Seg next prev p h l q e)
    (hne : l ≠ []) (hnodup : l.Nodup) (p' : α) :
    Seg next (Function.update prev h p') p' h l q e := by
  cases l with
  | nil => exact absurd rfl hne
  | cons d l =>
    obtain ⟨rfl, -, hl⟩ := hseg
    obtain ⟨hnot, -⟩ := List.nodup_cons.1 hnodup
    refine ⟨rfl, by rw [Function.update_self], hl.frame (fun _ _ => rfl) ?_⟩
    intro x hx
    rw [Function.update_of_ne]
    rintro rfl
    exact hnot hx

end Update

/-- In a list between `null` and `null` the two links are inverse to each other. -/
theorem Seg.next_eq_iff {null h q a b : α} {l : List α} (hseg : Seg next prev null h l q null)
    (hnull : ∀ d ∈ l, d ≠ null) (ha : a ∈ l) (hb : b ∈ l) : next a = b ↔ prev b = a := by
  constructor
  · rintro rfl
    obtain ⟨xs, ys, rfl⟩ := List.append_of_mem ha
    obtain ⟨q', e', -, hys⟩ := seg_append.1 hseg
    obtain ⟨-, -, hrest⟩ := hys
    cases ys with
    | nil =>
      obtain ⟨-, hend⟩ := hrest
      exact absurd hend.symm (hnull _ hb)
    | cons y ys =>
      obtain ⟨hy, hprev, -⟩ := hrest
      rw [hy]
      exact hprev
  · rintro rfl
    obtain ⟨xs, ys, rfl⟩ := List.append_of_mem hb
    obtain ⟨q', e', hxs, hys⟩ := seg_append.1 hseg
    obtain ⟨he, hprev, -⟩ := hys
    rcases List.eq_nil_or_concat xs with rfl | ⟨xs', x, rfl⟩
    · obtain ⟨rfl, -⟩ := hxs
      exact absurd hprev (hnull _ ha)
    · rw [List.concat_eq_append] at hxs
      obtain ⟨q'', e'', -, hx, -, hend⟩ := seg_append.1 hxs
      obtain ⟨rfl, rfl⟩ := hend
      rw [hprev]
      exact he

end DoublyLinked
