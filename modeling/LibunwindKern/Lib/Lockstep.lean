import LibunwindKern.Lib.Res

/-!
# Two programs in lockstep

Two calls that work on states of different types, such as a program and an abstract model of it.
`EndAlike Q A` says of two runs that they end in the same way: both return, with values and states
that `Q` relates, or both end in the same other way, with states that `A` relates. `Q` may ask for
more of the states after one return value than after another, and it says nothing of the error
codes, which are equal.

`EndAlike.bind` and `EndAlike.iter` are the rules for sequences and loops. The rule for a loop has
an invariant `I` of the loop-carried locals and the states, and `Turn I Q` is what has to be proved of
one turn.
-/

namespace CProg

variable {ε σ σ' α α' β β' ι ι' : Type}

/-- Two runs that end alike. -/
inductive EndAlike (Q : α → α' → σ → σ' → Prop) (A : σ → σ' → Prop) :
    Res ε α × σ → Res ε α' × σ' → Prop
  | ok {a : α} {a' : α'} {t : σ} {t' : σ'} (h : Q a a' t t') : EndAlike Q A (.ok a, t) (.ok a', t')
  | err {e : ε} {t : σ} {t' : σ'} (h : A t t') : EndAlike Q A (.err e, t) (.err e, t')
  | panic {t : σ} {t' : σ'} (h : A t t') : EndAlike Q A (.panic, t) (.panic, t')
  | undefined {t : σ} {t' : σ'} (h : A t t') : EndAlike Q A (.undefined, t) (.undefined, t')
  | diverge {t : σ} {t' : σ'} (h : A t t') : EndAlike Q A (.diverge, t) (.diverge, t')

/-- A turn of a loop: both go round again, or both leave the loop. -/
def Turn (I : ι → ι' → σ → σ' → Prop) (Q : α → α' → σ → σ' → Prop) :
    ι ⊕ α → ι' ⊕ α' → σ → σ' → Prop
  | .inl i, .inl i' => I i i'
  | .inr a, .inr a' => Q a a'
  | _, _ => fun _ _ => False

namespace EndAlike

variable {Q : α → α' → σ → σ' → Prop} {A : σ → σ' → Prop}

/-- The partner of a run that returns is a run that returns. -/
theorem of_ok {p : Res ε α × σ} {a' : α'} {t' : σ'} (h : EndAlike Q A p (.ok a', t')) :
    ∃ a t, p = (.ok a, t) ∧ Q a a' t t' := by
  cases h with
  | ok h => exact ⟨_, _, rfl, h⟩

/-- **Sequences** in lockstep. -/
theorem bind {x : Act ε σ β} {x' : Act ε σ' β'} {f : β → Act ε σ α} {f' : β' → Act ε σ' α'}
    {R : β → β' → σ → σ' → Prop} {s : σ} {s' : σ'} (h : EndAlike R A (x s) (x' s'))
    (hf : ∀ b b' t t', R b b' t t' → EndAlike Q A (f b t) (f' b' t')) :
    EndAlike Q A ((x >>= f) s) ((x' >>= f') s') := by
  rcases hx : x s with ⟨r, t⟩
  rcases hx' : x' s' with ⟨r', t'⟩
  rw [hx, hx'] at h
  cases h with
  | ok h =>
    rw [Act.bind_of_ok hx, Act.bind_of_ok hx']
    exact hf _ _ t t' h
  | err h =>
    rw [Act.bind_of_err hx, Act.bind_of_err hx']
    exact .err h
  | panic h =>
    rw [Act.bind_of_panic hx, Act.bind_of_panic hx']
    exact .panic h
  | undefined h =>
    rw [Act.bind_of_not_ok hx nofun, Act.bind_of_not_ok hx' nofun]
    exact .undefined h
  | diverge h =>
    rw [Act.bind_of_not_ok hx nofun, Act.bind_of_not_ok hx' nofun]
    exact .diverge h

/-- **Loops** in lockstep. -/
theorem iter {body : ι → Act ε σ (ι ⊕ α)} {body' : ι' → Act ε σ' (ι' ⊕ α')}
    {I : ι → ι' → σ → σ' → Prop} (hbound : ∀ i i' s s', I i i' s s' → A s s')
    (hturn : ∀ i i' s s', I i i' s s' → EndAlike (Turn I Q) A (body i s) (body' i' s')) (fuel : ℕ) :
    ∀ i i' s s', I i i' s s' → EndAlike Q A (Act.iter body fuel i s) (Act.iter body' fuel i' s') := by
  induction fuel with
  | zero =>
    intro i i' s s' h
    exact .diverge (hbound i i' s s' h)
  | succ fuel ih =>
    intro i i' s s' h
    refine (hturn i i' s s' h).bind fun o o' t t' hend => ?_
    cases o with
    | inl j =>
      cases o' with
      | inl j' => exact ih j j' t t' hend
      | inr _ => exact hend.elim
    | inr a =>
      cases o' with
      | inl _ => exact hend.elim
      | inr a' => exact .ok hend

end EndAlike

end CProg
