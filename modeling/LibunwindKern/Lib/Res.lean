import Mathlib.Tactic.Common

/-!
# Outcomes and stateful calls of C-like programs

The shape every modelled function is written in. A function that only computes
returns a `Res ε α`: a value, an error code, or one of the three ways a C
function fails to come back (`panic`, `undefined`, `diverge`). A function that also
writes through pointers is an `Act ε σ α`, which maps the state before the call
to the outcome *and* the state after it. The state is kept in every outcome: an
error return leaves whatever had been written before it, which is what a caller
that goes on after an error sees.

* `Act.bind_eq_ok` is the inversion rule for sequencing: a run that succeeds
  splits into two runs that succeed.
* `Act.attempt` hands an error code to the caller as a value, the way
  `if ((ret = f (...)) < 0)` does.
* `Act.loop` is a `while` loop with a bound on the number of tests of its
  condition. `Act.loop_inv` is the invariant rule, and `Act.loop_turns` splits a run of
  the loop into its turns.
-/

namespace CProg

/-- The ways a call can end. -/
inductive Res (ε α : Type) where
  /-- The function returns normally. -/
  | ok (a : α)
  /-- The function returns a (negated) error code. -/
  | err (e : ε)
  /-- The system stops: a failed assertion or an explicit panic. -/
  | panic
  /-- The behaviour is undefined: a null dereference, an index out of range. -/
  | undefined
  /-- The loop bound was reached before the function returned. -/
  | diverge
  deriving DecidableEq, Repr

namespace Res

variable {ε α β : Type}

/-- Sequencing of outcomes. -/
def bind (x : Res ε α) (f : α → Res ε β) : Res ε β :=
  match x with
  | ok a => f a
  | err e => err e
  | panic => panic
  | undefined => undefined
  | diverge => diverge

instance : Monad (Res ε) where
  pure := ok
  bind := bind

@[simp] theorem pure_eq (a : α) : (pure a : Res ε α) = ok a := rfl

@[simp] theorem ok_bind (a : α) (f : α → Res ε β) : (ok a >>= f) = f a := rfl

@[simp] theorem err_bind (e : ε) (f : α → Res ε β) : ((err e : Res ε α) >>= f) = err e := rfl

@[simp] theorem diverge_bind (f : α → Res ε β) : ((diverge : Res ε α) >>= f) = diverge := rfl

/-- A sequence that succeeds is two computations that succeed. -/
theorem bind_eq_ok {x : Res ε α} {f : α → Res ε β} {b : β} (h : (x >>= f) = ok b) :
    ∃ a, x = ok a ∧ f a = ok b := by
  cases x with
  | ok a => exact ⟨a, rfl, h⟩
  | err e => cases h
  | panic => cases h
  | undefined => cases h
  | diverge => cases h

theorem bind_ne_ok {x : Res ε α} (h : ∀ a, x ≠ ok a) (f : α → Res ε β) (b : β) :
    (x >>= f) ≠ ok b := by
  intro hb
  obtain ⟨a, ha, -⟩ := bind_eq_ok hb
  exact h a ha

/-- An outcome other than success is passed on by every sequence. -/
theorem bind_bind_of_not_ok {γ : Type} {x : Res ε α} (h : ∀ a, x ≠ ok a) (f : α → Res ε β)
    (g : β → Res ε γ) (k : α → Res ε γ) : ((x >>= f) >>= g) = (x >>= k) := by
  cases x with
  | ok a => exact absurd rfl (h a)
  | _ => rfl

/-- What follows an outcome other than success does not matter. -/
theorem bind_congr_of_not_ok {x : Res ε α} (h : ∀ a, x ≠ ok a) (f g : α → Res ε β) :
    (x >>= f) = (x >>= g) := by
  cases x with
  | ok a => exact absurd rfl (h a)
  | _ => rfl

theorem bind_ne_diverge {x : Res ε α} (h : ∀ a, x ≠ ok a) (hends : x ≠ diverge)
    (f : α → Res ε β) : (x >>= f) ≠ diverge := by
  cases x with
  | ok a => exact absurd rfl (h a)
  | diverge => exact absurd rfl hends
  | _ => exact nofun

/-- The value of a call that succeeds. -/
def toOption : Res ε α → Option α
  | .ok a => some a
  | _ => none

theorem ok_or_ne (x : Res ε α) : (∃ a, x = ok a) ∨ ∀ a, x ≠ ok a := by
  cases x with
  | ok a => exact Or.inl ⟨a, rfl⟩
  | _ => exact Or.inr nofun

/-- The computation has not come back: it has neither a value nor an error. -/
def Stuck (x : Res ε α) : Prop := (∀ a, x ≠ ok a) ∧ ∀ e, x ≠ err e

theorem ok_or_err_or_stuck (x : Res ε α) : (∃ a, x = ok a) ∨ (∃ e, x = err e) ∨ x.Stuck := by
  cases x with
  | ok a => exact Or.inl ⟨a, rfl⟩
  | err e => exact Or.inr (Or.inl ⟨e, rfl⟩)
  | _ => exact Or.inr (Or.inr ⟨nofun, nofun⟩)

theorem Stuck.bind {x : Res ε α} (h : x.Stuck) (f : α → Res ε β) : (x >>= f).Stuck := by
  cases x with
  | ok a => exact absurd rfl (h.1 a)
  | err e => exact absurd rfl (h.2 e)
  | _ => exact ⟨nofun, nofun⟩

theorem bind_eq_err_iff {x : Res ε α} (h : ∀ a, x ≠ ok a) (f : α → Res ε β) (e : ε) :
    (x >>= f) = err e ↔ x = err e := by
  cases x with
  | ok a => exact absurd rfl (h a)
  | err e' => rw [err_bind, err.injEq, err.injEq]
  | _ => exact ⟨nofun, nofun⟩

/-- An outcome other than success is the outcome of a sequence with a result of the same type. -/
theorem bind_eq_self {x : Res ε α} (h : ∀ a, x ≠ ok a) (f : α → Res ε α) : (x >>= f) = x := by
  cases x with
  | ok a => exact absurd rfl (h a)
  | _ => rfl

end Res

/-- A call that reads and writes a state `σ`. -/
def Act (ε σ α : Type) : Type := σ → Res ε α × σ

namespace Act

variable {ε σ τ ι α β : Type}

/-- Sequencing: the second call runs in the state the first one left. -/
def bind (x : Act ε σ α) (f : α → Act ε σ β) : Act ε σ β := fun s =>
  match x s with
  | (.ok a, s') => f a s'
  | (.err e, s') => (.err e, s')
  | (.panic, s') => (.panic, s')
  | (.undefined, s') => (.undefined, s')
  | (.diverge, s') => (.diverge, s')

instance : Monad (Act ε σ) where
  pure a := fun s => (.ok a, s)
  bind := bind

/-- The current state. -/
def get : Act ε σ σ := fun s => (.ok s, s)

/-- Replace the state by its image. -/
def modify (f : σ → σ) : Act ε σ Unit := fun s => (.ok (), f s)

/-- End the call with an outcome, writing nothing. -/
def lift (r : Res ε α) : Act ε σ α := fun s => (r, s)

/-- Return an error code. -/
def fail (e : ε) : Act ε σ α := fun s => (.err e, s)

/-- Hand the error code of `x` to the caller as a value. -/
def attempt (x : Act ε σ α) : Act ε σ (Except ε α) := fun s =>
  match x s with
  | (.ok a, s') => (.ok (.ok a), s')
  | (.err e, s') => (.ok (.error e), s')
  | (.panic, s') => (.panic, s')
  | (.undefined, s') => (.undefined, s')
  | (.diverge, s') => (.diverge, s')

/-- Run a call on a part of the state. -/
def zoom (part : σ → τ) (put : τ → σ → σ) (x : Act ε τ α) : Act ε σ α := fun s =>
  ((x (part s)).1, put (x (part s)).2 s)

@[simp] theorem pure_apply (a : α) (s : σ) : (pure a : Act ε σ α) s = (.ok a, s) := rfl

@[simp] theorem get_apply (s : σ) : (get : Act ε σ σ) s = (.ok s, s) := rfl

@[simp] theorem modify_apply (f : σ → σ) (s : σ) :
    (modify f : Act ε σ Unit) s = (.ok (), f s) := rfl

@[simp] theorem lift_apply (r : Res ε α) (s : σ) : (lift r : Act ε σ α) s = (r, s) := rfl

@[simp] theorem fail_apply (e : ε) (s : σ) : (fail e : Act ε σ α) s = (.err e, s) := rfl

@[simp] theorem zoom_apply (part : σ → τ) (put : τ → σ → σ) (x : Act ε τ α) (s : σ) :
    zoom part put x s = ((x (part s)).1, put (x (part s)).2 s) := rfl

/-- A run is its outcome and its final state. -/
theorem run_of_outcome {r : Res ε α} {q : Res ε α × σ} (h : q.1 = r) : q = (r, q.2) := by
  rw [← h]

/-- Sequencing after a call that succeeds. -/
theorem bind_of_ok {x : Act ε σ α} {f : α → Act ε σ β} {s s' : σ} {a : α}
    (h : x s = (.ok a, s')) : (x >>= f) s = f a s' := by
  change bind x f s = _
  unfold bind
  rw [h]

/-- Sequencing after a call that returns an error code. -/
theorem bind_of_err {x : Act ε σ α} {f : α → Act ε σ β} {s s' : σ} {e : ε}
    (h : x s = (.err e, s')) : (x >>= f) s = (.err e, s') := by
  change bind x f s = _
  unfold bind
  rw [h]

/-- Sequencing after a call that stops the system. -/
theorem bind_of_panic {x : Act ε σ α} {f : α → Act ε σ β} {s s' : σ}
    (h : x s = (.panic, s')) : (x >>= f) s = (.panic, s') := by
  change bind x f s = _
  unfold bind
  rw [h]

/-- Sequencing after a call that does not succeed, whichever way. -/
theorem bind_of_not_ok {x : Act ε σ α} {s t : σ} {r : Res ε α} (h : x s = (r, t))
    (hr : ∀ a, r ≠ .ok a) (f : α → Act ε σ β) : (x >>= f) s = (r >>= fun _ => .diverge, t) := by
  change bind x f s = _
  unfold bind
  rw [h]
  cases r with
  | ok a => exact absurd rfl (hr a)
  | _ => rfl

/-- Two continuations that agree on what the call can return. -/
theorem bind_congr_right {x : Act ε σ α} {f g : α → Act ε σ β} {s : σ}
    (h : ∀ a t, x s = (.ok a, t) → f a t = g a t) : (x >>= f) s = (x >>= g) s := by
  rcases hrun : x s with ⟨r, t⟩
  obtain ⟨a, rfl⟩ | hr := r.ok_or_ne
  · rw [bind_of_ok hrun, bind_of_ok hrun, h a t hrun]
  · rw [bind_of_not_ok hrun hr, bind_of_not_ok hrun hr]

/-- Sequencing depends on the first call only through its run. -/
theorem bind_congr_left {x y : Act ε σ α} {s s' : σ} (f : α → Act ε σ β) (h : x s = y s') :
    (x >>= f) s = (y >>= f) s' := by
  change bind x f s = bind y f s'
  unfold bind
  rw [h]

theorem attempt_congr {x y : Act ε σ α} {s s' : σ} (h : x s = y s') :
    attempt x s = attempt y s' := by
  unfold attempt
  rw [h]

/-- A call whose second part returns what it does in every state. -/
theorem bind_fst {x : Act ε σ α} {f : α → Act ε σ β} {k : α → Res ε β}
    (h : ∀ a t, (f a t).1 = k a) (s : σ) : ((x >>= f) s).1 = ((x s).1 >>= k) := by
  rcases hrun : x s with ⟨r, t⟩
  obtain ⟨a, rfl⟩ | hr := r.ok_or_ne
  · rw [bind_of_ok hrun, h]
    rfl
  · rw [bind_of_not_ok hrun hr]
    exact Res.bind_congr_of_not_ok hr _ k

/-- A call that returns a view of the state it leaves. -/
theorem bind_view (x : Act ε σ α) (view : σ → β) (s : σ) :
    ((x >>= fun _ => get >>= fun t => pure (view t)) s).1 =
      ((x s).1 >>= fun _ => Res.ok (view (x s).2)) := by
  rcases hrun : x s with ⟨r, t⟩
  obtain ⟨a, rfl⟩ | hr := r.ok_or_ne
  · rw [bind_of_ok hrun]
    rfl
  · rw [bind_of_not_ok hrun hr]
    exact Res.bind_congr_of_not_ok hr _ _

@[simp] theorem get_bind (f : σ → Act ε σ β) (s : σ) : (get >>= f) s = f s s := rfl

@[simp] theorem modify_bind (g : σ → σ) (f : Unit → Act ε σ β) (s : σ) :
    (modify g >>= f) s = f () (g s) := rfl

@[simp] theorem pure_bind (a : α) (f : α → Act ε σ β) (s : σ) :
    ((pure a : Act ε σ α) >>= f) s = f a s := rfl

@[simp] theorem fail_bind (e : ε) (f : α → Act ε σ β) (s : σ) :
    ((fail e : Act ε σ α) >>= f) s = (.err e, s) := rfl

@[simp] theorem lift_ok_bind (a : α) (f : α → Act ε σ β) (s : σ) :
    ((lift (.ok a) : Act ε σ α) >>= f) s = f a s := rfl

/-- **Inversion of sequencing.** A sequence that succeeds is two calls that
succeed, the second one in the state the first one left. -/
theorem bind_eq_ok {x : Act ε σ α} {f : α → Act ε σ β} {s s'' : σ} {b : β}
    (h : (x >>= f) s = (.ok b, s'')) :
    ∃ a s', x s = (.ok a, s') ∧ f a s' = (.ok b, s'') := by
  change bind x f s = _ at h
  unfold bind at h
  rcases hx : x s with ⟨r, s'⟩
  rw [hx] at h
  cases r with
  | ok a => exact ⟨a, s', rfl, h⟩
  | err e => cases h
  | panic => cases h
  | undefined => cases h
  | diverge => cases h

/-- A sequence that returns an error code does so in its first call, or in the second
one after the first has succeeded. -/
theorem bind_eq_err {x : Act ε σ α} {f : α → Act ε σ β} {s s'' : σ} {e : ε}
    (h : (x >>= f) s = (.err e, s'')) :
    x s = (.err e, s'') ∨ ∃ a s', x s = (.ok a, s') ∧ f a s' = (.err e, s'') := by
  rcases hx : x s with ⟨r, s'⟩
  obtain ⟨a, rfl⟩ | hr := r.ok_or_ne
  · rw [bind_of_ok hx] at h
    exact Or.inr ⟨a, s', rfl, h⟩
  · rw [bind_of_not_ok hx hr] at h
    obtain ⟨hout, rfl⟩ := Prod.mk.inj h
    exact Or.inl (congrArg (·, s') ((Res.bind_eq_err_iff hr _ e).1 hout))

theorem bind_assoc {γ : Type} (x : Act ε σ α) (f : α → Act ε σ β) (g : β → Act ε σ γ) :
    (x >>= f) >>= g = x >>= fun a => f a >>= g := by
  funext s
  rcases hx : x s with ⟨r, s'⟩
  obtain ⟨a, rfl⟩ | hr := r.ok_or_ne
  · calc ((x >>= f) >>= g) s = (f a >>= g) s' := bind_congr_left g (bind_of_ok hx)
      _ = (x >>= fun a => f a >>= g) s := by rw [bind_of_ok hx]
  · have hf := bind_of_not_ok hx hr f
    rw [bind_of_not_ok hf (Res.bind_ne_ok hr _), bind_of_not_ok hx hr, Res.bind_bind_of_not_ok hr]

/-- A call on a part of the state that succeeds is the call itself, succeeding
on that part. -/
theorem zoom_eq_ok {part : σ → τ} {put : τ → σ → σ} {x : Act ε τ α} {s s' : σ} {a : α}
    (h : zoom part put x s = (.ok a, s')) :
    ∃ t, x (part s) = (.ok a, t) ∧ s' = put t s := by
  rw [zoom_apply, Prod.mk.injEq] at h
  exact ⟨(x (part s)).2, Prod.ext h.1 rfl, h.2.symm⟩

/-- The two ways a call whose error code is caught can come back. -/
theorem attempt_eq_ok {x : Act ε σ α} {s s' : σ} {r : Except ε α}
    (h : attempt x s = (.ok r, s')) :
    (∃ a, r = .ok a ∧ x s = (.ok a, s')) ∨ (∃ e, r = .error e ∧ x s = (.err e, s')) := by
  unfold attempt at h
  rcases hx : x s with ⟨q, t⟩
  rw [hx] at h
  cases q with
  | ok a =>
    obtain ⟨h₁, rfl⟩ := Prod.mk.inj h
    cases h₁
    exact Or.inl ⟨a, rfl, rfl⟩
  | err e =>
    obtain ⟨h₁, rfl⟩ := Prod.mk.inj h
    cases h₁
    exact Or.inr ⟨e, rfl, rfl⟩
  | panic => cases h
  | undefined => cases h
  | diverge => cases h

theorem attempt_of_ok {x : Act ε σ α} {s s' : σ} {a : α} (h : x s = (.ok a, s')) :
    attempt x s = (.ok (.ok a), s') := by
  unfold attempt; rw [h]

theorem attempt_of_err {x : Act ε σ α} {s s' : σ} {e : ε} (h : x s = (.err e, s')) :
    attempt x s = (.ok (.error e), s') := by
  unfold attempt; rw [h]

/-- A call that has not come back has no error code to catch. -/
theorem attempt_of_stuck {x : Act ε σ α} {s t : σ} {r : Res ε α} (h : x s = (r, t))
    (hr : r.Stuck) : attempt x s = (r >>= fun _ => .diverge, t) := by
  unfold attempt
  rw [h]
  cases r with
  | ok a => exact absurd rfl (hr.1 a)
  | err e => exact absurd rfl (hr.2 e)
  | _ => rfl

/-- Sequencing after a call that has not come back, whose error code would be caught. -/
theorem attempt_bind_of_stuck {x : Act ε σ α} {s t : σ} {r : Res ε α} (h : x s = (r, t))
    (hr : r.Stuck) (f : Except ε α → Act ε σ β) :
    (attempt x >>= f) s = (r >>= fun _ => .diverge, t) := by
  rw [bind_of_not_ok (attempt_of_stuck h hr) (Res.bind_ne_ok hr.1 _),
    Res.bind_bind_of_not_ok hr.1]

/-! ### Loops -/

/-- `while (cond) body`, giving up (`diverge`) after the condition has been
tested `fuel` times. -/
def loop (cond : σ → Bool) (body : Act ε σ Unit) : ℕ → Act ε σ Unit
  | 0 => lift .diverge
  | fuel + 1 => fun s =>
    if cond s then (body >>= fun _ => loop cond body fuel) s else (.ok (), s)

@[simp] theorem loop_zero (cond : σ → Bool) (body : Act ε σ Unit) (s : σ) :
    loop cond body 0 s = (.diverge, s) := rfl

theorem loop_succ_of_not {cond : σ → Bool} {body : Act ε σ Unit} {s : σ} (fuel : ℕ)
    (h : cond s = false) : loop cond body (fuel + 1) s = (.ok (), s) := by
  simp [loop, h]

theorem loop_succ_of {cond : σ → Bool} {body : Act ε σ Unit} {s : σ} (fuel : ℕ)
    (h : cond s = true) :
    loop cond body (fuel + 1) s = (body >>= fun _ => loop cond body fuel) s := by
  simp [loop, h]

/-- A turn that does not succeed ends the loop with its own outcome. -/
theorem loop_succ_of_stop {cond : σ → Bool} {body : Act ε σ Unit} {s t : σ} {r : Res ε Unit}
    (fuel : ℕ) (h : cond s = true) (hbody : body s = (r, t)) (hr : ∀ a, r ≠ .ok a) :
    loop cond body (fuel + 1) s = (r, t) := by
  rw [loop_succ_of fuel h, bind_of_not_ok hbody hr, Res.bind_eq_self hr]

/-- **Invariant rule.** A property of the state that each successful turn of the
body preserves holds when the loop ends, together with the negated condition. -/
theorem loop_inv {cond : σ → Bool} {body : Act ε σ Unit} (Inv : σ → Prop)
    (hstep : ∀ s s', Inv s → cond s = true → body s = (.ok (), s') → Inv s') :
    ∀ (fuel : ℕ) (s s' : σ), Inv s → loop cond body fuel s = (.ok (), s') →
      Inv s' ∧ cond s' = false := by
  intro fuel
  induction fuel with
  | zero => intro s s' _ h; cases h
  | succ fuel ih =>
    intro s s' hI h
    cases hc : cond s with
    | false =>
      rw [loop_succ_of_not fuel hc] at h
      obtain ⟨-, rfl⟩ := Prod.mk.inj h
      exact ⟨hI, hc⟩
    | true =>
      rw [loop_succ_of fuel hc] at h
      obtain ⟨⟨⟩, t, ht, hrest⟩ := bind_eq_ok h
      exact ih t s' (hstep s t hI hc ht) hrest

/-- The turns of a loop, as far as they succeed: the states they start in, in order, and the
state the last of them leaves. -/
inductive Turns (cond : σ → Bool) (body : Act ε σ Unit) : σ → List σ → σ → Prop
  | nil {s : σ} : Turns cond body s [] s
  | cons {s t u : σ} {l : List σ} (hcond : cond s = true) (hbody : body s = (.ok (), t))
      (hrest : Turns cond body t l u) : Turns cond body s (s :: l) u

/-- How a loop ends after the turns that succeed: its condition is false, the next turn does
not succeed, or the bound is reached. -/
inductive LoopEnd (cond : σ → Bool) (body : Act ε σ Unit) (t : σ) : Res ε Unit × σ → Prop
  | done (hcond : cond t = false) : LoopEnd cond body t (.ok (), t)
  | stop {r : Res ε Unit} {u : σ} (hcond : cond t = true) (hbody : body t = (r, u))
      (hr : r ≠ .ok ()) : LoopEnd cond body t (r, u)
  | bound : LoopEnd cond body t (.diverge, t)

/-- **A loop is its turns**, and the way it ends. -/
theorem loop_turns (cond : σ → Bool) (body : Act ε σ Unit) (fuel : ℕ) (s : σ) :
    ∃ l t, Turns cond body s l t ∧ LoopEnd cond body t (loop cond body fuel s) := by
  induction fuel generalizing s with
  | zero => exact ⟨[], s, .nil, .bound⟩
  | succ fuel ih =>
    cases hc : cond s with
    | false =>
      rw [loop_succ_of_not fuel hc]
      exact ⟨[], s, .nil, .done hc⟩
    | true =>
      rcases hrun : body s with ⟨r, t⟩
      obtain ⟨⟨⟩, rfl⟩ | hr := r.ok_or_ne
      · rw [loop_succ_of fuel hc, bind_of_ok hrun]
        obtain ⟨l, u, hturns, hend⟩ := ih t
        exact ⟨s :: l, u, .cons hc hrun hturns, hend⟩
      · rw [loop_succ_of_stop fuel hc hrun hr]
        exact ⟨[], s, .nil, .stop hc hrun (hr ())⟩

/-- **An invariant of the turns.** -/
theorem Turns.inv {cond : σ → Bool} {body : Act ε σ Unit} (Inv : σ → Prop)
    (hstep : ∀ s t, Inv s → cond s = true → body s = (.ok (), t) → Inv t) {s u : σ} {l : List σ}
    (h : Turns cond body s l u) (hs : Inv s) : Inv u := by
  induction h with
  | nil => exact hs
  | cons hcond hbody _ ih => exact ih (hstep _ _ hs hcond hbody)

/-- **A fold over the turns.** What each turn does to a view of the state depends on a label of
the state it starts in. -/
theorem Turns.foldl {ℓ : Type} {cond : σ → Bool} {body : Act ε σ Unit} {view : σ → τ}
    {label : σ → ℓ} {f : τ → ℓ → τ}
    (hstep : ∀ s t, body s = (.ok (), t) → view t = f (view s) (label s)) {s u : σ} {l : List σ}
    (h : Turns cond body s l u) : view u = (l.map label).foldl f (view s) := by
  induction h with
  | nil => rfl
  | cons _ hbody _ ih => rw [ih, hstep _ _ hbody, List.map_cons, List.foldl_cons]

/-- The turns split where their states do. -/
theorem Turns.split {cond : σ → Bool} {body : Act ε σ Unit} {l₁ l₂ : List σ} {s u : σ}
    (h : Turns cond body s (l₁ ++ l₂) u) :
    ∃ t, Turns cond body s l₁ t ∧ Turns cond body t l₂ u := by
  induction l₁ generalizing s with
  | nil => exact ⟨s, .nil, h⟩
  | cons a l₁ ih =>
    cases h with
    | cons hcond hbody hrest =>
      obtain ⟨t, h₁, h₂⟩ := ih hrest
      exact ⟨t, .cons hcond hbody h₁, h₂⟩

/-- One turn. -/
theorem Turns.singleton {cond : σ → Bool} {body : Act ε σ Unit} {s t u : σ}
    (h : Turns cond body s [t] u) : t = s ∧ body s = (.ok (), u) := by
  cases h with
  | cons _ hbody hrest =>
    cases hrest
    exact ⟨rfl, hbody⟩

/-- Each of the states is that of a turn that succeeds. -/
theorem Turns.body_eq {cond : σ → Bool} {body : Act ε σ Unit} {s u w : σ} {l : List σ}
    (h : Turns cond body s l u) (hw : w ∈ l) : ∃ t, body w = (.ok (), t) := by
  induction h with
  | nil => cases hw
  | cons _ hbody _ ih =>
    rcases List.mem_cons.1 hw with rfl | hw
    · exact ⟨_, hbody⟩
    · exact ih hw

/-- After the turns that succeed, the loop goes on from where they lead. -/
theorem Turns.loop_eq {cond : σ → Bool} {body : Act ε σ Unit} {s u : σ} {l : List σ}
    (h : Turns cond body s l u) (fuel : ℕ) :
    loop cond body (l.length + fuel) s = loop cond body fuel u := by
  induction h with
  | nil => rw [List.length_nil, Nat.zero_add]
  | cons hcond hbody _ ih =>
    rw [List.length_cons, Nat.add_right_comm, loop_succ_of _ hcond, bind_of_ok hbody, ih]

/-- A turn that fails ends the loop. -/
theorem Turns.loop_eq_err {cond : σ → Bool} {body : Act ε σ Unit} {s t u : σ} {l : List σ} {e : ε}
    (h : Turns cond body s l t) (hcond : cond t = true) (hbody : body t = (.err e, u)) {fuel : ℕ}
    (hfuel : l.length < fuel) : loop cond body fuel s = (.err e, u) := by
  obtain ⟨k, rfl⟩ := Nat.exists_eq_add_of_lt hfuel
  rw [Nat.add_assoc, h.loop_eq, loop_succ_of _ hcond, bind_of_err hbody]

/-- **A measure for the turns.** Where each turn that is reached decreases a measure, there are no
more turns than the measure says, -/
theorem Turns.length_le {cond : σ → Bool} {body : Act ε σ Unit} (μ : σ → ℕ) {s u : σ} {l : List σ}
    (h : Turns cond body s l u)
    (hdec : ∀ l t v, Turns cond body s l t → cond t = true → body t = (.ok (), v) → μ v < μ t) :
    l.length ≤ μ s := by
  induction h with
  | nil => exact Nat.zero_le _
  | cons hcond hbody _ ih =>
    have hnext := hdec [] _ _ .nil hcond hbody
    have hrest := ih fun l t v hturns => hdec _ t v (.cons hcond hbody hturns)
    rw [List.length_cons]
    omega

/-- and the loop ends if its turns do. -/
theorem loop_ends_of_measure {cond : σ → Bool} {body : Act ε σ Unit} (μ : σ → ℕ) {fuel : ℕ} {s : σ}
    (hends : ∀ l t, Turns cond body s l t → cond t = true → (body t).1 ≠ .diverge)
    (hdec : ∀ l t v, Turns cond body s l t → cond t = true → body t = (.ok (), v) → μ v < μ t)
    (hfuel : μ s < fuel) : (loop cond body fuel s).1 ≠ .diverge := by
  induction fuel generalizing s with
  | zero => exact absurd hfuel (Nat.not_lt_zero _)
  | succ fuel ih =>
    cases hc : cond s with
    | false => rw [loop_succ_of_not fuel hc]; exact nofun
    | true =>
      have hturn := hends [] s .nil hc
      rcases hrun : body s with ⟨r, t⟩
      rw [hrun] at hturn
      obtain ⟨⟨⟩, rfl⟩ | hr := r.ok_or_ne
      · have hnext := hdec [] s t .nil hc hrun
        rw [loop_succ_of fuel hc, bind_of_ok hrun]
        exact ih (fun l u h => hends _ u (.cons hc hrun h))
          (fun l u v h => hdec _ u v (.cons hc hrun h)) (by omega)
      · rw [loop_succ_of_stop fuel hc hrun hr]
        exact hturn

/-- A measure that no turn of the body decreases is not decreased by the loop. -/
theorem loop_measure_le {cond : σ → Bool} {body : Act ε σ Unit} (μ : σ → ℕ)
    (hbody : ∀ s, μ s ≤ μ (body s).2) (fuel : ℕ) (s : σ) : μ s ≤ μ (loop cond body fuel s).2 := by
  induction fuel generalizing s with
  | zero => exact Nat.le_refl _
  | succ fuel ih =>
    cases hc : cond s with
    | false => exact Nat.le_of_eq (by rw [loop_succ_of_not fuel hc])
    | true =>
      have hturn := hbody s
      rcases hrun : body s with ⟨r, t⟩
      rw [hrun] at hturn
      obtain ⟨⟨⟩, rfl⟩ | hr := r.ok_or_ne
      · rw [loop_succ_of fuel hc, bind_of_ok hrun]
        exact Nat.le_trans hturn (ih t)
      · rw [loop_succ_of_stop fuel hc hrun hr]
        exact hturn

/-- **Two conditions for one loop.** A loop with a weaker condition goes the same way as
the loop with the stronger one. It is either the same run, or goes on from where the
stronger condition ends the loop. -/
theorem loop_of_weaker {cond cond' : σ → Bool} (body : Act ε σ Unit)
    (hweak : ∀ s, cond s = true → cond' s = true) (fuel : ℕ) (s : σ) :
    (loop cond' body fuel s = loop cond body fuel s ∧
        ∀ u, loop cond body fuel s = (.ok (), u) → cond' u = false) ∨
      ∃ u k, loop cond body fuel s = (.ok (), u) ∧ cond' u = true ∧
        loop cond' body fuel s = (body >>= fun _ => loop cond' body k) u := by
  induction fuel generalizing s with
  | zero => exact Or.inl ⟨rfl, fun u hu => by cases hu⟩
  | succ fuel ih =>
    cases hc : cond s with
    | false =>
      rw [loop_succ_of_not fuel hc]
      cases hc' : cond' s with
      | false =>
        refine Or.inl ⟨loop_succ_of_not fuel hc', fun u hu => ?_⟩
        cases hu
        exact hc'
      | true => exact Or.inr ⟨s, fuel, rfl, hc', loop_succ_of fuel hc'⟩
    | true =>
      -- the stronger condition holds, so both loops take the same turn
      rcases hrun : body s with ⟨r, t⟩
      obtain ⟨⟨⟩, rfl⟩ | hr := r.ok_or_ne
      · rw [loop_succ_of fuel hc, loop_succ_of fuel (hweak s hc), bind_of_ok hrun, bind_of_ok hrun]
        exact ih t
      · rw [loop_succ_of_stop fuel hc hrun hr, loop_succ_of_stop fuel (hweak s hc) hrun hr]
        exact Or.inl ⟨rfl, fun u hu => absurd (Prod.mk.inj hu).1 (hr ())⟩

/-- `while (1)` with loop-carried locals `ι`: a turn of the body either goes round
again with new locals or leaves the loop with a value. -/
def iter (body : ι → Act ε σ (ι ⊕ α)) : ℕ → ι → Act ε σ α
  | 0, _ => lift .diverge
  | fuel + 1, i => body i >>= fun r =>
    match r with
    | .inl j => iter body fuel j
    | .inr a => pure a

/-- A turn that goes round again. -/
theorem iter_of_inl {body : ι → Act ε σ (ι ⊕ α)} {i j : ι} {s s' : σ} (fuel : ℕ)
    (h : body i s = (.ok (.inl j), s')) :
    iter body (fuel + 1) i s = iter body fuel j s' := by
  rw [iter, bind_of_ok h]

/-- A turn that leaves the loop. -/
theorem iter_of_inr {body : ι → Act ε σ (ι ⊕ α)} {i : ι} {a : α} {s s' : σ} (fuel : ℕ)
    (h : body i s = (.ok (.inr a), s')) :
    iter body (fuel + 1) i s = (.ok a, s') := by
  rw [iter, bind_of_ok h]
  rfl

/-- A turn that does not come back. -/
theorem iter_of_panic {body : ι → Act ε σ (ι ⊕ α)} {i : ι} {s s' : σ} (fuel : ℕ)
    (h : body i s = (.panic, s')) :
    iter body (fuel + 1) i s = (.panic, s') := by
  rw [iter, bind_of_panic h]

/-- A turn that neither goes round again nor leaves the loop stops it there. -/
theorem iter_of_stop {body : ι → Act ε σ (ι ⊕ α)} {i : ι} {s s' : σ} {r : Res ε (ι ⊕ α)}
    (fuel : ℕ) (h : body i s = (r, s')) (hstop : ∀ o, r ≠ .ok o) (hends : r ≠ .diverge) :
    ∃ q : Res ε α, iter body (fuel + 1) i s = (q, s') ∧ q ≠ .diverge ∧ ∀ a, q ≠ .ok a := by
  have hrun : iter body (fuel + 1) i s = (r >>= fun _ => .diverge, s') := by
    rw [iter, bind_of_not_ok h hstop]
  exact ⟨_, hrun, Res.bind_ne_diverge hstop hends _, Res.bind_ne_ok hstop _⟩

/-- A turn that does not go round again ends the loop. -/
theorem iter_of_not_inl {body : ι → Act ε σ (ι ⊕ α)} {i : ι} {s s' : σ} {r : Res ε (ι ⊕ α)}
    (fuel : ℕ) (h : body i s = (r, s')) (hstop : ∀ j, r ≠ .ok (.inl j)) (hends : r ≠ .diverge) :
    ∃ q : Res ε α, iter body (fuel + 1) i s = (q, s') ∧ q ≠ .diverge := by
  obtain ⟨o, rfl⟩ | hr := r.ok_or_ne
  · cases o with
    | inl j => exact absurd rfl (hstop j)
    | inr a => exact ⟨.ok a, iter_of_inr fuel h, nofun⟩
  · obtain ⟨q, hq, hqends, -⟩ := iter_of_stop fuel h hr hends
    exact ⟨q, hq, hqends⟩

/-- The value a loop is left with is the value of its last turn. -/
theorem iter_result {body : ι → Act ε σ (ι ⊕ α)} {P : α → Prop}
    (hbody : ∀ i s a t, body i s = (.ok (.inr a), t) → P a) {fuel : ℕ} {i : ι} {s t : σ} {a : α}
    (h : iter body fuel i s = (.ok a, t)) : P a := by
  induction fuel generalizing i s with
  | zero => cases h
  | succ fuel ih =>
    obtain ⟨o, u, hturn, hrest⟩ := bind_eq_ok h
    cases o with
    | inl j => exact ih hrest
    | inr b =>
      cases hrest
      exact hbody i s a t hturn

/-! ### What a call leaves alone

`Keeps p x` says that `x` leaves the part `p` of the state as it was, in every outcome,
`Moves R x` that the state after it is related to the one before, and `Avoids e x` that `x`
never returns the error code `e`. All of them follow the structure of the call. -/

/-- The call leaves a part of the state as it was. -/
def Keeps (p : σ → τ) (x : Act ε σ α) : Prop := ∀ s, p (x s).2 = p s

/-- The call never returns this error code. -/
def Avoids (e : ε) (x : Act ε σ α) : Prop := ∀ s, (x s).1 ≠ .err e

section Keeps

variable {p : σ → τ}

/-- A call that leaves a part alone leaves what is computed from it alone. -/
theorem Keeps.comp {τ' : Type} {x : Act ε σ α} (hx : Keeps p x) (f : τ → τ') :
    Keeps (fun s => f (p s)) x := fun s => congrArg f (hx s)

/-- What a call leaves alone, read off one of its runs. -/
theorem Keeps.run {x : Act ε σ α} (hx : Keeps p x) {s t : σ} {r : Res ε α} (h : x s = (r, t)) :
    p t = p s := by
  have ht := hx s
  rwa [h] at ht

theorem Keeps.pure (a : α) : Keeps p (Pure.pure a : Act ε σ α) := fun _ => rfl

theorem Keeps.get : Keeps p (get : Act ε σ σ) := fun _ => rfl

theorem Keeps.lift (r : Res ε α) : Keeps p (lift r : Act ε σ α) := fun _ => rfl

theorem Keeps.fail (e : ε) : Keeps p (fail e : Act ε σ α) := fun _ => rfl

theorem Keeps.modify {f : σ → σ} (h : ∀ s, p (f s) = p s) : Keeps p (modify f : Act ε σ Unit) := h

/-- What follows a call does not change the part, so the whole leaves it as the call
does. -/
theorem Keeps.bind_snd {f : α → Act ε σ β} (hf : ∀ a, Keeps p (f a)) (x : Act ε σ α) (s : σ) :
    p ((x >>= f) s).2 = p (x s).2 := by
  rcases hrun : x s with ⟨r, t⟩
  obtain ⟨a, rfl⟩ | hr := r.ok_or_ne
  · rw [bind_of_ok hrun, hf a t]
  · rw [bind_of_not_ok hrun hr]

theorem Keeps.bind {x : Act ε σ α} {f : α → Act ε σ β} (hx : Keeps p x)
    (hf : ∀ a, Keeps p (f a)) : Keeps p (x >>= f) := by
  intro s
  rw [Keeps.bind_snd hf x s, hx s]

theorem attempt_snd (x : Act ε σ α) (s : σ) : (attempt x s).2 = (x s).2 := by
  unfold attempt
  rcases x s with ⟨r, t⟩
  cases r <;> rfl

theorem Keeps.attempt {x : Act ε σ α} (hx : Keeps p x) : Keeps p (attempt x) := by
  intro s
  rw [attempt_snd, hx s]

end Keeps

/-- In every outcome, the state after the call is related to the state before it. -/
def Moves (R : σ → σ → Prop) (x : Act ε σ α) : Prop := ∀ s, R s (x s).2

section Moves

variable {R : σ → σ → Prop} [IsPreorder σ R]

theorem Moves.pure (a : α) : Moves R (Pure.pure a : Act ε σ α) := fun s => refl_of R s

theorem Moves.get : Moves R (get : Act ε σ σ) := fun s => refl_of R s

theorem Moves.lift (r : Res ε α) : Moves R (lift r : Act ε σ α) := fun s => refl_of R s

theorem Moves.fail (e : ε) : Moves R (fail e : Act ε σ α) := fun s => refl_of R s

theorem Moves.bind {x : Act ε σ α} {f : α → Act ε σ β} (hx : Moves R x)
    (hf : ∀ a, Moves R (f a)) : Moves R (x >>= f) := by
  intro s
  rcases hrun : x s with ⟨r, t⟩
  have ht : R s t := by
    have := hx s
    rwa [hrun] at this
  obtain ⟨a, rfl⟩ | hr := r.ok_or_ne
  · rw [bind_of_ok hrun]
    exact trans_of R ht (hf a t)
  · rwa [bind_of_not_ok hrun hr]

omit [IsPreorder σ R] in
theorem Moves.attempt {x : Act ε σ α} (hx : Moves R x) : Moves R (attempt x) := by
  intro s
  rw [attempt_snd]
  exact hx s

omit [IsPreorder σ R] in
/-- A call that leaves the part alone which the relation looks at. -/
theorem Keeps.moves {p : σ → τ} {x : Act ε σ α} (hx : Keeps p x)
    (h : ∀ s t, p t = p s → R s t) : Moves R x := fun s => h s _ (hx s)

end Moves

instance (Inv : σ → Prop) : IsPreorder σ fun s t => Inv s → Inv t where
  refl _ := id
  trans _ _ _ h h' := h' ∘ h

/-- The call keeps an invariant, in every outcome. -/
abbrev Preserves (Inv : σ → Prop) (x : Act ε σ α) : Prop := Moves (fun s t => Inv s → Inv t) x

/-- An invariant that only looks at a part of the state which the call leaves alone. -/
theorem Keeps.preserves {p : σ → τ} {x : Act ε σ α} (hx : Keeps p x) {Inv : σ → Prop}
    (h : ∀ s t, p t = p s → Inv s → Inv t) : Preserves Inv x := hx.moves h

section Avoids

variable {e : ε}

theorem Avoids.pure (a : α) : Avoids e (Pure.pure a : Act ε σ α) := fun _ h => nomatch h

theorem Avoids.get : Avoids e (get : Act ε σ σ) := fun _ h => nomatch h

theorem Avoids.modify (f : σ → σ) : Avoids e (modify f : Act ε σ Unit) := fun _ h => nomatch h

theorem Avoids.lift {r : Res ε α} (h : r ≠ .err e) : Avoids e (lift r : Act ε σ α) := fun _ => h

theorem Avoids.fail {e' : ε} (h : e' ≠ e) : Avoids e (fail e' : Act ε σ α) :=
  fun _ he => h (Res.err.inj he)

theorem Avoids.zoom {part : σ → τ} {put : τ → σ → σ} {x : Act ε τ α} (hx : Avoids e x) :
    Avoids e (zoom part put x) := fun s => hx (part s)

theorem Avoids.bind {x : Act ε σ α} {f : α → Act ε σ β} (hx : Avoids e x)
    (hf : ∀ a, Avoids e (f a)) : Avoids e (x >>= f) := by
  intro s
  have hxs := hx s
  rcases hrun : x s with ⟨r, t⟩
  rw [hrun] at hxs
  obtain ⟨a, rfl⟩ | hr := r.ok_or_ne
  · rw [bind_of_ok hrun]
    exact hf a t
  · rw [bind_of_not_ok hrun hr]
    exact fun h => hxs ((Res.bind_eq_err_iff hr _ e).1 h)

theorem Avoids.iter {body : ι → Act ε σ (ι ⊕ α)} (hbody : ∀ i, Avoids e (body i)) :
    ∀ (fuel : ℕ) (i : ι), Avoids e (iter body fuel i)
  | 0, _ => Avoids.lift nofun
  | fuel + 1, i => by
    refine Avoids.bind (hbody i) (fun r => ?_)
    cases r with
    | inl j => exact Avoids.iter hbody fuel j
    | inr a => exact Avoids.pure a

theorem Avoids.loop {cond : σ → Bool} {body : Act ε σ Unit} (hbody : Avoids e body) :
    ∀ fuel : ℕ, Avoids e (loop cond body fuel)
  | 0 => Avoids.lift nofun
  | fuel + 1 => by
    intro s
    cases hc : cond s with
    | false => rw [loop_succ_of_not fuel hc]; exact nofun
    | true =>
      rw [loop_succ_of fuel hc]
      exact Avoids.bind hbody (fun _ => Avoids.loop hbody fuel) s

end Avoids

/-- The call ends: no loop in it reaches its bound. -/
def Ends (x : Act ε σ α) : Prop := ∀ s, (x s).1 ≠ .diverge

section Ends

theorem Ends.pure (a : α) : Ends (Pure.pure a : Act ε σ α) := fun _ => nofun

theorem Ends.get : Ends (get : Act ε σ σ) := fun _ => nofun

theorem Ends.modify (f : σ → σ) : Ends (modify f : Act ε σ Unit) := fun _ => nofun

theorem Ends.lift {r : Res ε α} (h : r ≠ .diverge) : Ends (lift r : Act ε σ α) := fun _ => h

theorem Ends.fail (e : ε) : Ends (fail e : Act ε σ α) := fun _ => nofun

theorem Ends.zoom {part : σ → τ} {put : τ → σ → σ} {x : Act ε τ α} (hx : Ends x) :
    Ends (zoom part put x) := fun s => hx (part s)

theorem Ends.bind {x : Act ε σ α} {f : α → Act ε σ β} (hx : Ends x) (hf : ∀ a, Ends (f a)) :
    Ends (x >>= f) := by
  intro s
  have hends := hx s
  rcases hrun : x s with ⟨r, t⟩
  rw [hrun] at hends
  obtain ⟨a, rfl⟩ | hr := r.ok_or_ne
  · rw [bind_of_ok hrun]
    exact hf a t
  · rw [bind_of_not_ok hrun hr]
    exact Res.bind_ne_diverge hr hends _

end Ends

/-- From this state the call ends, in a state related to it. -/
structure EndsIn (R : σ → σ → Prop) (x : Act ε σ α) (s : σ) : Prop where
  ends : (x s).1 ≠ .diverge
  rel : R s (x s).2

section EndsIn

variable {R : σ → σ → Prop} {s : σ}

/-- What is known of the call in every state. -/
theorem Ends.endsIn {x : Act ε σ α} (hends : Ends x) (hmoves : Moves R x) : EndsIn R x s :=
  ⟨hends s, hmoves s⟩

theorem EndsIn.modify {f : σ → σ} (h : R s (f s)) : EndsIn R (modify f : Act ε σ Unit) s :=
  ⟨nofun, h⟩

variable [IsPreorder σ R]

theorem EndsIn.pure (a : α) : EndsIn R (Pure.pure a : Act ε σ α) s := ⟨nofun, refl_of R s⟩

theorem EndsIn.fail (e : ε) : EndsIn R (fail e : Act ε σ α) s := ⟨nofun, refl_of R s⟩

theorem EndsIn.lift {r : Res ε α} (h : r ≠ .diverge) : EndsIn R (lift r : Act ε σ α) s :=
  ⟨h, refl_of R s⟩

theorem EndsIn.bind {x : Act ε σ α} {f : α → Act ε σ β} (hx : EndsIn R x s)
    (hf : ∀ a t, x s = (.ok a, t) → EndsIn R (f a) t) : EndsIn R (x >>= f) s := by
  obtain ⟨hends, hrel⟩ := hx
  rcases hrun : x s with ⟨r, t⟩
  rw [hrun] at hends hrel
  obtain ⟨a, rfl⟩ | hr := r.ok_or_ne
  · obtain ⟨hends', hrel'⟩ := hf a t hrun
    have hrest := bind_of_ok (f := f) hrun
    exact ⟨by rwa [hrest], by rw [hrest]; exact trans_of R hrel hrel'⟩
  · have hstop := bind_of_not_ok hrun hr f
    exact ⟨by rw [hstop]; exact Res.bind_ne_diverge hr hends _, by rwa [hstop]⟩

end EndsIn

/-! ### What a call does not look at -/

/-- Two runs end alike, up to the part of the state that `put` writes. -/
def Alike (put : τ → σ → σ) (p q : Res ε α × σ) : Prop := q.1 = p.1 ∧ ∃ g, q.2 = put g p.2

/-- The call does not look at the part of the state that `put` writes: with another value there,
it ends alike. -/
def Ignores (put : τ → σ → σ) (x : Act ε σ α) : Prop := ∀ s g, Alike put (x s) (x (put g s))

section Ignores

variable {put : τ → σ → σ}

/-- **Lockstep**: two calls that end alike, and go on alike when they succeed. -/
theorem Alike.bind {x y : Act ε σ α} {f k : α → Act ε σ β} {s s' : σ} (h : Alike put (x s) (y s'))
    (hf : ∀ a t g, x s = (.ok a, t) → Alike put (f a t) (k a (put g t))) :
    Alike put ((x >>= f) s) ((y >>= k) s') := by
  obtain ⟨hout, g, hstate⟩ := h
  rcases hx : x s with ⟨r, t⟩
  rw [hx] at hout hstate
  have hy : y s' = (r, put g t) := Prod.ext hout hstate
  obtain ⟨a, rfl⟩ | hr := r.ok_or_ne
  · rw [bind_of_ok hx, bind_of_ok hy]
    exact hf a t g hx
  · rw [bind_of_not_ok hx hr, bind_of_not_ok hy hr]
    exact ⟨rfl, g, rfl⟩

theorem Ignores.pure (a : α) : Ignores put (Pure.pure a : Act ε σ α) := fun _ g => ⟨rfl, g, rfl⟩

theorem Ignores.lift (r : Res ε α) : Ignores put (lift r : Act ε σ α) := fun _ g => ⟨rfl, g, rfl⟩

theorem Ignores.fail (e : ε) : Ignores put (fail e : Act ε σ α) := fun _ g => ⟨rfl, g, rfl⟩

theorem Ignores.modify {f : σ → σ} (h : ∀ s g, ∃ g', f (put g s) = put g' (f s)) :
    Ignores put (modify f : Act ε σ Unit) := fun s g => ⟨rfl, h s g⟩

theorem Ignores.bind {x : Act ε σ α} {f : α → Act ε σ β} (hx : Ignores put x)
    (hf : ∀ a, Ignores put (f a)) : Ignores put (x >>= f) := fun s g =>
  (hx s g).bind fun a t g' _ => hf a t g'

/-- A call that reads the state, but not that part of it. -/
theorem Ignores.get_bind {f : σ → Act ε σ β} (hf : ∀ s g, f (put g s) = f s)
    (hrest : ∀ s, Ignores put (f s)) : Ignores put (get >>= f) := by
  intro s g
  rw [Act.get_bind, Act.get_bind, hf]
  exact hrest s s g

theorem Ignores.attempt {x : Act ε σ α} (hx : Ignores put x) : Ignores put (attempt x) := by
  intro s g
  obtain ⟨hout, hstate⟩ := hx s g
  constructor
  · unfold Act.attempt
    rcases hrun : x s with ⟨r, t⟩
    rw [hrun] at hout
    rw [run_of_outcome hout]
    cases r <;> rfl
  · rw [attempt_snd, attempt_snd]
    exact hstate

/-- A call on a part of the state, seen through `put'` there. -/
theorem Ignores.zoom {τ' υ : Type} {part : σ → υ} {back : υ → σ → σ} {put' : τ' → υ → υ}
    {x : Act ε υ α} (hx : Ignores put' x) (hpart : ∀ s g, ∃ g', part (put g s) = put' g' (part s))
    (hback : ∀ s g t g', ∃ g'', back (put' g' t) (put g s) = put g'' (back t s)) :
    Ignores put (zoom part back x) := by
  intro s g
  obtain ⟨g', hg'⟩ := hpart s g
  obtain ⟨hout, g'', hstate⟩ := hx (part s) g'
  rw [zoom_apply, zoom_apply, hg', hstate]
  exact ⟨hout, hback s g _ g''⟩

theorem Ignores.loop {cond : σ → Bool} {body : Act ε σ Unit} (hbody : Ignores put body)
    (hcond : ∀ s g, cond (put g s) = cond s) (fuel : ℕ) : Ignores put (loop cond body fuel) := by
  induction fuel with
  | zero => exact Ignores.lift _
  | succ fuel ih =>
    intro s g
    cases hc : cond s with
    | false =>
      rw [loop_succ_of_not fuel hc, loop_succ_of_not fuel ((hcond s g).trans hc)]
      exact ⟨rfl, g, rfl⟩
    | true =>
      rw [loop_succ_of fuel hc, loop_succ_of fuel ((hcond s g).trans hc)]
      exact Ignores.bind hbody (fun _ => ih) s g

end Ignores

/-- Two runs with the same outcome, that end in related states. -/
def Together (R : σ → σ → Prop) (p q : Res ε α × σ) : Prop := q.1 = p.1 ∧ R p.2 q.2

section Together

variable {R : σ → σ → Prop}

theorem Together.pure {s s' : σ} (h : R s s') (a : α) :
    Together R ((Pure.pure a : Act ε σ α) s) ((Pure.pure a : Act ε σ α) s') := ⟨rfl, h⟩

/-- **Lockstep**, for states that are related. -/
theorem Together.bind {x y : Act ε σ α} {f k : α → Act ε σ β} {s s' : σ}
    (h : Together R (x s) (y s'))
    (hf : ∀ a t t', x s = (.ok a, t) → y s' = (.ok a, t') → R t t' → Together R (f a t) (k a t')) :
    Together R ((x >>= f) s) ((y >>= k) s') := by
  obtain ⟨hout, hstate⟩ := h
  rcases hx : x s with ⟨r, t⟩
  rcases hy : y s' with ⟨r', t'⟩
  rw [hx, hy] at hout hstate
  cases (show r' = r from hout)
  obtain ⟨a, rfl⟩ | hr := r.ok_or_ne
  · rw [bind_of_ok hx, bind_of_ok hy]
    exact hf a t t' hx hy hstate
  · rw [bind_of_not_ok hx hr, bind_of_not_ok hy hr]
    exact ⟨rfl, hstate⟩

end Together

end Act

end CProg
