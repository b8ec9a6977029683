import LibunwindKern.Lib.Res

/-!
# Programs made of commands

An `Act` maps a state to an outcome and a state, and does not say what was done in between. To
speak of the accesses a function makes on the way, the function is written a second time as a
`Prog` over a signature of commands, in which every access is a command of its own:

* `Prog.run` executes a program, given what each command does. That it is the function which was
  modelled as an `Act` is then an equation.
* `Prog.calls` lists the commands that are executed, each with the state it is executed in. The
  list ends with the command that fails.
* `Prog.all_call` and `Prog.all_bind` are the rules for a property of all these calls.

A caller that looks at the error code of a function gets the code as a value (`Act.attempt`).
`Prog.Reports` says that a program does what a function does and returns the error code too.

`Act.iterStates` lists the states in which the turns of a loop start, and `Act.iterStates_inv` is
the invariant rule for them.
-/

namespace CProg

/-- A program over a signature of commands. `C β` are the commands that return a `β`. -/
inductive Prog (C : Type → Type) (α : Type) : Type 1 where
  | ret (a : α)
  | call {β : Type} (c : C β) (next : β → Prog C α)

/-- A command with the state in which it is executed. -/
structure Call (C : Type → Type) (σ : Type) : Type 1 where
  {β : Type}
  cmd : C β
  state : σ

/-- What comes after a call, which is nothing unless the call succeeds. -/
def Res.after {ε α σ : Type} {γ : Type*} (q : Res ε α × σ) (f : α → σ → List γ) : List γ :=
  match q with
  | (.ok a, t) => f a t
  | _ => []

theorem Res.mem_after {ε α σ : Type} {γ : Type*} {q : Res ε α × σ} {f : α → σ → List γ} {x : γ} :
    x ∈ Res.after q f ↔ ∃ a t, q = (.ok a, t) ∧ x ∈ f a t := by
  constructor
  · intro hx
    rcases q with ⟨r, t⟩
    cases r with
    | ok a => exact ⟨a, t, rfl, hx⟩
    | _ => cases hx
  · rintro ⟨a, t, rfl, hx⟩
    exact hx

theorem Res.forall_mem_after {ε α σ : Type} {γ : Type*} {P : γ → Prop} {q : Res ε α × σ}
    {f : α → σ → List γ} :
    (∀ x ∈ Res.after q f, P x) ↔ ∀ a t, q = (.ok a, t) → ∀ x ∈ f a t, P x := by
  constructor
  · intro h a t hq x hx
    exact h x (Res.mem_after.2 ⟨a, t, hq, hx⟩)
  · intro h x hx
    obtain ⟨a, t, hq, hx⟩ := Res.mem_after.1 hx
    exact h a t hq x hx

namespace Prog

variable {C : Type → Type} {ε σ α β γ : Type}

/-- Sequencing. -/
def bind : Prog C α → (α → Prog C β) → Prog C β
  | ret a, f => f a
  | call c next, f => call c fun b => (next b).bind f

instance : Monad (Prog C) where
  pure := ret
  bind := bind

/-- The program that consists of one command. -/
def cmd (c : C α) : Prog C α := call c ret

/-- Execute a program. -/
def run (exec : {β : Type} → C β → Act ε σ β) : Prog C α → Act ε σ α
  | ret a => pure a
  | call c next => exec c >>= fun b => (next b).run exec

/-- The commands that are executed, in order. -/
def calls (exec : {β : Type} → C β → Act ε σ β) : Prog C α → σ → List (Call C σ)
  | ret _, _ => []
  | call c next, s => ⟨c, s⟩ :: Res.after (exec c s) fun b t => (next b).calls exec t

variable {exec : {β : Type} → C β → Act ε σ β}

@[simp] theorem run_pure (a : α) (s : σ) :
    (pure a : Prog C α).run exec s = (.ok a, s) := rfl

@[simp] theorem run_call (c : C α) (f : α → Prog C β) :
    (cmd c >>= f).run exec = (exec c >>= fun a => (f a).run exec) := rfl

/-- Sequencing of programs is sequencing of their runs. -/
theorem run_bind (p : Prog C α) (f : α → Prog C β) (s : σ) :
    (p >>= f).run exec s = (p.run exec >>= fun a => (f a).run exec) s := by
  induction p generalizing s with
  | ret a => rfl
  | call c next ih =>
    show (exec c >>= fun b => ((next b) >>= f).run exec) s =
      ((exec c >>= fun b => (next b).run exec) >>= fun a => (f a).run exec) s
    rw [Act.bind_assoc]
    rcases h : exec c s with ⟨r, t⟩
    obtain ⟨b, rfl⟩ | hr := r.ok_or_ne
    · rw [Act.bind_of_ok h, Act.bind_of_ok h]
      exact ih b t
    · rw [Act.bind_of_not_ok h hr, Act.bind_of_not_ok h hr]

/-- A command alone. -/
@[simp] theorem run_single (c : C α) : (cmd c).run exec = exec c := by
  funext s
  show (exec c >>= fun b => (pure b : Act ε σ α)) s = exec c s
  rcases h : exec c s with ⟨r, t⟩
  obtain ⟨b, rfl⟩ | hr := r.ok_or_ne
  · rw [Act.bind_of_ok h, Act.pure_apply]
  · rw [Act.bind_of_not_ok h hr, Res.bind_eq_self hr]

/-- All calls of a program have a property. -/
def All (exec : {β : Type} → C β → Act ε σ β) (Good : Call C σ → Prop) (p : Prog C α) (s : σ) :
    Prop :=
  ∀ x ∈ p.calls exec s, Good x

variable {Good : Call C σ → Prop} {s : σ}

@[simp] theorem all_pure (a : α) : All exec Good (pure a : Prog C α) s := by
  intro x hx
  cases hx

/-- **The rule for a command.** -/
theorem all_call {c : C β} {f : β → Prog C α} :
    All exec Good (cmd c >>= f) s ↔
      Good ⟨c, s⟩ ∧ ∀ b t, exec c s = (.ok b, t) → All exec Good (f b) t := by
  have hcalls : (cmd c >>= f).calls exec s =
      ⟨c, s⟩ :: Res.after (exec c s) fun b t => (f b).calls exec t := rfl
  unfold All
  rw [hcalls, List.forall_mem_cons, Res.forall_mem_after]

theorem all_cmd {c : C α} : All exec Good (cmd c) s ↔ Good ⟨c, s⟩ := by
  have h : All exec Good (cmd c) s ↔
      Good ⟨c, s⟩ ∧ ∀ b t, exec c s = (.ok b, t) → All exec Good (ret b) t := all_call
  refine h.trans ⟨fun hall => hall.1, fun hgood => ⟨hgood, fun b t _ => ?_⟩⟩
  exact all_pure b

/-- **The rule for a sequence of programs.** -/
theorem all_bind {p : Prog C β} {f : β → Prog C α} :
    All exec Good (p >>= f) s ↔
      All exec Good p s ∧ ∀ b t, p.run exec s = (.ok b, t) → All exec Good (f b) t := by
  induction p generalizing s with
  | ret a =>
    constructor
    · intro h
      refine ⟨all_pure a, fun b t heq => ?_⟩
      cases heq
      exact h
    · intro h
      exact h.2 a s rfl
  | call c next ih =>
    have hleft : All exec Good (call c next >>= f) s ↔
        Good ⟨c, s⟩ ∧ ∀ b t, exec c s = (.ok b, t) → All exec Good (next b >>= f) t := all_call
    have hright : All exec Good (call c next) s ↔
        Good ⟨c, s⟩ ∧ ∀ b t, exec c s = (.ok b, t) → All exec Good (next b) t := all_call
    refine hleft.trans ?_
    rw [hright, and_assoc]
    apply and_congr_right
    intro _
    constructor
    · intro h
      refine ⟨fun b t hb => (ih b).1 (h b t hb) |>.1, fun a u hrun => ?_⟩
      obtain ⟨b, t, hb, hrest⟩ := Act.bind_eq_ok hrun
      exact ((ih b).1 (h b t hb)).2 a u hrest
    · rintro ⟨hnext, hf⟩ b t hb
      refine (ih b).2 ⟨hnext b t hb, fun a u hrun => hf a u ?_⟩
      show (exec c >>= fun b => (next b).run exec) s = _
      rw [Act.bind_of_ok hb, hrun]

/-- **A program goes where its calls go.** -/
theorem run_endsIn {R : σ → σ → Prop} [IsPreorder σ R] {p : Prog C α}
    (h : All exec (fun x => (exec x.cmd).EndsIn R x.state) p s) : (p.run exec).EndsIn R s := by
  induction p generalizing s with
  | ret a => exact Act.EndsIn.pure a
  | call c next ih =>
    obtain ⟨hc, hnext⟩ := all_call.1 h
    exact hc.bind fun b t hrun => ih b (hnext b t hrun)

/-- Every command that the program has, in any branch, has a property. -/
def Every (P : {β : Type} → C β → Prop) : Prog C α → Prop
  | ret _ => True
  | call c next => P c ∧ ∀ b, (next b).Every P

section Every

variable {P : {β : Type} → C β → Prop}

@[simp] theorem every_pure (a : α) : (pure a : Prog C α).Every P := trivial

@[simp] theorem every_cmd (c : C α) : (cmd c).Every P ↔ P c :=
  ⟨fun h => h.1, fun h => ⟨h, fun _ => trivial⟩⟩

@[simp] theorem every_call (c : C β) (f : β → Prog C α) :
    (cmd c >>= f).Every P ↔ P c ∧ ∀ b, (f b).Every P := Iff.rfl

theorem Every.bind {p : Prog C β} {f : β → Prog C α} (hp : p.Every P)
    (hf : ∀ b, (f b).Every P) : (p >>= f).Every P := by
  induction p with
  | ret b => exact hf b
  | call c next ih => exact ⟨hp.1, fun b => ih b (hp.2 b)⟩

/-- **Invariant rule.** Commands that keep an invariant have a property wherever it holds. The
commands that are executed are among those that the program has. -/
theorem Every.all_of_inv {p : Prog C α} (h : p.Every P) (Inv : σ → Prop)
    (hgood : ∀ {β : Type} (c : C β) (s : σ), P c → Inv s → Good ⟨c, s⟩)
    (hkeep : ∀ {β : Type} (c : C β), P c → Act.Preserves Inv (exec c)) (hs : Inv s) :
    p.All exec Good s := by
  induction p generalizing s with
  | ret a => exact all_pure a
  | call c next ih =>
    refine all_call.2 ⟨hgood c s h.1 hs, fun b t hrun => ih b (h.2 b) ?_⟩
    have hnext := hkeep c h.1 s hs
    rwa [hrun] at hnext

/-- **A property of actions** that is kept by doing one after the other holds of a program if it
holds of the commands that the program has. -/
theorem Every.run_of {p : Prog C α} (h : p.Every P) (Q : ∀ {β : Type}, Act ε σ β → Prop)
    (hpure : ∀ {β : Type} (b : β), Q (Pure.pure b : Act ε σ β))
    (hbind : ∀ {β γ : Type} {x : Act ε σ β} {f : β → Act ε σ γ}, Q x → (∀ b, Q (f b)) →
      Q (x >>= f))
    (hcmd : ∀ {β : Type} (c : C β), P c → Q (exec c)) : Q (p.run exec) := by
  induction p with
  | ret a => exact hpure a
  | call c next ih => exact hbind (hcmd c h.1) fun b => ih b (h.2 b)

/-- A program keeps what the commands that it has keep. -/
theorem Every.run_preserves {p : Prog C α} (h : p.Every P) {Inv : σ → Prop}
    (hkeep : ∀ {β : Type} (c : C β), P c → Act.Preserves Inv (exec c)) :
    Act.Preserves Inv (p.run exec) :=
  h.run_of (Act.Preserves Inv) Act.Moves.pure Act.Moves.bind hkeep

theorem Every.mono {Q : {β : Type} → C β → Prop} {p : Prog C α} (h : p.Every P)
    (hPQ : ∀ {β : Type} (c : C β), P c → Q c) : p.Every Q := by
  induction p with
  | ret a => trivial
  | call c next ih => exact ⟨hPQ c h.1, fun b => ih b (h.2 b)⟩

theorem Every.all {p : Prog C α} (h : p.Every P)
    (hgood : ∀ {β : Type} (c : C β) (s : σ), P c → Good ⟨c, s⟩) : p.All exec Good s :=
  h.all_of_inv (fun _ => True) (fun c s hc _ => hgood c s hc) (fun _ _ _ _ => trivial) trivial

end Every

/-- A program fails with the command that fails. -/
theorem run_eq_err_of_mem {p : Prog C α} {x : Call C σ} {e : ε} (hx : x ∈ p.calls exec s)
    (he : (exec x.cmd x.state).1 = .err e) : (p.run exec s).1 = .err e := by
  induction p generalizing s with
  | ret a => cases hx
  | call c next ih =>
    show ((exec c >>= fun b => (next b).run exec) s).1 = .err e
    rcases h : exec c s with ⟨r, t⟩
    rw [calls, h] at hx
    rcases List.mem_cons.1 hx with rfl | hx
    · rw [h] at he
      cases he
      rw [Act.bind_of_err h]
    · cases r with
      | ok b =>
        rw [Act.bind_of_ok h]
        exact ih b hx
      | _ => cases hx

end Prog

/-! ### Errors as values -/

theorem Res.ok_ne_err {ε α : Type} (a : α) (e : ε) : Res.ok a ≠ Res.err e := by simp

namespace Act

variable {ε σ α β : Type}

/-- An error of the first call is the error of both. -/
theorem attempt_bind (x : Act ε σ β) (f : β → Act ε σ α) :
    attempt (x >>= f) = attempt x >>= fun r =>
      match r with
      | .ok b => attempt (f b)
      | .error e => pure (.error e) := by
  funext s
  rcases h : x s with ⟨r, t⟩
  obtain ⟨b, rfl⟩ | ⟨e, rfl⟩ | hr := r.ok_or_err_or_stuck
  · rw [bind_of_ok (attempt_of_ok h)]
    exact attempt_congr (bind_of_ok h)
  · rw [bind_of_ok (attempt_of_err h), attempt_of_err (bind_of_err h)]
    rfl
  · have hx := bind_of_not_ok h hr.1 f
    rw [attempt_of_stuck hx (hr.bind _), attempt_bind_of_stuck h hr, Res.bind_bind_of_not_ok hr.1]

theorem attempt_ne_err {x : Act ε σ α} {s : σ} {e : ε} : (attempt x s).1 ≠ .err e := by
  unfold attempt
  cases x s with
  | mk r t => cases r <;> simp

end Act

namespace Prog

variable {C : Type → Type} {ε σ α β : Type} {exec : {β : Type} → C β → Act ε σ β}

/-- Go on with the value, unless there is an error. -/
def andThen (p : Prog C (Except ε β)) (f : β → Prog C (Except ε α)) : Prog C (Except ε α) :=
  p >>= fun r =>
    match r with
    | .ok b => f b
    | .error e => pure (.error e)

theorem Every.andThen {P : {β : Type} → C β → Prop} {p : Prog C (Except ε β)}
    {f : β → Prog C (Except ε α)} (hp : p.Every P) (hf : ∀ b, (f b).Every P) :
    (p.andThen f).Every P := by
  refine Every.bind hp fun r => ?_
  cases r with
  | ok b => exact hf b
  | error e => exact every_pure _

/-- The program does what the function does, and returns its error code. -/
def Reports (exec : {β : Type} → C β → Act ε σ β) (p : Prog C (Except ε α)) (x : Act ε σ α) :
    Prop :=
  p.run exec = Act.attempt x

section Reports

variable {p : Prog C (Except ε β)} {x : Act ε σ β} {g : β → Act ε σ α}

theorem Reports.pure (a : α) : Reports exec (pure (.ok a)) (pure a) := rfl

theorem Reports.fail (e : ε) : Reports exec (Pure.pure (.error e)) (Act.fail e : Act ε σ α) := rfl

/-- An error ends the function, and the program. -/
theorem Reports.andThen {f : β → Prog C (Except ε α)} (hp : Reports exec p x)
    (hf : ∀ b, Reports exec (f b) (g b)) : Reports exec (p.andThen f) (x >>= g) := by
  unfold Reports Prog.andThen
  funext s
  rw [run_bind, hp, Act.attempt_bind]
  refine congrFun (congrArg (Act.attempt x >>= ·) (funext fun r => ?_)) s
  cases r with
  | ok b => exact hf b
  | error e => rfl

/-- A call that has no error of its own. -/
theorem Reports.bind {γ : Type} {q : Prog C γ} {y : Act ε σ γ} {f : γ → Prog C (Except ε α)}
    {g : γ → Act ε σ α} (hq : q.run exec = y) (hy : ∀ s e, (y s).1 ≠ .err e)
    (hf : ∀ c, Reports exec (f c) (g c)) : Reports exec (q >>= f) (y >>= g) := by
  unfold Reports
  funext s
  rw [run_bind, hq, Act.attempt_bind]
  rcases h : y s with ⟨r, t⟩
  obtain ⟨c, rfl⟩ | ⟨e, rfl⟩ | hr := r.ok_or_err_or_stuck
  · rw [Act.bind_of_ok h, Act.bind_of_ok (Act.attempt_of_ok h)]
    exact congrFun (hf c) t
  · exact absurd (congrArg Prod.fst h) (hy s e)
  · rw [Act.attempt_bind_of_stuck h hr, Act.bind_of_not_ok h hr.1]

/-- A function that looks at the error code itself. -/
theorem Reports.attempt {f : Except ε β → Prog C (Except ε α)} {g : Except ε β → Act ε σ α}
    (hp : Reports exec p x) (hf : ∀ r, Reports exec (f r) (g r)) :
    Reports exec (p >>= f) (Act.attempt x >>= g) :=
  Reports.bind hp (fun _ _ => Act.attempt_ne_err) hf

/-- A program returns the value that its function returns. -/
theorem Reports.run_eq_ok (hp : Reports exec p x) {s t : σ} {b : β} :
    p.run exec s = (.ok (.ok b), t) ↔ x s = (.ok b, t) := by
  rw [hp]
  constructor
  · intro h
    obtain ⟨a, ha, hx⟩ | ⟨e, he, hx⟩ := Act.attempt_eq_ok h
    · cases ha
      exact hx
    · cases he
  · exact Act.attempt_of_ok

/-- **The rule for a sequence of functions.** -/
theorem Reports.all_andThen {Good : Call C σ → Prop} {f : β → Prog C (Except ε α)} {s : σ}
    (hp : Reports exec p x) :
    All exec Good (p.andThen f) s ↔
      All exec Good p s ∧ ∀ b t, x s = (.ok b, t) → All exec Good (f b) t := by
  unfold Prog.andThen
  rw [all_bind]
  apply and_congr_right
  intro _
  constructor
  · intro h b t hx
    exact h (.ok b) t (hp.run_eq_ok.2 hx)
  · intro h r t hrun
    cases r with
    | ok b => exact h b t (hp.run_eq_ok.1 hrun)
    | error e => exact all_pure _

end Reports

end Prog

namespace Act

variable {ε σ ι α : Type}

/-- The states in which the turns of a loop start, in order. -/
def iterStates (body : ι → Act ε σ (ι ⊕ α)) : ℕ → ι → σ → List σ
  | 0, _, _ => []
  | fuel + 1, i, s =>
    s ::
      match body i s with
      | (.ok (.inl j), t) => iterStates body fuel j t
      | _ => []

/-- **Invariant rule for the turns.** -/
theorem iterStates_inv {body : ι → Act ε σ (ι ⊕ α)} (Inv : σ → Prop)
    (hturn : ∀ i, Preserves Inv (body i)) {fuel : ℕ} {i : ι} {s : σ} (h : Inv s) :
    ∀ t ∈ iterStates body fuel i s, Inv t := by
  induction fuel generalizing i s with
  | zero => intro t ht; cases ht
  | succ fuel ih =>
    rw [iterStates, List.forall_mem_cons]
    refine ⟨h, ?_⟩
    rcases hrun : body i s with ⟨r, t⟩
    cases r with
    | ok o =>
      cases o with
      | inl j =>
        have hnext := hturn i s h
        rw [hrun] at hnext
        exact ih hnext
      | inr a => simp
    | _ => simp

/-- A loop fails with the turn that fails. -/
theorem iter_eq_err_of_mem {body : ι → Act ε σ (ι ⊕ α)} {fuel : ℕ} {i : ι} {s t : σ} {e : ε}
    (ht : t ∈ iterStates body fuel i s) (he : ∀ j, (body j t).1 = .err e) :
    (iter body fuel i s).1 = .err e := by
  induction fuel generalizing i s with
  | zero => cases ht
  | succ fuel ih =>
    rcases hrun : body i s with ⟨r, u⟩
    rw [iterStates, hrun] at ht
    rcases List.mem_cons.1 ht with rfl | ht
    · have hi := he i
      rw [hrun] at hi
      cases hi
      rw [iter, bind_of_err hrun]
    · cases r with
      | ok o =>
        cases o with
        | inl j =>
          rw [iter_of_inl fuel hrun]
          exact ih ht
        | inr a => cases ht
      | _ => cases ht

end Act

end CProg
