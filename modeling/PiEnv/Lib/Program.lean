import Mathlib.Data.List.Forall2
import Mathlib.Logic.Relation
import Mathlib.Logic.Function.Basic

/-!
# Programs over atomic operations, and their interleavings

A program is a tree of operations; each node waits for the response to its
operation. A machine says which responses an operation may have in a shared
state, per thread, and what the environment may do on its own. Threads take
turns, one operation at a time.

`Safe` is the rely-guarantee judgement: whatever the others do within the
rely, every step of the program stays within the guarantee and the result
satisfies the post-condition. `Reach.safe` is the induction over a whole run,
proved once.
-/

namespace Effects

open Relation (ReflTransGen)

inductive Prog (Op : Type) (Res : Op → Type) (α : Type) where
  | ret (value : α)
  | op (o : Op) (next : Res o → Prog Op Res α)

section
variable {Op : Type} {Res : Op → Type} {α β γ ε σ ι : Type}

def Prog.bind : Prog Op Res α → (α → Prog Op Res β) → Prog Op Res β
  | .ret a, f => f a
  | .op o k, f => .op o fun r => (k r).bind f

instance : Monad (Prog Op Res) where
  pure := .ret
  bind := Prog.bind

/-- One operation, answered with its response. -/
def call (o : Op) : Prog Op Res (Res o) := .op o .ret

@[simp] theorem pure_eq (a : α) : (pure a : Prog Op Res α) = .ret a := rfl
@[simp] theorem ret_bind (a : α) (f : α → Prog Op Res β) : (Prog.ret a >>= f) = f a := rfl
@[simp] theorem op_bind (o : Op) (k : Res o → Prog Op Res α) (f : α → Prog Op Res β) :
    (Prog.op o k >>= f) = .op o fun r => k r >>= f := rfl
@[simp] theorem call_bind (o : Op) (f : Res o → Prog Op Res β) :
    ((call o : Prog Op Res (Res o)) >>= f) = .op o f := rfl

theorem Prog.bind_ret (x : Prog Op Res α) : x.bind .ret = x := by
  induction x with
  | ret a => rfl
  | op o k ih => exact congrArg (Prog.op o) (funext ih)

theorem Prog.bind_assoc (x : Prog Op Res α) (f : α → Prog Op Res β) (g : β → Prog Op Res γ) :
    (x.bind f).bind g = x.bind fun a => (f a).bind g := by
  induction x with
  | ret a => rfl
  | op o k ih => exact congrArg (Prog.op o) (funext ih)

instance : LawfulMonad (Prog Op Res) :=
  LawfulMonad.mk' _ (fun x => x.bind_ret) (fun _ _ => rfl) (fun x f g => x.bind_assoc f g)

-- -----
-- The judgement
-- -----

/-- Responses an operation may have in a state, with the state it leaves. -/
abbrev Exec (Op : Type) (Res : Op → Type) (σ : Type) := σ → (o : Op) → Res o → σ → Prop

def Safe (exec : Exec Op Res σ) (R G : σ → σ → Prop) :
    Prog Op Res α → (α → σ → Prop) → σ → Prop
  | .ret a, Q, s => ∀ s', ReflTransGen R s s' → Q a s'
  | .op o k, Q, s => ∀ s₁, ReflTransGen R s s₁ → ∀ r s₂, exec s₁ o r s₂ →
      G s₁ s₂ ∧ Safe exec R G (k r) Q s₂

variable {exec : Exec Op Res σ} {R G : σ → σ → Prop}

theorem Safe.rely {p : Prog Op Res α} {Q : α → σ → Prop} {s s' : σ}
    (h : Safe exec R G p Q s) (hr : R s s') : Safe exec R G p Q s' := by
  cases p with
  | ret a => exact fun t ht => h t (.head hr ht)
  | op o k => exact fun t ht => h t (.head hr ht)

/-- A stable assertion is carried across whatever the others do. -/
theorem stable_star {P : σ → Prop} {s s' : σ} (hP : ∀ s s', P s → R s s' → P s')
    (hs : P s) (h : ReflTransGen R s s') : P s' := by
  induction h with
  | refl => exact hs
  | tail _ hr ih => exact hP _ _ ih hr

theorem Safe.ret {Q : α → σ → Prop} {a : α} {s : σ} (P : σ → Prop)
    (stable : ∀ s s', P s → R s s' → P s') (hs : P s) (h : ∀ s, P s → Q a s) :
    Safe exec R G (.ret a : Prog Op Res α) Q s :=
  fun _ ht => h _ (stable_star stable hs ht)

theorem Safe.op {Q : α → σ → Prop} {o : Op} {k : Res o → Prog Op Res α} {s : σ} (P : σ → Prop)
    (stable : ∀ s s', P s → R s s' → P s') (hs : P s)
    (step : ∀ s r s', P s → exec s o r s' → G s s' ∧ Safe exec R G (k r) Q s') :
    Safe exec R G (.op o k) Q s :=
  fun _ ht r s₂ he => step _ r s₂ (stable_star stable hs ht) he

theorem Safe.bind {p : Prog Op Res α} {f : α → Prog Op Res β} {Q : β → σ → Prop} {s : σ}
    (h : Safe exec R G p (fun a s => Safe exec R G (f a) Q s) s) :
    Safe exec R G (p >>= f) Q s := by
  induction p generalizing s with
  | ret a => exact h s .refl
  | op o k ih =>
    intro s₁ h₁ r s₂ he
    obtain ⟨hg, hk⟩ := h s₁ h₁ r s₂ he
    exact ⟨hg, ih r hk⟩

theorem Safe.mono {p : Prog Op Res α} {Q Q' : α → σ → Prop} {s : σ}
    (h : Safe exec R G p Q s) (hQ : ∀ a s, Q a s → Q' a s) : Safe exec R G p Q' s := by
  induction p generalizing s with
  | ret a => exact fun t ht => hQ _ _ (h t ht)
  | op o k ih =>
    intro s₁ h₁ r s₂ he
    obtain ⟨hg, hk⟩ := h s₁ h₁ r s₂ he
    exact ⟨hg, ih r hk⟩

theorem Safe.map {p : Prog Op Res α} {f : α → β} {Q : β → σ → Prop} {s : σ}
    (h : Safe exec R G p (fun a s => Q (f a) s) s) : Safe exec R G (f <$> p) Q s := by
  induction p generalizing s with
  | ret a => exact h
  | op o k ih =>
    intro s₁ h₁ r s₂ he
    obtain ⟨hg, hk⟩ := h s₁ h₁ r s₂ he
    exact ⟨hg, ih r hk⟩

-- -----
-- Programs that throw
-- -----

theorem bind_eq_ok {x : Except ε α} {f : α → Except ε β} {b : β} :
    (x >>= f) = .ok b ↔ ∃ a, x = .ok a ∧ f a = .ok b := by
  cases x <;> simp [bind, Except.bind]

theorem mem_mapM_ok {f : α → Except ε β} {xs : List α} {ys : List β} (h : xs.mapM f = .ok ys) :
    ∀ y ∈ ys, ∃ x ∈ xs, f x = .ok y := by
  induction xs generalizing ys with
  | nil =>
    obtain rfl := Except.ok.inj h
    exact fun y hy => nomatch hy
  | cons x rest ih =>
    rw [List.mapM_cons, bind_eq_ok] at h
    obtain ⟨first, hfirst, h⟩ := h
    obtain ⟨others, hothers, h⟩ := bind_eq_ok.mp h
    obtain rfl := Except.ok.inj h
    intro y hy
    rcases List.mem_cons.mp hy with rfl | hy
    · exact ⟨x, List.mem_cons_self, hfirst⟩
    · obtain ⟨x', hx', hy'⟩ := ih hothers y hy
      exact ⟨x', List.mem_cons_of_mem _ hx', hy'⟩

theorem mapError_eq_ok {ε' : Type} {x : Except ε α} {f : ε → ε'} {a : α} :
    x.mapError f = .ok a ↔ x = .ok a := by
  cases x <;> simp [Except.mapError]

section
variable {x : ExceptT ε (Prog Op Res) α} {s : σ}

theorem Safe.bindExcept {f : α → ExceptT ε (Prog Op Res) β} {Q : Except ε β → σ → Prop}
    (P : Except ε α → σ → Prop) (h : Safe exec R G x.run P s)
    (ok : ∀ a s', P (.ok a) s' → Safe exec R G (f a).run Q s')
    (error : ∀ e s', P (.error e) s' → Safe exec R G (.ret (.error e)) Q s') :
    Safe exec R G (x >>= f).run Q s := by
  rw [ExceptT.run_bind]
  refine Safe.bind (h.mono fun r s' hp => ?_)
  cases r with
  | ok a => exact ok a s' hp
  | error e => exact error e s' hp

theorem run_lift_bind (p : Prog Op Res α) (f : α → ExceptT ε (Prog Op Res) β) :
    ((liftM p : ExceptT ε (Prog Op Res) α) >>= f).run = p >>= fun a => (f a).run := by
  rw [ExceptT.run_bind]
  show (Except.ok <$> p) >>= _ = _
  rw [map_eq_pure_bind, bind_assoc]
  simp only [pure_eq, ret_bind]

theorem Safe.bindLift {p : Prog Op Res α} {f : α → ExceptT ε (Prog Op Res) β}
    {Q : Except ε β → σ → Prop} (P : α → σ → Prop) (h : Safe exec R G p P s)
    (hf : ∀ a s', P a s' → Safe exec R G (f a).run Q s') :
    Safe exec R G ((liftM p : ExceptT ε (Prog Op Res) α) >>= f).run Q s := by
  rw [run_lift_bind]
  exact Safe.bind (h.mono hf)

theorem Safe.tryCatch {handle : ε → ExceptT ε (Prog Op Res) α} {Q : Except ε α → σ → Prop}
    (P : Except ε α → σ → Prop) (h : Safe exec R G x.run P s)
    (ok : ∀ a s', P (.ok a) s' → Safe exec R G (.ret (.ok a)) Q s')
    (error : ∀ e s', P (.error e) s' → Safe exec R G (handle e).run Q s') :
    Safe exec R G (tryCatch x handle).run Q s := by
  rw [ExceptT.run_tryCatch]
  refine Safe.bind (h.mono fun r s' hp => ?_)
  cases r with
  | ok a => exact ok a s' hp
  | error e => exact error e s' hp

/-- A loop over a list: what every iteration keeps, the loop keeps, and the
results are related to the items one by one. -/
theorem Safe.mapM {f : α → ExceptT ε (Prog Op Res) β} {I : σ → Prop} {P : α → β → Prop}
    {items : List α} (stable : ∀ s s', I s → R s s' → I s')
    (hf : ∀ a ∈ items, ∀ s, I s →
      Safe exec R G (f a).run (fun r s' => I s' ∧ ∀ b, r = .ok b → P a b) s)
    (hs : I s) :
    Safe exec R G (items.mapM f).run
      (fun r s' => I s' ∧ ∀ results, r = .ok results → List.Forall₂ P items results) s := by
  induction items generalizing s with
  | nil =>
    refine Safe.ret I stable hs fun s' hi => ⟨hi, fun results hr => ?_⟩
    obtain rfl := Except.ok.inj hr
    exact .nil
  | cons a items ih =>
    rw [List.mapM_cons]
    have herror : ∀ (e : ε) (s' : σ), I s' → Safe exec R G
        (.ret (.error e) : Prog Op Res (Except ε (List β)))
          (fun r s' => I s' ∧ ∀ results, r = .ok results → List.Forall₂ P (a :: items) results) s' :=
      fun e s' hi => Safe.ret I stable hi fun _ hi => ⟨hi, fun _ hr => by cases hr⟩
    refine Safe.bindExcept _ (hf a (by simp) s hs) (fun b s' hb => ?_)
      (fun e s' he => herror e s' he.1)
    have hrest := ih (fun a' ha => hf a' (List.mem_cons_of_mem _ ha)) hb.1
    refine Safe.bindExcept _ hrest (fun bs s'' hbs => ?_) (fun e s'' he => herror e s'' he.1)
    refine Safe.ret I stable hbs.1 fun s' hi => ⟨hi, fun results hr => ?_⟩
    obtain rfl := Except.ok.inj hr
    exact .cons (hb.2 b rfl) (hbs.2 bs rfl)

end

-- -----
-- Interleavings
-- -----

structure Machine (ι Op : Type) (Res : Op → Type) (σ : Type) where
  exec : ι → Exec Op Res σ
  env : σ → σ → Prop

structure Config (ι Op : Type) (Res : Op → Type) (α σ : Type) where
  shared : σ
  threads : ι → Prog Op Res α

variable [DecidableEq ι] {M : Machine ι Op Res σ}

inductive Step (M : Machine ι Op Res σ) :
    Config ι Op Res α σ → Config ι Op Res α σ → Prop
  | thread {c : Config ι Op Res α σ} (i : ι) {o : Op} {k : Res o → Prog Op Res α} {r : Res o}
      {s' : σ} (next : c.threads i = .op o k) (run : M.exec i c.shared o r s') :
      Step M c ⟨s', Function.update c.threads i (k r)⟩
  | env {c : Config ι Op Res α σ} {s' : σ} (run : M.env c.shared s') : Step M c ⟨s', c.threads⟩

abbrev Reach (M : Machine ι Op Res σ) : Config ι Op Res α σ → Config ι Op Res α σ → Prop :=
  ReflTransGen (Step M)

/-- What each thread may do is within what every other one relies on. -/
structure Compatible (M : Machine ι Op Res σ) (R G : ι → σ → σ → Prop) : Prop where
  others : ∀ {i j : ι} {s s' : σ}, i ≠ j → G j s s' → R i s s'
  env : ∀ {i : ι} {s s' : σ}, M.env s s' → R i s s'

variable {R G : ι → σ → σ → Prop} {Q : ι → α → σ → Prop} {c c' : Config ι Op Res α σ}

theorem Step.safe (hc : Compatible M R G) (hs : Step M c c')
    (h : ∀ i, Safe (M.exec i) (R i) (G i) (c.threads i) (Q i) c.shared) :
    ∀ i, Safe (M.exec i) (R i) (G i) (c'.threads i) (Q i) c'.shared := by
  intro i
  cases hs with
  | env run => exact (h i).rely (hc.env run)
  | @thread j o k r s' next run =>
    have hj := h j
    rw [next] at hj
    obtain ⟨hg, hk⟩ := hj c.shared .refl r s' run
    by_cases hij : i = j
    · subst hij
      simpa using hk
    · simpa [Function.update_of_ne hij] using (h i).rely (hc.others hij hg)

/-- Threads that are safe at the start are safe in every reachable state. -/
theorem Reach.safe (hc : Compatible M R G) (hr : Reach M c c')
    (h : ∀ i, Safe (M.exec i) (R i) (G i) (c.threads i) (Q i) c.shared) :
    ∀ i, Safe (M.exec i) (R i) (G i) (c'.threads i) (Q i) c'.shared := by
  induction hr with
  | refl => exact h
  | tail _ hs ih => exact hs.safe hc ih

theorem Safe.result {a : α} {s : σ} {Q : α → σ → Prop} {exec : Exec Op Res σ}
    {R G : σ → σ → Prop} (h : Safe exec R G (.ret a : Prog Op Res α) Q s) : Q a s :=
  h s .refl

/-- Every step of a safe run is an environment step or within some guarantee. -/
theorem Step.guarantee (hs : Step M c c')
    (h : ∀ i, Safe (M.exec i) (R i) (G i) (c.threads i) (Q i) c.shared) :
    M.env c.shared c'.shared ∨ ∃ i, G i c.shared c'.shared := by
  cases hs with
  | env run => exact .inl run
  | @thread i o k r s' next run =>
    have hi := h i
    rw [next] at hi
    exact .inr ⟨i, (hi c.shared .refl r s' run).1⟩

/-- What every guarantee and the environment preserve holds at the end of a safe
run. -/
theorem Reach.preserves {P : σ → Prop} (hc : Compatible M R G) (hr : Reach M c c')
    (h : ∀ i, Safe (M.exec i) (R i) (G i) (c.threads i) (Q i) c.shared)
    (thread : ∀ i s s', G i s s' → P s → P s') (env : ∀ s s', M.env s s' → P s → P s')
    (hp : P c.shared) : P c'.shared := by
  induction hr with
  | refl => exact hp
  | tail hr hs ih =>
    rcases hs.guarantee (Reach.safe hc hr h) with he | ⟨i, hg⟩
    · exact env _ _ he ih
    · exact thread i _ _ hg ih

/-- What each step keeps or ends stands after a run, or some step of it was the end. -/
theorem Reach.until {P : Config ι Op Res α σ → Prop}
    {Ends : Config ι Op Res α σ → Config ι Op Res α σ → Prop}
    (hstep : ∀ c c', Step M c c' → P c → P c' ∨ Ends c c') (hr : Reach M c c') (h : P c) :
    P c' ∨ ∃ before after, Reach M c before ∧ P before ∧ Step M before after ∧
      Ends before after ∧ Reach M after c' := by
  induction hr with
  | refl => exact .inl h
  | tail hr hs ih =>
    rcases ih with hp | ⟨before, after, hbefore, hp, hstep', hends, hafter⟩
    · rcases hstep _ _ hs hp with hkept | hends
      · exact .inl hkept
      · exact .inr ⟨_, _, hr, hp, hs, hends, .refl⟩
    · exact .inr ⟨before, after, hbefore, hp, hstep', hends, hafter.tail hs⟩

end

-- -----
-- Sequential runs
-- -----

section
variable {Op : Type} {Res : Op → Type} {α β ε σ : Type}

/-- A program alone, from a state to a result. -/
inductive Runs (exec : Exec Op Res σ) : σ → Prog Op Res α → α → σ → Prop
  | ret {s : σ} {a : α} : Runs exec s (.ret a) a s
  | op {s s₁ s' : σ} {a : α} {o : Op} {k : Res o → Prog Op Res α} {r : Res o}
      (run : exec s o r s₁) (rest : Runs exec s₁ (k r) a s') : Runs exec s (.op o k) a s'

theorem Runs.bind {exec : Exec Op Res σ} {p : Prog Op Res α} {f : α → Prog Op Res β}
    {s s' s'' : σ} {a : α} {b : β} (h : Runs exec s p a s') (hf : Runs exec s' (f a) b s'') :
    Runs exec s (p >>= f) b s'' := by
  induction h with
  | ret => exact hf
  | op run _ ih => exact .op run (ih hf)

theorem Runs.bindExcept {exec : Exec Op Res σ} {x : ExceptT ε (Prog Op Res) α}
    {f : α → ExceptT ε (Prog Op Res) β} {s s' s'' : σ} {a : α} {r : Except ε β}
    (h : Runs exec s x.run (.ok a) s') (hf : Runs exec s' (f a).run r s'') :
    Runs exec s (x >>= f).run r s'' := by
  rw [ExceptT.run_bind]
  exact h.bind hf

theorem Runs.bindLift {exec : Exec Op Res σ} {p : Prog Op Res α}
    {f : α → ExceptT ε (Prog Op Res) β} {s s' s'' : σ} {a : α} {r : Except ε β}
    (h : Runs exec s p a s') (hf : Runs exec s' (f a).run r s'') :
    Runs exec s ((liftM p : ExceptT ε (Prog Op Res) α) >>= f).run r s'' := by
  rw [run_lift_bind]
  exact h.bind hf

theorem Runs.mapM_singleton {exec : Exec Op Res σ} {f : α → ExceptT ε (Prog Op Res) β} {s s' : σ}
    {a : α} {b : β} (h : Runs exec s (f a).run (.ok b) s') :
    Runs exec s ([a].mapM f).run (.ok [b]) s' := by
  rw [List.mapM_cons]
  exact .bindExcept h (.bindExcept (a := []) .ret .ret)

/-- No other thread: the rely is empty. -/
abbrev Alone (exec : Exec Op Res σ) (G : σ → σ → Prop) (p : Prog Op Res α) (Q : α → σ → Prop)
    (s : σ) : Prop :=
  Safe exec (fun _ _ => False) G p Q s

variable {exec : Exec Op Res σ} {G : σ → σ → Prop}

theorem Runs.post {p : Prog Op Res α} {Q : α → σ → Prop} {s s' : σ} {a : α}
    (hr : Runs exec s p a s') (h : Alone exec G p Q s) : Q a s' := by
  induction hr with
  | ret => exact h.result
  | op run _ ih => exact ih (h _ .refl _ _ run).2

/-- Every step of a run is within the guarantee. -/
theorem Runs.guarantee {p : Prog Op Res α} {Q : α → σ → Prop} {s s' : σ} {a : α}
    (hr : Runs exec s p a s') (h : Alone exec G p Q s) : ReflTransGen G s s' := by
  induction hr with
  | ret => exact .refl
  | op run _ ih =>
    obtain ⟨hg, hk⟩ := h _ .refl _ _ run
    exact .head hg (ih hk)

theorem Alone.ret {Q : α → σ → Prop} {a : α} {s : σ} (h : Q a s) :
    Alone exec G (.ret a : Prog Op Res α) Q s :=
  Safe.ret (· = s) (fun _ _ _ hf => hf.elim) rfl (fun _ ht => ht ▸ h)

theorem Alone.op {Q : α → σ → Prop} {o : Op} {k : Res o → Prog Op Res α} {s : σ}
    (h : ∀ r s', exec s o r s' → G s s' ∧ Alone exec G (k r) Q s') : Alone exec G (.op o k) Q s :=
  Safe.op (· = s) (fun _ _ _ hf => hf.elim) rfl (by
    rintro _ r s' rfl he
    exact h r s' he)

theorem Alone.bind {p : Prog Op Res α} {f : α → Prog Op Res β} {Q : β → σ → Prop}
    (P : α → σ → Prop) {s : σ} (h : Alone exec G p P s)
    (hf : ∀ a s', P a s' → Alone exec G (f a) Q s') : Alone exec G (p >>= f) Q s :=
  Safe.bind (h.mono hf)

/-- A thread may run to its end while the others wait. -/
theorem Runs.reach {ι : Type} [DecidableEq ι] {M : Machine ι Op Res σ} {i : ι} {s s' : σ}
    {p : Prog Op Res α} {a : α} (h : Runs (M.exec i) s p a s') {threads : ι → Prog Op Res α}
    (hp : threads i = p) : Reach M ⟨s, threads⟩ ⟨s', Function.update threads i (.ret a)⟩ := by
  induction h generalizing threads with
  | ret => rw [← hp, Function.update_eq_self]
  | @op s s₁ s' a o k r run rest ih =>
    have hnext : Reach M ⟨s₁, Function.update threads i (k r)⟩
        ⟨s', Function.update (Function.update threads i (k r)) i (.ret a)⟩ :=
      ih (Function.update_self ..)
    rw [Function.update_idem] at hnext
    exact .head (.thread i hp run) hnext

-- -----
-- Executable runs
-- -----

/-- At most so many steps of a program, with the answers of a function. -/
def advance (answer : σ → (o : Op) → Option (Res o × σ)) :
    Nat → Prog Op Res α → σ → Option (Prog Op Res α × σ)
  | 0, p, s => some (p, s)
  | _ + 1, .ret a, s => some (.ret a, s)
  | n + 1, .op o k, s => (answer s o).bind fun (r, s') => advance answer n (k r) s'

theorem advance_reach {ι : Type} [DecidableEq ι] {M : Machine ι Op Res σ} {i : ι}
    {answer : σ → (o : Op) → Option (Res o × σ)}
    (sound : ∀ s o r s', answer s o = some (r, s') → M.exec i s o r s') {n : Nat}
    {p p' : Prog Op Res α} {s s' : σ} (h : advance answer n p s = some (p', s'))
    {threads : ι → Prog Op Res α} (hp : threads i = p) :
    Reach M ⟨s, threads⟩ ⟨s', Function.update threads i p'⟩ := by
  induction n generalizing p s threads with
  | zero =>
    cases h
    rw [← hp, Function.update_eq_self]
  | succ n ih =>
    cases p with
    | ret a =>
      cases h
      rw [← hp, Function.update_eq_self]
    | op o k =>
      obtain ⟨⟨r, between⟩, hone, hrest⟩ := Option.bind_eq_some_iff.mp h
      have hnext := ih hrest (Function.update_self i (k r) threads)
      rw [Function.update_idem] at hnext
      exact .head (.thread i hp (sound _ _ _ _ hone)) hnext

/-- Turns of threads, so many steps each. -/
def schedule {ι : Type} [DecidableEq ι] (answer : ι → σ → (o : Op) → Option (Res o × σ)) :
    List (ι × Nat) → Config ι Op Res α σ → Option (Config ι Op Res α σ)
  | [], c => some c
  | (i, n) :: rest, c => (advance (answer i) n (c.threads i) c.shared).bind fun (p, s) =>
      schedule answer rest ⟨s, Function.update c.threads i p⟩

theorem schedule_reach {ι : Type} [DecidableEq ι] {M : Machine ι Op Res σ}
    {answer : ι → σ → (o : Op) → Option (Res o × σ)}
    (sound : ∀ i s o r s', answer i s o = some (r, s') → M.exec i s o r s')
    {turns : List (ι × Nat)} {c c' : Config ι Op Res α σ}
    (h : schedule answer turns c = some c') : Reach M c c' := by
  induction turns generalizing c with
  | nil =>
    cases h
    exact .refl
  | cons turn rest ih =>
    obtain ⟨⟨p, s⟩, hturn, hrest⟩ := Option.bind_eq_some_iff.mp h
    exact (advance_reach (sound turn.1) hturn rfl).trans (ih hrest)

/-- The operation a program waits for. -/
def Prog.next? : Prog Op Res α → Option Op
  | .ret _ => none
  | .op o _ => some o

theorem Prog.next?_eq_some {p : Prog Op Res α} {o : Op} (h : p.next? = some o) :
    ∃ k, p = .op o k := by
  cases p with
  | ret a => cases h
  | op o' k =>
    obtain rfl := Option.some.inj h
    exact ⟨k, rfl⟩

end

end Effects
