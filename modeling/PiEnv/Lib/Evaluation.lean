import PiEnv.Lib.Program

/-!
# Programs with one answer to each call

What a program comes to when the answer to a call is a function of the state,
and when one that may throw gives a result.
-/

namespace Effects

variable {Op : Type} {Res : Op → Type} {α β ε σ : Type}

abbrev Answers (Op : Type) (Res : Op → Type) (σ : Type) := σ → (o : Op) → Res o × σ

def Prog.eval (answer : Answers Op Res σ) : Prog Op Res α → σ → α × σ
  | .ret a, s => (a, s)
  | .op o k, s => (k (answer s o).1).eval answer (answer s o).2

variable {answer : Answers Op Res σ} {s s' s'' : σ}

@[simp] theorem eval_ret (a : α) : (.ret a : Prog Op Res α).eval answer s = (a, s) := rfl

@[simp] theorem eval_op (o : Op) (k : Res o → Prog Op Res α) :
    (Prog.op o k).eval answer s = (k (answer s o).1).eval answer (answer s o).2 := rfl

@[simp] theorem eval_call (o : Op) : (call o : Prog Op Res (Res o)).eval answer s = answer s o := rfl

theorem eval_bind {p : Prog Op Res α} {f : α → Prog Op Res β} {a : α}
    (h : p.eval answer s = (a, s')) : (p >>= f).eval answer s = (f a).eval answer s' := by
  induction p generalizing s with
  | ret b =>
    cases h
    rfl
  | op o k ih => exact ih _ h

theorem eval_map {p : Prog Op Res α} {f : α → β} {a : α} (h : p.eval answer s = (a, s')) :
    (f <$> p).eval answer s = (f a, s') := by
  rw [map_eq_pure_bind, eval_bind h]
  rfl

section
variable {x : ExceptT ε (Prog Op Res) α} {f : α → ExceptT ε (Prog Op Res) β} {a : α} {e : ε}

theorem eval_bindExcept (h : x.run.eval answer s = (.ok a, s')) :
    (x >>= f).run.eval answer s = (f a).run.eval answer s' := by
  rw [ExceptT.run_bind, eval_bind h]

theorem eval_bindError (h : x.run.eval answer s = (.error e, s')) :
    (x >>= f).run.eval answer s = (.error e, s') := by
  rw [ExceptT.run_bind, eval_bind h]
  rfl

theorem eval_bindLift {p : Prog Op Res α} (h : p.eval answer s = (a, s')) :
    ((liftM p : ExceptT ε (Prog Op Res) α) >>= f).run.eval answer s = (f a).run.eval answer s' := by
  rw [run_lift_bind, eval_bind h]

end

/-- A loop whose items are only read. -/
theorem eval_mapM {f : α → ExceptT ε (Prog Op Res) β} {g : α → β} {items : List α}
    (h : ∀ a ∈ items, (f a).run.eval answer s = (.ok (g a), s)) :
    (items.mapM f).run.eval answer s = (.ok (items.map g), s) := by
  induction items with
  | nil => rfl
  | cons a items ih =>
    have hrest := ih fun b hb => h b (List.mem_cons_of_mem a hb)
    rw [List.mapM_cons, eval_bindExcept (h a (List.mem_cons_self ..)), eval_bindExcept hrest]
    rfl

-- -----
-- When a program gives a result
-- -----

/-- The program gives the result where the condition holds, and throws one of
said errors where it does not. -/
structure Passes (answer : Answers Op Res σ) (errors : ε → Prop) (x : ExceptT ε (Prog Op Res) α)
    (s : σ) (condition : Prop) (a : α) (s' : σ) : Prop where
  gives : condition → x.run.eval answer s = (.ok a, s')
  throws : ¬ condition → ∃ e t, errors e ∧ x.run.eval answer s = (.error e, t)

namespace Passes

variable {errors : ε → Prop} {x : ExceptT ε (Prog Op Res) α} {a : α} {b : β}
  {condition condition' : Prop}

theorem of_ok (h : x.run.eval answer s = (.ok a, s')) : Passes answer errors x s True a s' :=
  ⟨fun _ => h, fun hfalse => absurd trivial hfalse⟩

theorem of_error {e : ε} (h : x.run.eval answer s = (.error e, s'')) (he : errors e) :
    Passes answer errors x s False a s' :=
  ⟨False.elim, fun _ => ⟨e, s'', he, h⟩⟩

theorem congr (h : Passes answer errors x s condition a s') (hiff : condition ↔ condition') :
    Passes answer errors x s condition' a s' := propext hiff ▸ h

theorem bind {f : α → ExceptT ε (Prog Op Res) β} (h : Passes answer errors x s condition a s')
    (hf : condition → Passes answer errors (f a) s' condition' b s'') :
    Passes answer errors (x >>= f) s (condition ∧ condition') b s'' where
  gives := fun ⟨hcondition, hcondition'⟩ => by
    rw [eval_bindExcept (h.gives hcondition)]
    exact (hf hcondition).gives hcondition'
  throws := fun hnot => by
    by_cases hcondition : condition
    · obtain ⟨e, t, he, ht⟩ := (hf hcondition).throws fun hcondition' => hnot ⟨hcondition, hcondition'⟩
      exact ⟨e, t, he, by rw [eval_bindExcept (h.gives hcondition), ht]⟩
    · obtain ⟨e, t, he, ht⟩ := h.throws hcondition
      exact ⟨e, t, he, eval_bindError ht⟩

theorem bindLift {p : Prog Op Res α} {f : α → ExceptT ε (Prog Op Res) β}
    (h : p.eval answer s = (a, s')) (hf : Passes answer errors (f a) s' condition b s'') :
    Passes answer errors ((liftM p : ExceptT ε (Prog Op Res) α) >>= f) s condition b s'' where
  gives := fun hcondition => by rw [eval_bindLift h, hf.gives hcondition]
  throws := fun hnot => by
    obtain ⟨e, t, he, ht⟩ := hf.throws hnot
    exact ⟨e, t, he, by rw [eval_bindLift h, ht]⟩

/-- A check that throws, before the rest. -/
theorem check {p : Prop} [Decidable p] {thrown rest : ExceptT ε (Prog Op Res) α} {e : ε}
    (hthrown : thrown.run = .ret (.error e)) (he : errors e)
    (h : ¬ p → Passes answer errors rest s condition a s') :
    Passes answer errors (if p then thrown else rest) s (¬ p ∧ condition) a s' := by
  split
  · rename_i hp
    have hthrows : thrown.run.eval answer s = (.error e, s) := by
      rw [hthrown]
      rfl
    exact (of_error hthrows he).congr (by simp [hp])
  · rename_i hp
    exact (h hp).congr (by simp [hp])

theorem mono {errors' : ε → Prop} (h : Passes answer errors x s condition a s')
    (herrors : ∀ e, errors e → errors' e) : Passes answer errors' x s condition a s' where
  gives := h.gives
  throws := fun hnot => by
    obtain ⟨e, t, he, ht⟩ := h.throws hnot
    exact ⟨e, t, herrors e he, ht⟩

theorem iff (h : Passes answer errors x s condition a s') :
    (∃ b, (x.run.eval answer s).1 = .ok b) ↔ condition := by
  constructor
  · rintro ⟨b, hb⟩
    by_contra hnot
    obtain ⟨e, t, -, ht⟩ := h.throws hnot
    rw [ht] at hb
    cases hb
  · exact fun hcondition => ⟨a, by rw [h.gives hcondition]⟩

end Passes

end Effects
