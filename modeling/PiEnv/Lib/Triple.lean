import PiEnv.Lib.Program

/-!
# Triples over what a thread knows

A thread knows something of a shared state that whatever the others do leaves
true. A triple says how a program changes what its thread knows, and that every
step of it stays within the guarantee.
-/

namespace Effects

/-- Knowledge about a shared state that the rely keeps. -/
structure Logic (Op : Type) (Res : Op → Type) (σ κ : Type) where
  exec : Exec Op Res σ
  rely : σ → σ → Prop
  guarantee : σ → σ → Prop
  Holds : κ → σ → Prop
  stable : ∀ {k : κ} {s s' : σ}, Holds k s → rely s s' → Holds k s'

namespace Logic

variable {Op : Type} {Res : Op → Type} {σ κ α β ε : Type}

/-- From what is known before to what is known after, whatever the others do. -/
def Triple (L : Logic Op Res σ κ) (k : κ) (p : Prog Op Res α) (P : α → κ → Prop) : Prop :=
  ∀ s, L.Holds k s →
    Safe L.exec L.rely L.guarantee p (fun a s => ∃ k', L.Holds k' s ∧ P a k') s

namespace Triple

variable {L : Logic Op Res σ κ} {k : κ} {P : α → κ → Prop}

theorem ret {a : α} (h : P a k) : L.Triple k (.ret a) P := fun _ hs =>
  Safe.ret (L.Holds k) (fun _ _ h hr => L.stable h hr) hs fun _ hs => ⟨k, hs, h⟩

theorem op {o : Op} {next : Res o → Prog Op Res α}
    (h : ∀ s r s', L.Holds k s → L.exec s o r s' →
      L.guarantee s s' ∧ ∃ k', L.Holds k' s' ∧ L.Triple k' (next r) P) :
    L.Triple k (.op o next) P := fun _ hs =>
  Safe.op (L.Holds k) (fun _ _ h hr => L.stable h hr) hs fun s r s' hs he => by
    obtain ⟨hguarantee, k', hk', hnext⟩ := h s r s' hs he
    exact ⟨hguarantee, hnext s' hk'⟩

theorem call {o : Op} {P : Res o → κ → Prop}
    (h : ∀ s r s', L.Holds k s → L.exec s o r s' →
      L.guarantee s s' ∧ ∃ k', L.Holds k' s' ∧ P r k') :
    L.Triple k (Effects.call o) P :=
  op fun s r s' hs he => by
    obtain ⟨hguarantee, k', hk', hr⟩ := h s r s' hs he
    exact ⟨hguarantee, k', hk', ret hr⟩

theorem bind {p : Prog Op Res α} {f : α → Prog Op Res β} {Q : β → κ → Prop}
    (h : L.Triple k p P) (hf : ∀ a k', P a k' → L.Triple k' (f a) Q) :
    L.Triple k (p >>= f) Q := fun s hs =>
  Safe.bind ((h s hs).mono fun a s' ⟨k', hk', ha⟩ => hf a k' ha s' hk')

theorem mono {p : Prog Op Res α} {Q : α → κ → Prop} (h : L.Triple k p P)
    (hQ : ∀ a k', P a k' → Q a k') : L.Triple k p Q := fun s hs =>
  (h s hs).mono fun _ _ ⟨k', hk', ha⟩ => ⟨k', hk', hQ _ _ ha⟩

theorem map {p : Prog Op Res α} {f : α → β} {Q : β → κ → Prop} (h : L.Triple k p P)
    (hf : ∀ a k', P a k' → Q (f a) k') : L.Triple k (f <$> p) Q := by
  rw [map_eq_pure_bind]
  exact h.bind fun a k' ha => ret (hf a k' ha)

section
variable {x : ExceptT ε (Prog Op Res) α} {P : Except ε α → κ → Prop}

theorem bindExcept {f : α → ExceptT ε (Prog Op Res) β} {Q : Except ε β → κ → Prop}
    (h : L.Triple k x.run P) (ok : ∀ a k', P (.ok a) k' → L.Triple k' (f a).run Q)
    (error : ∀ e k', P (.error e) k' → Q (.error e) k') : L.Triple k (x >>= f).run Q := by
  rw [ExceptT.run_bind]
  refine h.bind fun r k' hr => ?_
  cases r with
  | ok a => exact ok a k' hr
  | error e => exact ret (error e k' hr)

theorem bindLift {p : Prog Op Res α} {P : α → κ → Prop} {f : α → ExceptT ε (Prog Op Res) β}
    {Q : Except ε β → κ → Prop} (h : L.Triple k p P)
    (hf : ∀ a k', P a k' → L.Triple k' (f a).run Q) :
    L.Triple k ((liftM p : ExceptT ε (Prog Op Res) α) >>= f).run Q := by
  rw [run_lift_bind]
  exact h.bind hf

end

end Triple

end Logic

end Effects
