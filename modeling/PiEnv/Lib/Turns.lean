import PiEnv.Lib.History

/-!
# Fibers that take turns

Programs over one state, on one thread. An operation is either answered from
the state at once, or awaited. A turn runs a program from the answer to what it
awaits up to the next operation it awaits, and nobody else runs in between.

`Kept` lists what a single operation has to preserve; `Kept.turn`, `Kept.start`
and `Kept.resume` carry it over whole turns, for every fiber at once.
-/

namespace Effects

variable {Op : Type} {Res : Op → Type} {α σ : Type}

structure Scheduler (Op : Type) (Res : Op → Type) (σ : Type) where
  /-- Of an operation that is not awaited. -/
  answer : σ → (o : Op) → Option (Res o × σ)
  /-- From the answer of the outside to what the program sees of it. -/
  deliver : σ → (o : Op) → Res o → Option (Res o × σ)

/-- What is left of a program, and the operations it had answered. -/
structure Fiber (Op : Type) (Res : Op → Type) where
  history : History Op Res
  program : Prog Op Res Unit

structure Fibers (Op : Type) (Res : Op → Type) (σ : Type) where
  shared : σ
  fibers : List (Fiber Op Res)

variable {S : Scheduler Op Res σ}

def Prog.turn (S : Scheduler Op Res σ) : σ → History Op Res → Prog Op Res Unit → σ × Fiber Op Res
  | s, h, .ret a => (s, ⟨h, .ret a⟩)
  | s, h, .op o k =>
    match S.answer s o with
    | some (r, s') => (k r).turn S s' (⟨o, r⟩ :: h)
    | none => (s, ⟨h, .op o k⟩)

namespace Fibers

def start (S : Scheduler Op Res σ) (t : Fibers Op Res σ) (p : Prog Op Res Unit) : Fibers Op Res σ :=
  ⟨(p.turn S t.shared []).1, t.fibers ++ [(p.turn S t.shared []).2]⟩

/-- The outside answers whatever the fiber awaits. -/
def resume (S : Scheduler Op Res σ) (t : Fibers Op Res σ) (i : Nat) (reply : (o : Op) → Res o) :
    Option (Fibers Op Res σ) :=
  match t.fibers[i]? with
  | some ⟨h, .op o k⟩ =>
    (S.deliver t.shared o (reply o)).map fun given =>
      let turn := (k given.1).turn S given.2 (⟨o, given.1⟩ :: h)
      ⟨turn.1, t.fibers.set i turn.2⟩
  | _ => none

theorem resume_eq_some {t t' : Fibers Op Res σ} {i : Nat} {reply : (o : Op) → Res o} :
    t.resume S i reply = some t' ↔ ∃ h o k r s, t.fibers[i]? = some ⟨h, .op o k⟩ ∧
      S.deliver t.shared o (reply o) = some (r, s) ∧
      t' = ⟨((k r).turn S s (⟨o, r⟩ :: h)).1, t.fibers.set i ((k r).turn S s (⟨o, r⟩ :: h)).2⟩ := by
  unfold resume
  constructor
  · intro hsome
    split at hsome
    case h_1 h o k hfiber =>
      obtain ⟨⟨r, s⟩, hgiven, rfl⟩ := Option.map_eq_some_iff.mp hsome
      exact ⟨h, o, k, r, s, hfiber, hgiven, rfl⟩
    case h_2 => cases hsome
  · rintro ⟨h, o, k, r, s, hfiber, hgiven, rfl⟩
    simp only [hfiber, hgiven, Option.map_some]

/-- What a fiber awaits, where it has not ended. -/
def awaited (fiber : Fiber Op Res) : Option Op :=
  match fiber.program with
  | .ret _ => none
  | .op o _ => some o

end Fibers

-- -----
-- What turns preserve
-- -----

structure Assertion (Op : Type) (Res : Op → Type) (σ : Type) where
  /-- Where the fiber's own history lets it issue an operation. -/
  guard : History Op Res → Op → Prop
  shared : σ → Prop
  /-- Of the fiber whose turn it is. -/
  running : σ → History Op Res → Prop
  /-- Of a fiber that awaits an operation, or has ended. -/
  waiting : σ → History Op Res → Option Op → Prop

variable {A : Assertion Op Res σ}

/-- What waiting fibers know is left as it is. -/
def Assertion.Framed (A : Assertion Op Res σ) (s s' : σ) : Prop :=
  ∀ h o, A.waiting s h o → A.waiting s' h o

structure Assertion.Knows (A : Assertion Op Res σ) (s : σ) (fiber : Fiber Op Res) : Prop where
  guarded : Guarded A.guard fiber.program (fun _ _ => True) fiber.history
  waiting : A.waiting s fiber.history (Fibers.awaited fiber)

structure Assertion.Holds (A : Assertion Op Res σ) (t : Fibers Op Res σ) : Prop where
  shared : A.shared t.shared
  fibers : ∀ fiber ∈ t.fibers, A.Knows t.shared fiber

structure Kept (S : Scheduler Op Res σ) (A : Assertion Op Res σ) : Prop where
  answer : ∀ {s s' h o r}, S.answer s o = some (r, s') → A.shared s → A.running s h → A.guard h o →
    A.shared s' ∧ A.running s' (⟨o, r⟩ :: h) ∧ A.Framed s s'
  pause : ∀ {s h o}, A.shared s → A.running s h → A.waiting s h o

theorem Assertion.Knows.framed {s s' : σ} {fiber : Fiber Op Res} (hknows : A.Knows s fiber)
    (hframed : A.Framed s s') : A.Knows s' fiber :=
  ⟨hknows.guarded, hframed _ _ hknows.waiting⟩

namespace Kept

theorem turn (hkept : Kept S A) {p : Prog Op Res Unit} {s : σ} {h : History Op Res}
    (hp : Guarded A.guard p (fun _ _ => True) h) (hs : A.shared s) (hrunning : A.running s h) :
    A.shared (p.turn S s h).1 ∧ A.Knows (p.turn S s h).1 (p.turn S s h).2 ∧
      A.Framed s (p.turn S s h).1 := by
  induction p generalizing s h with
  | ret a => exact ⟨hs, ⟨hp, hkept.pause hs hrunning⟩, fun _ _ hwaiting => hwaiting⟩
  | op o k ih =>
    simp only [Prog.turn]
    split
    case h_1 r s' hanswer =>
      obtain ⟨hs', hrunning', hframed⟩ := hkept.answer hanswer hs hrunning hp.1
      obtain ⟨hshared, hknows, hrest⟩ := ih r (hp.2 r) hs' hrunning'
      exact ⟨hshared, hknows, fun h' o' hwaiting => hrest h' o' (hframed h' o' hwaiting)⟩
    case h_2 => exact ⟨hs, ⟨hp, hkept.pause hs hrunning⟩, fun _ _ hwaiting => hwaiting⟩

theorem start (hkept : Kept S A) {t : Fibers Op Res σ} {p : Prog Op Res Unit} (ht : A.Holds t)
    (hp : Guarded A.guard p (fun _ _ => True) []) (hrunning : A.running t.shared []) :
    A.Holds (t.start S p) := by
  obtain ⟨hshared, hknows, hframed⟩ := hkept.turn hp ht.shared hrunning
  refine ⟨hshared, fun fiber hmem => ?_⟩
  rcases List.mem_append.mp hmem with hold | hnew
  · exact (ht.fibers fiber hold).framed hframed
  · rw [List.mem_singleton.mp hnew]
    exact hknows

/-- The step of a run that answers a fiber. What is asked of the answer is asked
in the state it comes in. -/
theorem resume (hkept : Kept S A) {t t' : Fibers Op Res σ} {i : Nat} {reply : (o : Op) → Res o}
    (ht : A.Holds t) (hresume : t.resume S i reply = some t')
    (hdeliver : ∀ {h o k r s}, t.fibers[i]? = some ⟨h, .op o k⟩ →
      S.deliver t.shared o (reply o) = some (r, s) → A.waiting t.shared h (some o) →
      A.shared s ∧ A.running s (⟨o, r⟩ :: h) ∧
        ∀ fiber ∈ t.fibers, A.Knows t.shared fiber → A.Knows s fiber) : A.Holds t' := by
  obtain ⟨h, o, k, r, s, hfiber, hgiven, rfl⟩ := Fibers.resume_eq_some.mp hresume
  obtain ⟨hguarded, hwaiting⟩ := ht.fibers _ (List.mem_of_getElem? hfiber)
  obtain ⟨hs, hrunning, hothers⟩ := hdeliver hfiber hgiven hwaiting
  obtain ⟨hshared, hknows, hframed⟩ := hkept.turn (hguarded.2 r) hs hrunning
  refine ⟨hshared, fun fiber hmem => ?_⟩
  rcases List.mem_or_eq_of_mem_set hmem with hold | rfl
  · exact (hothers fiber hold (ht.fibers fiber hold)).framed hframed
  · exact hknows

end Kept

end Effects
