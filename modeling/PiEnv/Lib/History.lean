import PiEnv.Lib.Program

/-!
# What was asked and what was answered

A program whose operations may be answered in any way. Its history is the list
of its operations with their answers. `Guarded` says that each operation is
issued only where the history before it allows it, whatever the answers are.
-/

namespace Effects

variable {Op : Type} {Res : Op → Type} {α β ε : Type}

/-- The last operation is the first of the list. -/
abbrev History (Op : Type) (Res : Op → Type) := List ((o : Op) × Res o)

def recording : Exec Op Res (History Op Res) := fun h o r h' => h' = ⟨o, r⟩ :: h

/-- An operation between two histories of a run, with the history before it. -/
structure Issued (h h' earlier : History Op Res) (o : Op) : Prop where
  within : h <:+ earlier
  issued : ∃ r, (⟨o, r⟩ :: earlier) <:+ h'

def Guarded (guard : History Op Res → Op → Prop) :
    Prog Op Res α → (α → History Op Res → Prop) → History Op Res → Prop
  | .ret a, Q, h => Q a h
  | .op o k, Q, h => guard h o ∧ ∀ r, Guarded guard (k r) Q (⟨o, r⟩ :: h)

variable {guard : History Op Res → Op → Prop} {h h' earlier : History Op Res}

-- -----
-- Runs
-- -----

theorem Runs.grows {p : Prog Op Res α} {a : α} (hrun : Runs recording h p a h') : h <:+ h' := by
  induction hrun with
  | ret => exact List.suffix_refl _
  | op hone _ ih => exact (hone ▸ List.suffix_cons ..).trans ih

namespace Guarded

theorem post {p : Prog Op Res α} {Q : α → History Op Res → Prop} {a : α} (hp : Guarded guard p Q h)
    (hrun : Runs recording h p a h') : Q a h' := by
  induction hrun with
  | ret => exact hp
  | op hone _ ih => exact ih (hone ▸ hp.2 _)

theorem issued {p : Prog Op Res α} {Q : α → History Op Res → Prop} {a : α} {o : Op}
    (hp : Guarded guard p Q h) (hrun : Runs recording h p a h') (ho : Issued h h' earlier o) :
    guard earlier o := by
  induction hrun with
  | ret =>
    obtain ⟨hwithin, r, hissued⟩ := ho
    have := hwithin.length_le
    have := hissued.length_le
    simp only [List.length_cons] at this
    omega
  | @op h h₁ h' a o' k r hone hrest ih =>
    obtain ⟨hwithin, r', hissued⟩ := ho
    subst hone
    rcases List.suffix_or_suffix_of_suffix hissued hrest.grows with hbefore | hafter
    · rcases List.suffix_cons_iff.mp hbefore with heq | hshort
      · obtain ⟨hsame, rfl⟩ := List.cons.inj heq
        cases hsame
        exact hp.1
      · have := hwithin.length_le
        have := hshort.length_le
        simp only [List.length_cons] at this
        omega
    · rcases List.suffix_cons_iff.mp hafter with heq | hlong
      · obtain ⟨hsame, rfl⟩ := List.cons.inj heq
        cases hsame
        exact hp.1
      · exact ih (hp.2 r) ⟨hlong, r', hissued⟩

-- -----
-- Rules
-- -----

theorem ret {Q : α → History Op Res → Prop} {a : α} (hq : Q a h) :
    Guarded guard (.ret a : Prog Op Res α) Q h := hq

theorem call {o : Op} {Q : Res o → History Op Res → Prop} (ho : guard h o)
    (hq : ∀ r, Q r (⟨o, r⟩ :: h)) : Guarded guard (Effects.call o) Q h := ⟨ho, hq⟩

theorem bind {p : Prog Op Res α} {f : α → Prog Op Res β} {Q : β → History Op Res → Prop}
    (hp : Guarded guard p (fun a h' => Guarded guard (f a) Q h') h) :
    Guarded guard (p >>= f) Q h := by
  induction p generalizing h with
  | ret a => exact hp
  | op o k ih => exact ⟨hp.1, fun r => ih r (hp.2 r)⟩

theorem mono {p : Prog Op Res α} {Q Q' : α → History Op Res → Prop} (hp : Guarded guard p Q h)
    (hq : ∀ a h', h <:+ h' → Q a h' → Q' a h') : Guarded guard p Q' h := by
  induction p generalizing h with
  | ret a => exact hq a h (List.suffix_refl _) hp
  | op o k ih =>
    exact ⟨hp.1, fun r => ih r (hp.2 r) fun a h' hle => hq a h' ((List.suffix_cons ..).trans hle)⟩

/-- One operation, and what follows whatever its answer is. -/
theorem ask {o : Op} {f : Res o → Prog Op Res β} {Q : β → History Op Res → Prop}
    (ho : guard h o) (hf : ∀ r, Guarded guard (f r) Q (⟨o, r⟩ :: h)) :
    Guarded guard (Effects.call o >>= f) Q h := ⟨ho, hf⟩

theorem map {p : Prog Op Res α} {f : α → β} {Q : β → History Op Res → Prop}
    (hp : Guarded guard p (fun a h' => Q (f a) h') h) : Guarded guard (f <$> p) Q h := by
  rw [map_eq_pure_bind]
  exact bind hp

/-- The rest of a program starts from what the first part of it leaves. -/
theorem seq {p : Prog Op Res α} {f : α → Prog Op Res β} {P : α → History Op Res → Prop}
    {Q : β → History Op Res → Prop} (hp : Guarded guard p P h)
    (hf : ∀ a h', h <:+ h' → P a h' → Guarded guard (f a) Q h') : Guarded guard (p >>= f) Q h :=
  bind (hp.mono hf)

section
variable {x : ExceptT ε (Prog Op Res) α} {f : α → ExceptT ε (Prog Op Res) β}
  {Q : Except ε β → History Op Res → Prop}

theorem seqExcept {P : Except ε α → History Op Res → Prop} (hx : Guarded guard x.run P h)
    (ok : ∀ a h', h <:+ h' → P (.ok a) h' → Guarded guard (f a).run Q h')
    (error : ∀ e h', h <:+ h' → P (.error e) h' → Q (.error e) h') :
    Guarded guard (x >>= f).run Q h := by
  rw [ExceptT.run_bind]
  refine hx.seq fun r h' hle hr => ?_
  cases r with
  | ok a => exact ok a h' hle hr
  | error e => exact error e h' hle hr

theorem seqLift {p : Prog Op Res α} {P : α → History Op Res → Prop} (hp : Guarded guard p P h)
    (hf : ∀ a h', h <:+ h' → P a h' → Guarded guard (f a).run Q h') :
    Guarded guard ((liftM p : ExceptT ε (Prog Op Res) α) >>= f).run Q h := by
  rw [run_lift_bind]
  exact hp.seq hf

end

/-- A program that only asks what is always allowed. -/
theorem trivial {p : Prog Op Res α} (ho : ∀ h o, guard h o) : Guarded guard p (fun _ _ => True) h := by
  induction p generalizing h with
  | ret a => exact True.intro
  | op o k ih => exact ⟨ho h o, fun r => ih r⟩

end Guarded

-- -----
-- Programs that throw
-- -----

/-- What holds of the result where there is one. -/
def Yields (guard : History Op Res → Op → Prop) (x : ExceptT ε (Prog Op Res) α)
    (P : α → History Op Res → Prop) (h : History Op Res) : Prop :=
  Guarded guard x.run (fun r h' => ∀ a, r = .ok a → P a h') h

namespace Yields

variable {x : ExceptT ε (Prog Op Res) α} {P P' : α → History Op Res → Prop}

theorem post {a : α} (hx : Yields guard x P h) (hrun : Runs recording h x.run (.ok a) h') : P a h' :=
  Guarded.post hx hrun a rfl

theorem issued {r : Except ε α} {o : Op} (hx : Yields guard x P h)
    (hrun : Runs recording h x.run r h') (ho : Issued h h' earlier o) : guard earlier o :=
  Guarded.issued hx hrun ho

theorem ret {a : α} (hp : P a h) : Yields guard (pure a : ExceptT ε (Prog Op Res) α) P h := by
  rintro _ ⟨⟩
  exact hp

theorem throws {e : ε} : Yields guard (throw e : ExceptT ε (Prog Op Res) α) P h := nofun

theorem mono (hx : Yields guard x P h) (hp : ∀ a h', h <:+ h' → P a h' → P' a h') :
    Yields guard x P' h :=
  Guarded.mono hx fun _ h' hle hr a ha => hp a h' hle (hr a ha)

theorem bind {f : α → ExceptT ε (Prog Op Res) β} {Q : β → History Op Res → Prop}
    (hx : Yields guard x P h) (hf : ∀ a h', h <:+ h' → P a h' → Yields guard (f a) Q h') :
    Yields guard (x >>= f) Q h :=
  Guarded.seqExcept hx (fun a h' hle ha => hf a h' hle (ha a rfl)) fun _ _ _ _ => nofun

theorem bindLift {p : Prog Op Res α} {f : α → ExceptT ε (Prog Op Res) β}
    {Q : β → History Op Res → Prop} (hp : Guarded guard p P h)
    (hf : ∀ a h', h <:+ h' → P a h' → Yields guard (f a) Q h') :
    Yields guard ((liftM p : ExceptT ε (Prog Op Res) α) >>= f) Q h :=
  Guarded.seqLift hp hf

theorem lift {p : Prog Op Res α} (hp : Guarded guard p P h) :
    Yields guard (liftM p : ExceptT ε (Prog Op Res) α) P h := by
  refine Guarded.map (hp.mono fun a h' _ ha a' hsame => ?_)
  exact Except.ok.inj hsame ▸ ha

theorem ask {o : Op} {f : Res o → ExceptT ε (Prog Op Res) β} {Q : β → History Op Res → Prop}
    (ho : guard h o) (hf : ∀ r, Yields guard (f r) Q (⟨o, r⟩ :: h)) :
    Yields guard ((liftM (Effects.call o) : ExceptT ε (Prog Op Res) (Res o)) >>= f) Q h := by
  unfold Yields
  rw [run_lift_bind]
  exact Guarded.ask ho hf

theorem tryCatch {handle : ε → ExceptT ε (Prog Op Res) α} (hx : Yields guard x P h)
    (hhandle : ∀ e h', h <:+ h' → Yields guard (handle e) P h') :
    Yields guard (tryCatch x handle) P h := by
  unfold Yields
  rw [ExceptT.run_tryCatch]
  refine Guarded.seq hx fun r h' hle hr => ?_
  cases r with
  | ok a => exact hr
  | error e => exact hhandle e h' hle

end Yields

-- -----
-- Programs that only ask certain things
-- -----

def Prog.Only (ok : Op → Prop) : Prog Op Res α → Prop
  | .ret _ => True
  | .op o k => ok o ∧ ∀ r, (k r).Only ok

/-- What was asked between two histories was all of a kind. -/
def Extends (ok : Op → Prop) (h h' : History Op Res) : Prop :=
  ∃ asked, h' = asked ++ h ∧ ∀ entry ∈ asked, ok entry.1

namespace Extends

variable {ok : Op → Prop} {h h' h'' : History Op Res}

theorem refl : Extends ok h h := ⟨[], rfl, nofun⟩

theorem cons {o : Op} {r : Res o} (ho : ok o) (hrest : Extends ok (⟨o, r⟩ :: h) h') :
    Extends ok h h' := by
  obtain ⟨asked, rfl, hall⟩ := hrest
  refine ⟨asked ++ [⟨o, r⟩], by simp, fun entry hmem => ?_⟩
  rcases List.mem_append.mp hmem with hasked | hfirst
  · exact hall entry hasked
  · rw [List.mem_singleton.mp hfirst]
    exact ho

/-- What an entry of the kind leaves as it is, all of them do. -/
theorem preserves {P : History Op Res → Prop} (hP : ∀ o r h, ok o → P h → P (⟨o, r⟩ :: h))
    (hext : Extends ok h h') (hh : P h) : P h' := by
  obtain ⟨asked, rfl, hall⟩ := hext
  induction asked with
  | nil => exact hh
  | cons entry asked ih =>
    exact hP entry.1 entry.2 _ (hall entry List.mem_cons_self)
      (ih fun e he => hall e (List.mem_cons_of_mem _ he))

end Extends

namespace Prog.Only

variable {ok ok' : Op → Prop} {p : Prog Op Res α}

theorem mono (hp : p.Only ok) (hok : ∀ o, ok o → ok' o) : p.Only ok' := by
  induction p with
  | ret a => trivial
  | op o k ih => exact ⟨hok o hp.1, fun r => ih r (hp.2 r)⟩

theorem bind {f : α → Prog Op Res β} (hp : p.Only ok) (hf : ∀ a, (f a).Only ok) :
    (p >>= f).Only ok := by
  induction p with
  | ret a => exact hf a
  | op o k ih => exact ⟨hp.1, fun r => ih r (hp.2 r)⟩

theorem guarded (hp : p.Only ok) (hok : ∀ h o, ok o → guard h o) :
    Guarded guard p (fun _ h' => Extends ok h h') h := by
  induction p generalizing h with
  | ret a => exact Extends.refl
  | op o k ih =>
    exact ⟨hok h o hp.1, fun r => (ih r (hp.2 r)).mono fun _ _ _ hext => hext.cons hp.1⟩

end Prog.Only

/-- Of a program that may throw. -/
def Asks (ok : Op → Prop) (x : ExceptT ε (Prog Op Res) α) : Prop := x.run.Only ok

namespace Asks

variable {ok ok' : Op → Prop} {x : ExceptT ε (Prog Op Res) α}

theorem mono (hx : Asks ok x) (hok : ∀ o, ok o → ok' o) : Asks ok' x := Prog.Only.mono hx hok

theorem ret {a : α} : Asks ok (pure a : ExceptT ε (Prog Op Res) α) := trivial

theorem throws {e : ε} : Asks ok (throw e : ExceptT ε (Prog Op Res) α) := trivial

theorem ask {o : Op} (ho : ok o) :
    Asks ok (liftM (Effects.call o) : ExceptT ε (Prog Op Res) (Res o)) :=
  ⟨ho, fun _ => trivial⟩

theorem bind {f : α → ExceptT ε (Prog Op Res) β} (hx : Asks ok x) (hf : ∀ a, Asks ok (f a)) :
    Asks ok (x >>= f) := by
  unfold Asks
  rw [ExceptT.run_bind]
  refine Prog.Only.bind hx fun r => ?_
  cases r with
  | ok a => exact hf a
  | error e => trivial

theorem tryCatch {handle : ε → ExceptT ε (Prog Op Res) α} (hx : Asks ok x)
    (hhandle : ∀ e, Asks ok (handle e)) : Asks ok (tryCatch x handle) := by
  unfold Asks
  rw [ExceptT.run_tryCatch]
  refine Prog.Only.bind hx fun r => ?_
  cases r with
  | ok a => trivial
  | error e => exact hhandle e

theorem yields (hx : Asks ok x) (hok : ∀ h o, ok o → guard h o) :
    Yields guard x (fun _ h' => Extends ok h h') h :=
  (Prog.Only.guarded hx hok).mono fun _ _ _ hext _ _ => hext

end Asks

/-- An operation between two histories of a run, with its answer. -/
def Answered (h h' : History Op Res) (o : Op) (r : Res o) : Prop :=
  ∃ earlier, h <:+ earlier ∧ (⟨o, r⟩ :: earlier) <:+ h'

namespace Answered

variable {h₀ h₁ : History Op Res} {o : Op} {r : Res o}

theorem head : Answered h (⟨o, r⟩ :: h) o r := ⟨h, List.suffix_refl _, List.suffix_refl _⟩

theorem later (ha : Answered h h' o r) (hle : h' <:+ h₁) : Answered h h₁ o r :=
  let ⟨earlier, hwithin, hsuffix⟩ := ha
  ⟨earlier, hwithin, hsuffix.trans hle⟩

theorem sooner (ha : Answered h h' o r) (hle : h₀ <:+ h) : Answered h₀ h' o r :=
  let ⟨earlier, hwithin, hsuffix⟩ := ha
  ⟨earlier, hle.trans hwithin, hsuffix⟩

end Answered

-- -----
-- Runs with given answers
-- -----

/-- A run, computed from a function that answers. -/
def Prog.answered (answer : History Op Res → (o : Op) → Res o) :
    Prog Op Res α → History Op Res → α × History Op Res
  | .ret a, h => (a, h)
  | .op o k, h => (k (answer h o)).answered answer (⟨o, answer h o⟩ :: h)

theorem Prog.answered_runs (answer : History Op Res → (o : Op) → Res o) (p : Prog Op Res α)
    (h : History Op Res) : Runs recording h p (p.answered answer h).1 (p.answered answer h).2 := by
  induction p generalizing h with
  | ret a => exact .ret
  | op o k ih => exact .op rfl (ih _ _)

end Effects
