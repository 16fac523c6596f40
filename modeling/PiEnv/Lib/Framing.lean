import Mathlib.Data.List.Chain
import Mathlib.Data.List.Infix

/-!
# Framed texts

Bodies between a start mark and a stop mark, one behind the other. They are
told apart as long as no body holds a stop mark right before a start mark.
-/

namespace Framing

variable {α : Type} (start stop : α)

section
variable {start stop}

/-- A mark that may stand beside anything cuts a chain into two. -/
theorem isChain_mark {R : α → α → Prop} {mark : α} (hleft : ∀ a, R a mark) (hright : ∀ b, R mark b)
    {xs ys : List α} : (xs ++ mark :: ys).IsChain R ↔ xs.IsChain R ∧ ys.IsChain R := by
  rw [List.isChain_append]
  constructor
  · rintro ⟨hx, hy, -⟩
    exact ⟨hx, hy.tail⟩
  · rintro ⟨hx, hy⟩
    refine ⟨hx, ?_, fun a _ b hb => ?_⟩
    · cases ys with
      | nil => exact List.IsChain.singleton mark
      | cons b ys => exact List.isChain_cons_cons.mpr ⟨hright b, hy⟩
    · obtain rfl : mark = b := by simpa using hb
      exact hleft a

theorem isChain_of_mem {R : α → α → Prop} :
    ∀ {xs : List α}, (∀ a ∈ xs, ∀ b, R a b) → xs.IsChain R
  | [], _ => List.IsChain.nil
  | [a], _ => List.IsChain.singleton a
  | a :: b :: xs, h =>
    List.isChain_cons_cons.mpr
      ⟨h a (by simp) b, isChain_of_mem fun c hc => h c (List.mem_cons_of_mem a hc)⟩

end

def frame (body : List α) : List α := start :: (body ++ [stop])

def frames (bodies : List (List α)) : List α := bodies.flatMap (frame start stop)

/-- No stop mark stands right before a start mark. -/
def Unbroken (text : List α) : Prop := text.IsChain fun a b => ¬ (a = stop ∧ b = start)

instance [DecidableEq α] (text : List α) : Decidable (Unbroken start stop text) :=
  inferInstanceAs (Decidable (List.IsChain _ text))

variable {start stop}

theorem Unbroken.tail {a : α} {text : List α} (h : Unbroken start stop (a :: text)) :
    Unbroken start stop text :=
  List.IsChain.tail h

/-- What stands behind a body: nothing, or the next frame. -/
theorem frames_start (bodies : List (List α)) :
    frames start stop bodies = [] ∨ ∃ rest, frames start stop bodies = start :: rest := by
  cases bodies with
  | nil => exact .inl rfl
  | cons body rest => exact .inr ⟨_, rfl⟩

theorem stop_not_early (hne : start ≠ stop) {body rest : List α} {bodies : List (List α)}
    (hbody : Unbroken start stop (stop :: body))
    (h : frames start stop bodies = body ++ stop :: rest) : False := by
  have hstart : frames start stop bodies = [] ∨ ∃ rest, frames start stop bodies = start :: rest :=
    frames_start bodies
  rcases hstart with hnil | ⟨_, hcons⟩
  · simp [hnil] at h
  · rw [hcons] at h
    cases body with
    | nil => exact hne (List.cons.inj h).1
    | cons a body =>
      obtain rfl := (List.cons.inj h).1
      exact (List.isChain_cons_cons.mp hbody).1 ⟨rfl, rfl⟩

/-- Two bodies that end before frames are one where the texts are one. -/
theorem body_unique (hne : start ≠ stop) {xs ys : List (List α)} :
    ∀ {x y : List α}, Unbroken start stop x → Unbroken start stop y →
      x ++ stop :: frames start stop xs = y ++ stop :: frames start stop ys →
      x = y ∧ frames start stop xs = frames start stop ys
  | [], [], _, _, h => ⟨rfl, (List.cons.inj h).2⟩
  | [], b :: y, _, hy, h => by
    obtain ⟨rfl, hlater⟩ := List.cons.inj h
    exact (stop_not_early hne hy hlater).elim
  | a :: x, [], hx, _, h => by
    obtain ⟨rfl, hlater⟩ := List.cons.inj h
    exact (stop_not_early hne hx hlater.symm).elim
  | a :: x, b :: y, hx, hy, h => by
    obtain ⟨rfl, hlater⟩ := List.cons.inj h
    obtain ⟨rfl, hrest⟩ := body_unique hne hx.tail hy.tail hlater
    exact ⟨rfl, hrest⟩

/-- One text holds one list of bodies. -/
theorem frames_injective (hne : start ≠ stop) :
    ∀ {xs ys : List (List α)}, (∀ x ∈ xs, Unbroken start stop x) →
      (∀ y ∈ ys, Unbroken start stop y) → frames start stop xs = frames start stop ys → xs = ys
  | [], [], _, _, _ => rfl
  | [], _ :: _, _, _, h => nomatch h
  | _ :: _, [], _, _, h => nomatch h
  | x :: xs, y :: ys, hx, hy, h => by
    have hcons : x ++ stop :: frames start stop xs = y ++ stop :: frames start stop ys := by
      simpa [frames, frame] using h
    obtain ⟨rfl, hrest⟩ := body_unique hne (hx x (by simp)) (hy y (by simp)) hcons
    rw [frames_injective hne (fun x hm => hx x (by simp [hm])) (fun y hm => hy y (by simp [hm])) hrest]

end Framing
