/-!
# Reading page after page

A read takes a cursor and a limit and gives a page, which may name the cursor
of the next one. When each page takes its items off what is left, the pages
that follow one another give everything exactly once.
-/

namespace Paging

variable {ε κ π α : Type} (read : Option κ → Nat → Except ε π) (next : π → Option κ)

/-- The pages of successive reads, each at the cursor of the page before, until
a page names none. The `k`-th call has the limit `limits k`. -/
inductive Follows : (Nat → Nat) → Option κ → List π → Prop
  | last {limits : Nat → Nat} {cursor : Option κ} {page : π}
      (h : read cursor (limits 0) = .ok page) (hn : next page = none) :
      Follows limits cursor [page]
  | more {limits : Nat → Nat} {cursor : Option κ} {page : π} {c : κ} {pages : List π}
      (h : read cursor (limits 0) = .ok page) (hn : next page = some c)
      (rest : Follows (fun k => limits (k + 1)) (some c) pages) :
      Follows limits cursor (page :: pages)

/-- Successive reads that come to a refusal. -/
inductive Fails : (Nat → Nat) → Option κ → ε → Prop
  | now {limits : Nat → Nat} {cursor : Option κ} {e : ε} (h : read cursor (limits 0) = .error e) :
      Fails limits cursor e
  | later {limits : Nat → Nat} {cursor : Option κ} {page : π} {c : κ} {e : ε}
      (h : read cursor (limits 0) = .ok page) (hn : next page = some c)
      (rest : Fails (fun k => limits (k + 1)) (some c) e) : Fails limits cursor e

variable {read}

section
variable {next}

/-- Reads that come to a refusal give no last page. -/
theorem Fails.not_follows {limits : Nat → Nat} {cursor : Option κ} {e : ε} {pages : List π}
    (h : Fails read next limits cursor e) : ¬ Follows read next limits cursor pages := by
  induction h generalizing pages with
  | now h =>
    intro hf
    cases hf with
    | last h' _ => simp [h] at h'
    | more h' _ _ => simp [h] at h'
  | later h hn rest ih =>
    intro hf
    cases hf with
    | last h' hn' =>
      rw [h] at h'
      cases Except.ok.inj h'
      rw [hn] at hn'
      cases hn'
    | more h' hn' hf =>
      rw [h] at h'
      cases Except.ok.inj h'
      rw [hn] at hn'
      cases Option.some.inj hn'
      exact ih hf
end

/-- What a page must be at a cursor where `rest` is left. -/
structure Takes (items : π → List α) (at_ : Option κ → List α → Nat → Prop)
    (good : Nat → π → Prop) (limit : Nat) (rest : List α) (size : Nat) (page : π) : Prop where
  good : good limit page
  last : next page = none → items page = rest
  more : ∀ c, next page = some c → ∃ rest' size', items page ++ rest' = rest ∧ size' < size ∧
    at_ (some c) rest' size'

variable {next}

/-- Where every read takes its page off what is left and something gets
smaller, the pages end and give everything in order. -/
theorem exists_follows {items : π → List α} {at_ : Option κ → List α → Nat → Prop}
    {good : Nat → π → Prop}
    (step : ∀ cursor rest size limit, at_ cursor rest size → 0 < limit →
      ∃ page, read cursor limit = .ok page ∧ Takes next items at_ good limit rest size page)
    {cursor : Option κ} {rest : List α} {size : Nat} (h : at_ cursor rest size)
    {limits : Nat → Nat} (hl : ∀ k, 0 < limits k) :
    ∃ pages, Follows read next limits cursor pages ∧ pages.flatMap items = rest ∧
      ∀ k page, pages[k]? = some page → good (limits k) page := by
  induction size using Nat.strongRecOn generalizing cursor rest limits with
  | ind size ih =>
    obtain ⟨page, hread, htakes⟩ := step cursor rest size (limits 0) h (hl 0)
    cases hn : next page with
    | none =>
      refine ⟨[page], .last hread hn, by simp [htakes.last hn], fun k p hk => ?_⟩
      cases k with
      | zero =>
        obtain rfl : page = p := by simpa using hk
        exact htakes.good
      | succ k => simp at hk
    | some c =>
      obtain ⟨rest', size', hrest, hsize, hat⟩ := htakes.more c hn
      have hlater : ∀ k, 0 < (fun k => limits (k + 1)) k := fun k => hl (k + 1)
      obtain ⟨pages, hf, hi, hg⟩ := ih size' hsize hat hlater
      refine ⟨page :: pages, .more hread hn hf, by simp [hi, hrest], fun k p hk => ?_⟩
      cases k with
      | zero =>
        obtain rfl : page = p := by simpa using hk
        exact htakes.good
      | succ k => exact hg k p (by simpa using hk)

/-- Where every read that does not end the pages goes on with less, and what is
said of the pages behind a page comes to what is said of all, the pages end. -/
theorem exists_chain {σ : Type} {ok : Nat → Prop} {at_ : Option κ → σ → Prop} (size : σ → Nat)
    {said : σ → List π → Prop}
    (step : ∀ cursor s limit, at_ cursor s → ok limit → ∃ page, read cursor limit = .ok page ∧
      ((next page = none ∧ said s [page]) ∨
        ∃ c s', next page = some c ∧ at_ (some c) s' ∧ size s' < size s ∧
          ∀ pages, said s' pages → said s (page :: pages)))
    {cursor : Option κ} {s : σ} (h : at_ cursor s) {limits : Nat → Nat} (hl : ∀ k, ok (limits k)) :
    ∃ pages, Follows read next limits cursor pages ∧ said s pages := by
  induction hsize : size s using Nat.strongRecOn generalizing cursor s limits with
  | ind n ih =>
    obtain ⟨page, hread, ⟨hn, hsaid⟩ | ⟨c, s', hn, hat, hless, hsaid⟩⟩ := step cursor s (limits 0) h (hl 0)
    · exact ⟨[page], .last hread hn, hsaid⟩
    · have hlater : ∀ k, ok ((fun k => limits (k + 1)) k) := fun k => hl (k + 1)
      obtain ⟨pages, hfollows, hpages⟩ := ih (size s') (hsize ▸ hless) hat hlater rfl
      exact ⟨page :: pages, .more hread hn hfollows, hsaid pages hpages⟩

end Paging
