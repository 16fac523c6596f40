import Mathlib.Logic.Relation
import PiEnv.Subagent.JobStates

/-!
# The results that are retained

The terminal jobs that are retained are the last ones that ended, as long as the
jobs end in the order they were created in: those that are pruned are the ones
created first.
-/

namespace PiEnv.Subagent.Jobs

open Js

-- -----
-- What is promised
-- -----

def State.get (s : State) (j : Nat) : Option SubagentJob :=
  if j ∈ s.retained then s.jobs[j]? else none

/-- The jobs that have ended, in the order in which they did: each is recorded then. -/
def State.ended (s : State) : List Nat :=
  (s.entries.filter fun entry => terminal entry.2.status).map (·.1)

/-- A job that has ended can be got until `maxRetainedJobs` others have ended after it. -/
def Retrievable (maxRetainedJobs : Nat) (s : State) : Prop :=
  ∀ j, s.isTerminal j = true → ∃ before after, s.ended = before ++ j :: after ∧
    ((s.get j).isSome = true ∨ maxRetainedJobs ≤ after.length)

def State.createdAt (s : State) (j : Nat) : Nat := (s.jobs[j]?.map (·.createdAt)).getD 0

/-- Two jobs that were created at one time were created in the order of their numbers. -/
def State.createdBefore (s : State) (i j : Nat) : Prop :=
  s.createdAt i < s.createdAt j ∨ s.createdAt i = s.createdAt j ∧ i < j

/-- Of jobs that end one after the other, as many as are retained and one more, the
first was created first. -/
def InCreationOrder (maxRetainedJobs : Nat) (s : State) : Prop :=
  ∀ before i next after, s.ended = before ++ i :: (next ++ after) → next.length = maxRetainedJobs →
    ∀ j ∈ next, s.createdBefore i j

-- -----
-- Invariant
-- -----

def lastOf (n : Nat) (js : List Nat) : List Nat := js.drop (js.length - n)

structure Retention (maxRetainedJobs : Nat) (s : State) : Prop where
  sorted : s.retained.Pairwise (· < ·)
  known : ∀ j ∈ s.retained, j < s.jobs.length
  opened : ∀ j < s.jobs.length, s.isTerminal j = false → j ∈ s.retained
  ended : ∀ j, j ∈ s.ended ↔ s.isTerminal j = true
  nodup : s.ended.Nodup
  bounded : (s.retained.filter s.isTerminal).length ≤ maxRetainedJobs
  last : InCreationOrder maxRetainedJobs s → ∀ j ∈ lastOf maxRetainedJobs s.ended, j ∈ s.retained

variable {config : Config} {s s' : State} {j : Nat} {job : SubagentJob} {max : Nat}

theorem initial_retention : Retention max initial where
  sorted := .nil
  known j hj := absurd hj List.not_mem_nil
  opened j hj := absurd hj (Nat.not_lt_zero j)
  ended j := by
    constructor
    · exact fun h => absurd h List.not_mem_nil
    · intro h
      rw [State.isTerminal, initial, List.getElem?_nil] at h
      cases h
  nodup := .nil
  bounded := Nat.zero_le _
  last _ j hj := by
    rw [lastOf, initial] at hj
    exact absurd (List.mem_of_mem_drop hj) List.not_mem_nil

-- -----
-- Pruning
-- -----

/-- The sort leaves elements with one key in their order. -/
theorem insertionSort_head (key : Nat → Nat) {first : Nat} {js : List Nat} (hmem : first ∈ js)
    (hsorted : js.Pairwise (· < ·))
    (hfirst : ∀ j ∈ js, j = first ∨ key first < key j ∨ key first = key j ∧ first < j) :
    ∃ rest, js.insertionSort (fun i j => key i ≤ key j) = first :: rest := by
  induction js with
  | nil => cases hmem
  | cons i js ih =>
    obtain ⟨hi, hjs⟩ := List.pairwise_cons.mp hsorted
    rw [List.insertionSort_cons]
    by_cases heq : i = first
    · subst heq
      cases hrest : js.insertionSort fun i j => key i ≤ key j with
      | nil => exact ⟨[], rfl⟩
      | cons j rest =>
        have hj : j ∈ js := by
          have hmem : j ∈ js.insertionSort fun i j => key i ≤ key j := by
            rw [hrest]
            exact List.mem_cons_self
          exact (List.mem_insertionSort _).mp hmem
        have hle : key i ≤ key j := by
          rcases hfirst j (List.mem_cons_of_mem _ hj) with rfl | hlt | ⟨heq, -⟩
          · exact le_rfl
          · exact hlt.le
          · exact heq.le
        refine ⟨j :: rest, ?_⟩
        rw [List.orderedInsert_cons, if_pos hle]
    · have hlater : first ∈ js := (List.mem_cons.mp hmem).resolve_left fun h => heq h.symm
      obtain ⟨rest, hrest⟩ := ih hlater hjs fun j hj => hfirst j (List.mem_cons_of_mem _ hj)
      have hlt : key first < key i := by
        rcases hfirst i List.mem_cons_self with h | hlt | ⟨-, hlt⟩
        · exact absurd h heq
        · exact hlt
        · exact absurd (hi first hlater) hlt.not_gt
      refine ⟨rest.orderedInsert (fun i j => key i ≤ key j) i, ?_⟩
      rw [hrest, List.orderedInsert_cons, if_neg hlt.not_ge]

/-- A state in which one job more than before has ended, before the pruning. -/
structure Ends (j : Nat) (s s' : State) : Prop where
  length : s'.jobs.length = s.jobs.length
  known : j < s.jobs.length
  opened : s.isTerminal j = false
  terminal : ∀ i, s'.isTerminal i = (i == j || s.isTerminal i)
  createdAt : ∀ i, s'.createdAt i = s.createdAt i
  retained : s'.retained = s.retained
  ended : s'.ended = s.ended ++ [j]

theorem InCreationOrder.before {js : List Nat} (h : InCreationOrder max s')
    (hcreated : ∀ i ∈ s.ended, s'.createdAt i = s.createdAt i) (hended : s'.ended = s.ended ++ js) :
    InCreationOrder max s := by
  intro before i next after heq hlength k hk
  have hall := h before i next (after ++ js) (by simp [hended, heq]) hlength k hk
  rwa [State.createdBefore, hcreated i (by simp [heq]), hcreated k (by simp [heq, hk])] at hall

theorem mem_lastOf_append {i : Nat} {js : List Nat} (h : i ∈ lastOf max (js ++ [j])) :
    i ∈ lastOf max js ∨ i = j := by
  rw [lastOf, List.drop_append] at h
  rcases List.mem_append.mp h with hold | hnew
  · have hle : js.length - max ≤ (js ++ [j]).length - max := by
      rw [List.length_append]
      omega
    exact .inl ((List.drop_sublist_drop_left js hle).subset hold)
  · exact .inr (List.mem_singleton.mp (List.mem_of_mem_drop hnew))

/-- Where as many jobs as are retained have ended before, the last ones and the one
that ends now are one more. -/
theorem window_append (j : Nat) {js : List Nat} (hlength : max ≤ js.length) :
    ∃ before i next, js ++ [j] = before ++ i :: next ∧ next.length = max ∧
      lastOf max js ++ [j] = i :: next ∧ lastOf max (js ++ [j]) = next := by
  have hdrop : (js ++ [j]).drop (js.length - max) = lastOf max js ++ [j] :=
    List.drop_append_of_le_length (Nat.sub_le _ _)
  have hsize : (lastOf max js ++ [j]).length = max + 1 := by
    rw [List.length_append, lastOf, List.length_drop, List.length_singleton]
    omega
  cases hwindow : lastOf max js ++ [j] with
  | nil =>
    rw [hwindow] at hsize
    cases hsize
  | cons i next =>
    rw [hwindow] at hdrop hsize
    refine ⟨(js ++ [j]).take (js.length - max), i, next, ?_, Nat.succ.inj hsize, rfl, ?_⟩
    · rw [← hdrop]
      exact (List.take_append_drop (js.length - max) _).symm
    · have hstart : (js ++ [j]).length - max = js.length - max + 1 := by
        rw [List.length_append, List.length_singleton]
        omega
      rw [lastOf, hstart, ← List.drop_drop, hdrop]
      rfl

section
variable (hs : Retention max s) (h : Ends j s s')
include hs h

theorem Ends.nodup : s'.ended.Nodup := by
  rw [h.ended]
  refine List.nodup_append.mpr ⟨hs.nodup, List.nodup_singleton j, ?_⟩
  rintro i hi k hk rfl
  obtain rfl := List.mem_singleton.mp hk
  have hterminal := (hs.ended i).mp hi
  rw [h.opened] at hterminal
  cases hterminal

theorem Ends.mem_ended (i : Nat) : i ∈ s'.ended ↔ s'.isTerminal i = true := by
  rw [h.ended, h.terminal, List.mem_append, List.mem_singleton, hs.ended, Bool.or_eq_true,
    beq_iff_eq]
  exact or_comm

theorem Ends.retains (horder : InCreationOrder max s') {i : Nat}
    (hi : i ∈ lastOf max s.ended ∨ i = j) : i ∈ s'.retained := by
  rw [h.retained]
  rcases hi with hold | rfl
  · exact hs.last (horder.before (fun i _ => h.createdAt i) h.ended) i hold
  · exact hs.opened i h.known h.opened

theorem Ends.terminal_length : (s'.retained.filter s'.isTerminal).length ≤ max + 1 := by
  have hsub : s'.retained.filter s'.isTerminal ⊆ j :: s.retained.filter s.isTerminal := by
    intro i hi
    obtain ⟨hmem, hterminal⟩ := List.mem_filter.mp hi
    rw [h.terminal, Bool.or_eq_true, beq_iff_eq] at hterminal
    rcases hterminal with rfl | hold
    · exact List.mem_cons_self
    · exact List.mem_cons_of_mem _ (List.mem_filter.mpr ⟨h.retained ▸ hmem, hold⟩)
  have hnodup : (s'.retained.filter s'.isTerminal).Nodup := by
    rw [h.retained]
    exact (hs.sorted.imp fun hlt => hlt.ne).filter _
  have hlength := (List.subperm_of_subset hnodup hsub).length_le
  rw [List.length_cons] at hlength
  exact hlength.trans (Nat.succ_le_succ hs.bounded)

/-- What is pruned is not among the last jobs that ended. -/
theorem Ends.removed (horder : InCreationOrder max s') {i : Nat}
    (hi : i ∈ ((s'.retained.filter s'.isTerminal).insertionSort fun i j =>
      s'.createdAt i ≤ s'.createdAt j).take ((s'.retained.filter s'.isTerminal).length - max)) :
    i ∉ lastOf max s'.ended := by
  have hsorted : (s'.retained.filter s'.isTerminal).Pairwise (· < ·) := by
    rw [h.retained]
    exact hs.sorted.filter _
  have hnodup := hsorted.imp fun hlt => hlt.ne
  have hsize := h.terminal_length hs
  generalize hjobs : s'.retained.filter s'.isTerminal = js at hi hsorted hnodup hsize
  have hfull : js.length = max + 1 := by
    by_contra hne
    have hle : js.length - max = 0 := by omega
    rw [hle] at hi
    exact List.not_mem_nil hi
  -- All the jobs that are retained have ended, so that many have.
  have hended : js ⊆ s'.ended := by
    intro k hk
    rw [← hjobs] at hk
    exact (h.mem_ended hs k).mpr (List.mem_filter.mp hk).2
  have hmany : max ≤ s.ended.length := by
    have hlength := (List.subperm_of_subset hnodup hended).length_le
    rw [h.ended, hfull, List.length_append] at hlength
    exact Nat.le_of_succ_le_succ hlength
  obtain ⟨before, first, next, hsplit, hnext, hwindow, hlast⟩ := window_append j hmany
  rw [← h.ended] at hsplit hlast
  have hunique : (first :: next).Nodup :=
    (List.nodup_append.mp (hsplit ▸ h.nodup hs)).2.1
  have hwithin : first :: next ⊆ js := by
    intro k hk
    have hmem : k ∈ s'.ended := by
      rw [hsplit]
      exact List.mem_append_right _ hk
    rw [← hwindow, List.mem_append, List.mem_singleton] at hk
    rw [← hjobs]
    exact List.mem_filter.mpr ⟨h.retains hs horder hk, (h.mem_ended hs k).mp hmem⟩
  have hperm : (first :: next).Perm js := by
    refine (List.subperm_of_subset hunique hwithin).perm_of_length_le ?_
    rw [hfull, List.length_cons, hnext]
  obtain ⟨rest, hrest⟩ := insertionSort_head s'.createdAt
    (hperm.mem_iff.mp List.mem_cons_self) hsorted fun k hk => by
      rcases List.mem_cons.mp (hperm.mem_iff.mpr hk) with rfl | hk
      · exact .inl rfl
      · exact .inr (horder before first next [] (by rw [hsplit, List.append_nil]) hnext k hk)
  have hone : max + 1 - max = 1 := Nat.add_sub_cancel_left max 1
  rw [hrest, hfull, hone] at hi
  obtain rfl := List.mem_singleton.mp hi
  rw [hlast]
  exact (List.nodup_cons.mp hunique).1

/-- One job more has ended, and the pruning has run. -/
theorem Ends.retention (hmax : max = config.maxRetainedJobs) :
    Retention max (s'.pruneTerminalJobs config) := by
  subst hmax
  have hsorted : s'.retained.Pairwise (· < ·) := h.retained ▸ hs.sorted
  have hunique : s'.ended.Nodup := h.nodup hs
  have hended : ∀ i, i ∈ s'.ended ↔ s'.isTerminal i = true := h.mem_ended hs
  refine ⟨hsorted.filter _, ?_, ?_, hended, hunique, ?_, ?_⟩
  · intro i hi
    rw [State.pruneTerminalJobs, h.length]
    exact hs.known i (h.retained ▸ (List.mem_filter.mp hi).1)
  · intro i hi hopen
    replace hi : i < s'.jobs.length := hi
    replace hopen : s'.isTerminal i = false := hopen
    refine List.mem_filter.mpr ⟨?_, ?_⟩
    · rw [h.length] at hi
      rw [h.terminal, Bool.or_eq_false_iff] at hopen
      exact h.retained ▸ hs.opened i hi hopen.2
    · rw [decide_eq_true_eq]
      intro hremoved
      have hterminal := (List.mem_insertionSort _).mp (List.mem_of_mem_take hremoved)
      exact absurd ((List.mem_filter.mp hterminal).2) (Bool.not_eq_true _ ▸ hopen)
  · -- What is terminal and not removed comes behind what is removed.
    generalize hjobs : (s'.retained.filter s'.isTerminal).insertionSort
      (fun i j => s'.createdAt i ≤ s'.createdAt j) = js
    have hsub : ((s'.pruneTerminalJobs config).retained.filter s'.isTerminal) ⊆
        js.drop (js.length - config.maxRetainedJobs) := by
      intro i hi
      obtain ⟨hkept, hterminal⟩ := List.mem_filter.mp hi
      obtain ⟨hmem, hnot⟩ := List.mem_filter.mp hkept
      have hin : i ∈ js := by
        rw [← hjobs]
        exact (List.mem_insertionSort _).mpr (List.mem_filter.mpr ⟨hmem, hterminal⟩)
      rw [← List.take_append_drop (js.length - config.maxRetainedJobs) js] at hin
      refine (List.mem_append.mp hin).resolve_left fun hremoved => ?_
      rw [← hjobs] at hremoved
      exact of_decide_eq_true hnot hremoved
    have hnodup : ((s'.pruneTerminalJobs config).retained.filter s'.isTerminal).Nodup :=
      ((hsorted.imp fun hlt => hlt.ne).filter _).filter _
    have hlength := (List.subperm_of_subset hnodup hsub).length_le
    rw [List.length_drop] at hlength
    refine hlength.trans ?_
    omega
  · intro horder i hi
    refine List.mem_filter.mpr ⟨?_, ?_⟩
    · refine h.retains hs horder (mem_lastOf_append ?_)
      rw [← h.ended]
      exact hi
    · rw [decide_eq_true_eq]
      intro hremoved
      refine h.removed hs horder ?_ hi
      rw [← List.length_insertionSort (fun i j => s'.createdAt i ≤ s'.createdAt j)]
      exact hremoved

end

-- -----
-- Moves
-- -----

/-- Nothing that decides what is retained has changed. -/
structure Alike (s s' : State) : Prop where
  length : s'.jobs.length = s.jobs.length
  terminal : ∀ i, s'.isTerminal i = s.isTerminal i
  createdAt : ∀ i, s'.createdAt i = s.createdAt i
  retained : s'.retained = s.retained
  ended : s'.ended = s.ended

/-- What a step is made of. -/
inductive Move (config : Config) : State → State → Prop where
  | alike {s s' : State} : Alike s s' → Move config s s'
  | add {s : State} {job : SubagentJob} : terminal job.status = false → Move config s (s.add job)
  | ends {s s' : State} {j : Nat} : Ends j s s' → Move config s (s'.pruneTerminalJobs config)

/-- What an operation does. -/
def Moved (config : Config) : State → State → Prop := Relation.ReflTransGen (Move config)

theorem Alike.retention (h : Alike s s') (hs : Retention max s) : Retention max s' where
  sorted := h.retained ▸ hs.sorted
  known i hi := by
    rw [h.length]
    exact hs.known i (h.retained ▸ hi)
  opened i hi hopen := by
    rw [h.length] at hi
    rw [h.terminal] at hopen
    exact h.retained ▸ hs.opened i hi hopen
  ended i := by rw [h.ended, h.terminal, hs.ended]
  nodup := h.ended ▸ hs.nodup
  bounded := by
    rw [h.retained, funext h.terminal]
    exact hs.bounded
  last horder i hi := by
    rw [h.ended] at hi
    rw [h.retained]
    exact hs.last (horder.before (fun i _ => h.createdAt i) (by rw [h.ended, List.append_nil])) i hi

theorem add_length (s : State) (job : SubagentJob) :
    (s.add job).jobs.length = s.jobs.length + 1 :=
  List.length_append

theorem add_getElem? (s : State) (job : SubagentJob) (i : Nat) :
    (s.add job).jobs[i]? = if i = s.jobs.length then some job else s.jobs[i]? := by
  replace : (s.add job).jobs[i]? = (s.jobs ++ [job])[i]? := rfl
  rw [this]
  split
  · rename_i h
    rw [h, List.getElem?_concat_length]
  · rename_i h
    rcases Nat.lt_or_gt_of_ne h with hlt | hgt
    · rw [List.getElem?_append_left hlt]
    · rw [List.getElem?_eq_none hgt.le, List.getElem?_eq_none]
      rw [List.length_append, List.length_singleton]
      exact hgt

theorem add_isTerminal (s : State) (job : SubagentJob) (i : Nat) :
    (s.add job).isTerminal i =
      if i = s.jobs.length then terminal job.status else s.isTerminal i := by
  rw [State.isTerminal, add_getElem?]
  split <;> rfl

theorem isTerminal_lt (h : s.isTerminal j = true) : j < s.jobs.length := by
  obtain ⟨job, hj, -⟩ := (Option.any_eq_true _ _).mp h
  exact (List.getElem?_eq_some_iff.mp hj).1

theorem add_ended (s : State) (job : SubagentJob) :
    (s.add job).ended = s.ended ++ if terminal job.status then [s.jobs.length] else [] := by
  replace : (s.add job).ended =
    ((s.entries ++ [(s.jobs.length, job)]).filter fun entry => terminal entry.2.status).map (·.1) := rfl
  rw [this, List.filter_append, List.map_append, State.ended]
  congr 1
  cases h : terminal job.status <;> simp [h]

theorem add_retention (hs : Retention max s) (hopen : terminal job.status = false) :
    Retention max (s.add job) := by
  have hended : (s.add job).ended = s.ended := by
    rw [add_ended, hopen]
    exact List.append_nil _
  have hretained : (s.add job).retained = s.retained ++ [s.jobs.length] := rfl
  have hterminal (i : Nat) : (s.add job).isTerminal i = s.isTerminal i := by
    rw [add_isTerminal]
    split
    · rename_i h
      rw [hopen, h, State.isTerminal, List.getElem?_eq_none le_rfl]
      rfl
    · rfl
  refine ⟨?_, ?_, ?_, ?_, hended ▸ hs.nodup, ?_, ?_⟩
  · rw [hretained, List.pairwise_append]
    refine ⟨hs.sorted, List.pairwise_singleton _ _, ?_⟩
    intro i hi j hj
    rw [List.mem_singleton.mp hj]
    exact hs.known i hi
  · intro i hi
    rw [hretained] at hi
    rw [add_length]
    rcases List.mem_append.mp hi with hold | hnew
    · exact (hs.known i hold).trans (Nat.lt_succ_self _)
    · rw [List.mem_singleton.mp hnew]
      exact Nat.lt_succ_self _
  · intro i hi hi'
    rw [add_length] at hi
    rw [hterminal] at hi'
    rw [hretained]
    rcases Nat.lt_succ_iff_lt_or_eq.mp hi with hlt | rfl
    · exact List.mem_append_left _ (hs.opened i hlt hi')
    · exact List.mem_append_right _ List.mem_cons_self
  · intro i
    rw [hended, hterminal, hs.ended]
  · rw [hretained, funext hterminal, List.filter_append, List.length_append]
    have hnone : [s.jobs.length].filter s.isTerminal = [] := by
      refine List.filter_eq_nil_iff.mpr fun i hi hi' => ?_
      rw [List.mem_singleton.mp hi] at hi'
      exact (isTerminal_lt hi').false
    rw [hnone]
    exact hs.bounded
  · intro horder i hi
    rw [hended] at hi
    refine List.mem_append_left _ (hs.last (horder.before ?_ (by rw [hended, List.append_nil])) i hi)
    intro k hk
    rw [State.createdAt, add_getElem?, if_neg]
    · rfl
    · exact (isTerminal_lt ((hs.ended k).mp hk)).ne

theorem Move.retention (h : Move config s s') (hs : Retention config.maxRetainedJobs s) :
    Retention config.maxRetainedJobs s' := by
  cases h with
  | alike h => exact h.retention hs
  | add hopen => exact add_retention hs hopen
  | ends h => exact h.retention hs rfl

theorem Moved.retention (h : Moved config s s') (hs : Retention config.maxRetainedJobs s) :
    Retention config.maxRetainedJobs s' := by
  induction h with
  | refl => exact hs
  | tail _ hmove ih => exact hmove.retention ih

-- -----
-- The operations
-- -----

theorem Moved.none : Moved config s s := .refl

theorem Alike.moved (h : Alike s s') : Moved config s s' := .single (.alike h)

theorem set_createdAt (hj : s.jobs[j]? = some job) {new : SubagentJob}
    (hjobs : s'.jobs = s.jobs.set j new) (hcreated : new.createdAt = job.createdAt) (i : Nat) :
    s'.createdAt i = s.createdAt i := by
  rw [State.createdAt, State.createdAt, hjobs, put_getElem? hj]
  split
  · rename_i h
    rw [h, hj]
    exact hcreated
  · rfl

theorem set_isTerminal (hj : s.jobs[j]? = some job) {new : SubagentJob}
    (hjobs : s'.jobs = s.jobs.set j new) (i : Nat) :
    s'.isTerminal i = if i = j then terminal new.status else s.isTerminal i := by
  rw [State.isTerminal, hjobs, put_getElem? hj]
  split <;> rfl

/-- A job is written that ends no more than it had. -/
theorem write_moved (hj : s.jobs[j]? = some job) {new : SubagentJob}
    (hjobs : s'.jobs = s.jobs.set j new) (hcreated : new.createdAt = job.createdAt)
    (hterminal : terminal new.status = terminal job.status) (hretained : s'.retained = s.retained)
    (hended : s'.ended = s.ended) : Moved config s s' := by
  refine .single (.alike ⟨?_, fun i => ?_, set_createdAt hj hjobs hcreated, hretained, hended⟩)
  · rw [hjobs, List.length_set]
  · rw [set_isTerminal hj hjobs]
    split
    · rename_i h
      rw [h, hterminal, isTerminal_of hj]
    · rfl

theorem record_ended (s : State) (j : Nat) (job : SubagentJob) :
    (s.record j job).ended = s.ended ++ if terminal job.status then [j] else [] := by
  replace : (s.record j job).ended =
    ((s.entries ++ [(j, job)]).filter fun entry => terminal entry.2.status).map (·.1) := rfl
  rw [this, List.filter_append, List.map_append, State.ended]
  congr 1
  cases h : terminal job.status <;> simp [h]

theorem finish_moved {old : SubagentJob} (hj : s.jobs[j]? = some old)
    (hopen : terminal old.status = false) (hterminal : terminal job.status = true)
    (hcreated : job.createdAt = old.createdAt) : Moved config s (s.finish config j job) := by
  let new := { job with listensTo := none, completions := job.completions + 1 }
  have hends {s' : State} (hjobs : s'.jobs = s.jobs.set j new) (hretained : s'.retained = s.retained)
      (hended : s'.ended = s.ended ++ [j]) : Ends j s s' := by
    refine ⟨?_, (List.getElem?_eq_some_iff.mp hj).1, (isTerminal_of hj).trans hopen, fun i => ?_,
      set_createdAt hj hjobs hcreated, hretained, hended⟩
    · rw [hjobs, List.length_set]
    · rw [set_isTerminal hj hjobs]
      by_cases hij : i = j
      · rw [if_pos hij, beq_iff_eq.mpr hij]
        exact hterminal
      · rw [if_neg hij, beq_false_of_ne hij, Bool.false_or]
  have hended : (s.record j { job with listensTo := none }).ended = s.ended ++ [j] := by
    rw [record_ended, if_pos hterminal]
  unfold State.finish
  simp only
  split
  · exact .single (.ends (hends rfl rfl hended))
  · exact .single (.ends (hends rfl rfl hended))

theorem cancel_moved (s : State) (j now : Nat) : Moved config s (s.cancel config j now) := by
  unfold State.cancel
  split
  case isFalse => exact .none
  split
  case h_1 => exact .none
  rename_i job hj
  split
  case h_1 hqueued => exact finish_moved hj (by rw [hqueued]; rfl) rfl rfl
  case h_2 hrunning =>
    refine write_moved hj rfl rfl (by rw [hrunning]; rfl) rfl ?_
    exact (record_ended _ _ _).trans (List.append_nil _)
  case h_3 => exact .none

theorem fork_moved (s : State) (j : Nat) : Moved config s (s.fork j) := by
  unfold State.fork
  split
  case h_1 => exact .none
  rename_i job hj
  split
  · exact write_moved hj rfl rfl rfl rfl rfl
  · exact .none

theorem listen_moved (s : State) (j signal now : Nat) :
    Moved config s (s.listen config j signal now) := by
  unfold State.listen
  split
  case h_1 => exact .none
  rename_i job hj
  have hlistens : Moved config s (s.put j { job with listensTo := some signal }) :=
    write_moved hj rfl rfl rfl rfl rfl
  simp only
  split
  · exact hlistens.trans (cancel_moved _ j now)
  · exact hlistens

/-- A job that is rejected is one that is added, and ends. -/
theorem rejected_moved (s : State) (params : SubagentParams) (ctxCwd : Str) (now : Nat) :
    Moved config s
      ((s.add (State.newJob config params ctxCwd now true)).pruneTerminalJobs config) := by
  have hadd : Move config s (s.add (State.newJob config params ctxCwd now false)) := .add rfl
  refine (Relation.ReflTransGen.single hadd).tail (.ends (j := s.jobs.length) ⟨?_, ?_, ?_, ?_, ?_, rfl, ?_⟩)
  · rw [add_length, add_length]
  · rw [add_length]
    exact Nat.lt_succ_self _
  · rw [add_isTerminal, if_pos rfl]
    rfl
  · intro i
    rw [add_isTerminal, add_isTerminal]
    by_cases h : i = s.jobs.length
    · rw [if_pos h, beq_iff_eq.mpr h]
      rfl
    · rw [if_neg h, if_neg h, beq_false_of_ne h, Bool.false_or]
  · intro i
    rw [State.createdAt, State.createdAt, add_getElem?, add_getElem?]
    split <;> rfl
  · rw [add_ended, add_ended]
    exact congrArg (· ++ [s.jobs.length]) (List.append_nil _).symm

theorem start_moved (s : State) (params : SubagentParams) (ctxCwd : Str) (signal : Option Nat)
    (now : Nat) : Moved config s (s.start config params ctxCwd signal now) := by
  unfold State.start
  simp only
  cases s.shutdownStarted with
  | true => exact rejected_moved s params ctxCwd now
  | false =>
    have hadded : Moved config s (s.add (State.newJob config params ctxCwd now false)) :=
      .single (.add rfl)
    cases signal with
    | none => exact hadded.trans (fork_moved _ _)
    | some signal => exact (hadded.trans (listen_moved _ _ signal now)).trans (fork_moved _ _)

theorem cancelAll_moved (js : List Nat) (now : Nat) (s : State) :
    Moved config s (js.foldl (fun s j => s.cancel config j now) s) := by
  induction js generalizing s with
  | nil => exact .none
  | cons j rest ih => exact (cancel_moved s j now).trans (ih _)

theorem settle_moved (s : State) (now : Nat) : Moved config s (s.settle config now) := by
  unfold State.settle
  exact (cancelAll_moved s.retained now s).tail (.alike ⟨rfl, fun _ => rfl, fun _ => rfl, rfl, rfl⟩)

theorem shutdown_moved (s : State) (now : Nat) : Moved config s (s.shutdown config now) := by
  unfold State.shutdown
  split
  · exact .none
  · have hstarted : Alike s { s with
        shutdownStarted := true, shutdownPromise := some s.settles.length } :=
      ⟨rfl, fun _ => rfl, fun _ => rfl, rfl, rfl⟩
    exact hstarted.moved.trans (settle_moved _ now)

-- -----
-- Runs of jobs
-- -----

theorem onAdmitted_moved (hj : s.jobs[j]? = some job) : Moved config s (s.onAdmitted j job) := by
  unfold State.onAdmitted
  split
  · exact .none
  · rename_i hqueued
    replace hqueued : job.status = .queued := not_not.mp hqueued
    refine write_moved hj rfl rfl (by rw [hqueued]; rfl) rfl ?_
    exact (record_ended _ _ _).trans (List.append_nil _)

theorem onSuccess_createdAt (job : SubagentJob) (result : RunResult) :
    (onSuccess config job result).createdAt = job.createdAt := by
  unfold onSuccess
  split <;> rfl

theorem onFailure_createdAt (job : SubagentJob) (failure : RunFailure) :
    (onFailure job failure).createdAt = job.createdAt := by
  unfold onFailure
  split <;> rfl

theorem release_moved (hs : Inv s) {old : SubagentJob} (hj : s.jobs[j]? = some old)
    (hflight : old.inFlight = true) (h : Handled old job) (hcreated : job.createdAt = old.createdAt)
    (now : Nat) : Moved config s (s.release config j { job with inFlight := false } now) := by
  have hsound := hs.sound j old hj
  unfold State.release
  by_cases hcancelled : old.status = .cancelled
  · obtain rfl := h.cancelled hcancelled
    have hterminal : terminal job.status = true := by rw [hcancelled]; rfl
    have hfinished := hsound.finished.trans hterminal
    rw [if_pos (by simp [hterminal, hfinished])]
    exact write_moved hj rfl rfl rfl rfl rfl
  · have hopen : terminal old.status = false := by
      by_contra hterminal
      exact hcancelled (hsound.inFlight hflight (Bool.not_eq_false _ ▸ hterminal))
    obtain ⟨status, hterminal, hstatus, -⟩ := h.moves hcancelled
    have hunfinished : job.finishedAt.isSome = false := by
      rw [h.finishedAt, hsound.finished, hopen]
    rw [if_neg (by simp [hunfinished])]
    have hended : ¬ (job.status = .running ∨ job.status = .cancelling) := by
      rw [hstatus]
      rintro (rfl | rfl) <;> cases hterminal
    simp only [if_neg hended]
    exact finish_moved hj hopen (hstatus ▸ hterminal) hcreated

theorem during_moved {callback : SubagentJob → State} (hstep : s.during j callback = some s')
    (h : ∀ job, s.jobs[j]? = some job → job.inFlight = true → Moved config s (callback job)) :
    Moved config s s' := by
  obtain ⟨job, hj, hif⟩ := Option.bind_eq_some_iff.mp hstep
  obtain ⟨hflight, heq⟩ := Option.ite_none_right_eq_some.mp hif
  obtain rfl := Option.some.inj heq
  exact h job hj hflight

theorem step_moved (hs : Inv s) {event : Event} (hstep : step config s event = some s') :
    Moved config s s' := by
  cases event with
  | start params ctxCwd signal now =>
    obtain rfl := Option.some.inj hstep
    exact start_moved s params ctxCwd signal now
  | signalled signal =>
    obtain rfl := Option.some.inj hstep
    exact .single (.alike ⟨rfl, fun _ => rfl, fun _ => rfl, rfl, rfl⟩)
  | onAbort j now =>
    obtain ⟨-, heq⟩ := Option.ite_none_right_eq_some.mp hstep
    obtain rfl := Option.some.inj heq
    exact cancel_moved s j now
  | admitted j => exact during_moved hstep fun job hj _ => onAdmitted_moved hj
  | usage j details =>
    exact during_moved hstep fun job hj _ => write_moved hj rfl rfl rfl rfl rfl
  | succeeded j result now =>
    exact during_moved hstep fun job hj hflight =>
      release_moved hs hj hflight (onSuccess_handled job result) (onSuccess_createdAt job result) now
  | failed j failure now =>
    exact during_moved hstep fun job hj hflight =>
      release_moved hs hj hflight (onFailure_handled job failure) (onFailure_createdAt job failure) now
  | cancel j now =>
    obtain rfl := Option.some.inj hstep
    exact cancel_moved s j now
  | settle now =>
    obtain rfl := Option.some.inj hstep
    exact settle_moved s now
  | shutdown now =>
    obtain rfl := Option.some.inj hstep
    exact shutdown_moved s now
  | settleResolved k =>
    obtain ⟨settle, -, hif⟩ := Option.bind_eq_some_iff.mp hstep
    obtain ⟨-, heq⟩ := Option.ite_none_right_eq_some.mp hif
    obtain rfl := Option.some.inj heq
    exact .single (.alike ⟨rfl, fun _ => rfl, fun _ => rfl, rfl, rfl⟩)
  | waitReturned j interrupted =>
    obtain ⟨-, heq⟩ := Option.ite_none_right_eq_some.mp hstep
    obtain rfl := Option.some.inj heq
    exact .none

theorem run_retention {events : List Event}
    (hrun : Transitions.run (step config) initial events = some s) :
    Inv s ∧ Retention config.maxRetainedJobs s := by
  have hsteps : ∀ (s : State) (event : Event) (s' : State),
      Inv s ∧ Retention config.maxRetainedJobs s → step config s event = some s' →
        Inv s' ∧ Retention config.maxRetainedJobs s' := by
    rintro s event s' ⟨hinv, hretention⟩ hstep
    exact ⟨step_inv hinv hstep, (step_moved hinv hstep).retention hretention⟩
  exact Transitions.always hsteps ⟨initial_inv, initial_retention⟩ hrun

-- -----
-- Results
-- -----

theorem Retention.retrievable (hs : Retention max s) (horder : InCreationOrder max s) :
    Retrievable max s := by
  intro j hj
  obtain ⟨before, after, hsplit⟩ := List.append_of_mem ((hs.ended j).mpr hj)
  refine ⟨before, after, hsplit, ?_⟩
  rcases Nat.lt_or_ge after.length max with hfew | hmany
  · refine .inl ?_
    have hlast : j ∈ lastOf max s.ended := by
      rw [lastOf, hsplit, List.drop_append_of_le_length]
      · exact List.mem_append_right _ List.mem_cons_self
      · rw [List.length_append, List.length_cons]
        omega
    rw [State.get, if_pos (hs.last horder j hlast)]
    obtain ⟨job, hjob, -⟩ := (Option.any_eq_true _ _).mp hj
    rw [hjob]
    rfl
  · exact .inr hmany

/-- In every run no more terminal jobs are retained than may be, and each that ended
can be got as long as it is promised, where the jobs ended in the order of their
creation. -/
theorem results_retrievable {events : List Event}
    (hrun : Transitions.run (step config) initial events = some s) :
    s.ended.Nodup ∧ (∀ j, j ∈ s.ended ↔ s.isTerminal j = true) ∧
      (s.retained.filter s.isTerminal).length ≤ config.maxRetainedJobs ∧
      (InCreationOrder config.maxRetainedJobs s → Retrievable config.maxRetainedJobs s) := by
  obtain ⟨-, hs⟩ := run_retention hrun
  exact ⟨hs.nodup, hs.ended, hs.bounded, hs.retrievable⟩

/-- One job is retained. -/
def retainsOne : Config := ⟨fun text => (text, false), id, 1⟩

def twoJobs (first second : Nat) : List Event :=
  [.start ⟨none, lit "task", none⟩ (lit "/") none 1, .start ⟨none, lit "task", none⟩ (lit "/") none 2,
    .admitted 0, .admitted 1, .succeeded first ⟨lit "done", someDetails⟩ 3,
    .succeeded second ⟨lit "done", someDetails⟩ 4]

theorem twoJobs_retrievable :
    ∃ s, Transitions.run (step retainsOne) initial (twoJobs 0 1) = some s ∧
      (s.get 0).isSome = false ∧ (s.get 1).isSome = true ∧ Retrievable 1 s := by
  have hmap : (Transitions.run (step retainsOne) initial (twoJobs 0 1)).map
      (fun s => ((s.get 0).isSome, (s.get 1).isSome, s.ended, s.createdAt 0, s.createdAt 1)) =
      some (false, true, [0, 1], 1, 2) := by decide +kernel
  obtain ⟨s, hrun, hs⟩ := Option.map_eq_some_iff.mp hmap
  obtain ⟨hfirst, hs⟩ := Prod.mk.inj hs
  obtain ⟨hsecond, hs⟩ := Prod.mk.inj hs
  obtain ⟨hended, hs⟩ := Prod.mk.inj hs
  obtain ⟨hcreated, hcreated'⟩ := Prod.mk.inj hs
  refine ⟨s, hrun, hfirst, hsecond, (results_retrievable hrun).2.2.2 ?_⟩
  intro before i next after hsplit hlength j hj
  obtain ⟨k, rfl⟩ := List.length_eq_one_iff.mp hlength
  obtain rfl := List.mem_singleton.mp hj
  rw [hended] at hsplit
  cases before with
  | nil =>
    obtain ⟨rfl, htail⟩ := List.cons.inj hsplit
    obtain ⟨rfl, -⟩ := List.cons.inj htail
    exact .inl (by rw [hcreated, hcreated']; decide)
  | cons b before =>
    have hsize := congrArg List.length hsplit
    simp only [List.length_cons, List.length_nil, List.length_append, List.cons_append] at hsize
    omega

/-- The job that was created first ends last, and its result is gone at once. -/
theorem twoJobs_lost :
    ∃ s, Transitions.run (step retainsOne) initial (twoJobs 1 0) = some s ∧
      s.ended = [1, 0] ∧ s.isTerminal 0 = true ∧ s.get 0 = none ∧ ¬ Retrievable 1 s := by
  have hmap : (Transitions.run (step retainsOne) initial (twoJobs 1 0)).map
      (fun s => (s.ended, s.isTerminal 0, s.get 0)) = some ([1, 0], true, none) := by decide +kernel
  obtain ⟨s, hrun, hs⟩ := Option.map_eq_some_iff.mp hmap
  obtain ⟨hended, hs⟩ := Prod.mk.inj hs
  obtain ⟨hterminal, hget⟩ := Prod.mk.inj hs
  refine ⟨s, hrun, hended, hterminal, hget, fun hall => ?_⟩
  obtain ⟨before, after, hsplit, hkept⟩ := hall 0 hterminal
  rw [hget] at hkept
  have hafter : 1 ≤ after.length := hkept.resolve_left nofun
  rw [hended] at hsplit
  cases before with
  | nil =>
    obtain ⟨h, -⟩ := List.cons.inj hsplit
    cases h
  | cons b before =>
    have hsize := congrArg List.length hsplit
    simp only [List.length_cons, List.length_nil, List.length_append, List.cons_append] at hsize
    omega

end PiEnv.Subagent.Jobs
