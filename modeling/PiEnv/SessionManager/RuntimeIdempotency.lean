import Mathlib.Data.Finset.Card
import Mathlib.Data.Finset.Dedup
import PiEnv.SessionManager.RuntimeAnswers

/-!
# Idempotency of the runtime bus

The table of idempotency keys is ordered by insertion. A run of a handler is in
it until it expires, or until as many other keys as the table holds have come
after it; a request with its key and parameters is given its promise.
-/

namespace PiEnv.SessionManager.RuntimeBus

open Js Utf8

variable {config : Config} {s s' : State} {event : Event} {cache cache' : JsMap Str Entry}
  {runs runs' : List Run} {call : RuntimeCall} {now before j : Nat} {earlier : Run} {promise : Promise}

-- -----
-- Keys that came later
-- -----

/-- The other keys under which handlers were run after run `j`. -/
def newerKeys (runs : List Run) (j : Nat) (key : Str) : Finset Str :=
  (((runs.drop (j + 1)).map (·.idempotencyKey)).filter (· ≠ key)).toFinset

theorem mem_newerKeys {key other : Str} :
    other ∈ newerKeys runs j key ↔
      other ≠ key ∧ ∃ (i : Nat) (run : Run), j < i ∧ runs[i]? = some run ∧ run.idempotencyKey = other := by
  unfold newerKeys
  rw [List.mem_toFinset, List.mem_filter, List.mem_map, decide_eq_true_eq, and_comm]
  refine and_congr_right fun _ => ⟨?_, ?_⟩
  · rintro ⟨run, hmem, hkey⟩
    obtain ⟨i, hi⟩ := List.mem_iff_getElem?.mp hmem
    rw [List.getElem?_drop] at hi
    exact ⟨j + 1 + i, run, by omega, hi, hkey⟩
  · rintro ⟨i, run, hlt, hi, hkey⟩
    refine ⟨run, List.mem_iff_getElem?.mpr ⟨i - (j + 1), ?_⟩, hkey⟩
    rw [List.getElem?_drop, Nat.add_sub_of_le hlt]
    exact hi

theorem newerKeys_append (run : Run) (key : Str) :
    newerKeys runs j key ⊆ newerKeys (runs ++ [run]) j key := by
  intro other hother
  obtain ⟨hne, i, found, hlt, hi, hkey⟩ := mem_newerKeys.mp hother
  refine mem_newerKeys.mpr ⟨hne, i, found, hlt, ?_, hkey⟩
  rw [List.getElem?_append_left (List.getElem?_eq_some_iff.mp hi).1]
  exact hi

/-- Its entry is expired, or as many keys as the table holds came after it. -/
def Superseded (runs : List Run) (j : Nat) (earlier : Run) (now : Nat) : Prop :=
  earlier.startedAt + CACHE_TTL_MS ≤ now ∨ MAX_CACHE ≤ (newerKeys runs j earlier.idempotencyKey).card

theorem Superseded.mono (hle : before ≤ now) (h : Superseded runs j earlier before) :
    Superseded runs j earlier now :=
  h.imp_left fun hexpired => Nat.le_trans hexpired hle

theorem Superseded.append (run : Run) (h : Superseded runs j earlier now) :
    Superseded (runs ++ [run]) j earlier now :=
  h.imp_right fun hcrowded => Nat.le_trans hcrowded (Finset.card_le_card (newerKeys_append run _))

-- -----
-- The table
-- -----

/-- The entry of run `j`. -/
def entryOf (j : Nat) (run : Run) : Entry := ⟨run.digest, run.startedAt + CACHE_TTL_MS, j⟩

/-- The entries are those of runs, in the order of these; a run whose entry is
not there is superseded. -/
structure Table (cache : JsMap Str Entry) (runs : List Run) (now : Nat) : Prop where
  ordered : cache.entries.Pairwise fun a b => a.2.run < b.2.run
  ofRun : ∀ key entry, (key, entry) ∈ cache.entries → ∃ run, runs[entry.run]? = some run ∧
    run.idempotencyKey = key ∧ entry = entryOf entry.run run
  kept : ∀ (j : Nat) (run : Run), runs[j]? = some run → Superseded runs j run now ∨
    cache.get run.idempotencyKey = some (entryOf j run)

theorem table_initial : Table .empty [] 0 :=
  ⟨List.Pairwise.nil, nofun, nofun⟩

theorem Table.expire (h : Table cache runs before) (hle : before ≤ now) :
    Table (unexpired cache now) runs now := by
  refine ⟨h.ordered.sublist List.filter_sublist, fun key entry hmem => ?_, fun j run hj => ?_⟩
  · exact h.ofRun key entry (List.mem_filter.mp hmem).1
  · rcases h.kept j run hj with hsuperseded | hget
    · exact .inl (hsuperseded.mono hle)
    · by_cases hexpired : run.startedAt + CACHE_TTL_MS ≤ now
      · exact .inl (.inl hexpired)
      · exact .inr (get_unexpired.mpr ⟨hget, Nat.lt_of_not_le hexpired⟩)

theorem dropOldest_entries {entry : Str × Entry} {rest : List (Str × Entry)}
    (h : cache.entries = entry :: rest) : (dropOldest cache).entries = rest := by
  have hnodup := cache.nodup
  rw [h, List.map_cons, List.nodup_cons] at hnodup
  unfold dropOldest JsMap.keys
  rw [h, List.map_cons]
  show cache.entries.filter (·.1 ≠ entry.1) = rest
  rw [h, List.filter_cons_of_neg (by simp)]
  refine List.filter_eq_self.mpr fun other hother => ?_
  have hne : other.1 ≠ entry.1 := fun heq => hnodup.1 (heq ▸ List.mem_map_of_mem hother)
  simpa using hne

/-- The keys of a full table and a new one are all newer than the run it drops. -/
theorem Table.crowded (h : Table cache runs now) {key : Str} {rest : List (Str × Entry)} {started : Run}
    (hj : runs[j]? = some earlier) (hkey : started.idempotencyKey = key)
    (hentries : cache.entries = (earlier.idempotencyKey, entryOf j earlier) :: rest)
    (hfull : MAX_CACHE ≤ cache.size) (hnew : cache.get key = none) :
    MAX_CACHE ≤ (newerKeys (runs ++ [started]) j earlier.idempotencyKey).card := by
  have hlt : j < runs.length := (List.getElem?_eq_some_iff.mp hj).1
  have hkeys : key ∉ cache.entries.map (·.1) := JsMap.lookup_eq_none.mp hnew
  have hnodup := cache.nodup
  have hordered := h.ordered
  rw [hentries] at hkeys hnodup hordered
  obtain ⟨hnotRest, hnodupRest⟩ := List.nodup_cons.mp hnodup
  have hkeyEarlier : key ≠ earlier.idempotencyKey := fun heq =>
    hkeys (heq ▸ List.mem_cons_self)
  have hkeyRest : key ∉ rest.map (·.1) := fun hmem => hkeys (List.mem_cons_of_mem _ hmem)
  have hsubset : (key :: rest.map (·.1)).toFinset ⊆
      newerKeys (runs ++ [started]) j earlier.idempotencyKey := by
    intro other hother
    rcases List.mem_cons.mp (List.mem_toFinset.mp hother) with rfl | hmem
    · refine mem_newerKeys.mpr ⟨hkeyEarlier, runs.length, started, hlt, ?_, hkey⟩
      rw [List.getElem?_append_right (Nat.le_refl _), Nat.sub_self, List.getElem?_cons_zero]
    · obtain ⟨entry, hentry, rfl⟩ := List.mem_map.mp hmem
      obtain ⟨run, hrun, hrunKey, -⟩ := h.ofRun entry.1 entry.2
        (by rw [hentries]; exact List.mem_cons_of_mem _ hentry)
      refine mem_newerKeys.mpr ⟨fun heq => hnotRest (heq ▸ hmem), entry.2.run, run,
        List.rel_of_pairwise_cons hordered hentry, ?_, hrunKey⟩
      rw [List.getElem?_append_left (List.getElem?_eq_some_iff.mp hrun).1]
      exact hrun
  calc MAX_CACHE ≤ cache.size := hfull
    _ = (key :: rest.map (·.1)).length := by
      rw [JsMap.size, hentries, List.length_cons, List.length_cons, List.length_map]
    _ = (key :: rest.map (·.1)).toFinset.card :=
      (List.toFinset_card_of_nodup (List.nodup_cons.mpr ⟨hkeyRest, hnodupRest⟩)).symm
    _ ≤ _ := Finset.card_le_card hsubset

/-- What makes room for a new key keeps every entry but one that is crowded out. -/
theorem Table.makeRoom (h : Table cache runs now) {key : Str} {started : Run}
    (hkey : started.idempotencyKey = key) (hnew : cache.get key = none) :
    ∃ kept : JsMap Str Entry, (if MAX_CACHE ≤ cache.size then dropOldest cache else cache) = kept ∧
      kept.entries.Sublist cache.entries ∧ kept.get key = none ∧
      ∀ (j : Nat) (run : Run), runs[j]? = some run →
        cache.get run.idempotencyKey = some (entryOf j run) →
        Superseded (runs ++ [started]) j run now ∨
          kept.get run.idempotencyKey = some (entryOf j run) := by
  by_cases hfull : MAX_CACHE ≤ cache.size
  · rw [if_pos hfull]
    cases hentries : cache.entries with
    | nil =>
      rw [JsMap.size, hentries] at hfull
      exact absurd hfull (by decide)
    | cons entry rest =>
      have hdropped := dropOldest_entries hentries
      refine ⟨_, rfl, ?_, ?_, fun j run hj hget => ?_⟩
      · rw [hdropped]
        exact List.sublist_cons_self entry rest
      · cases hdrop : (dropOldest cache).get key with
        | none => rfl
        | some found => cases hnew.symm.trans (get_dropOldest hdrop)
      · have hmem := JsMap.mem_of_get hget
        rw [hentries] at hmem
        rcases List.mem_cons.mp hmem with rfl | hrest
        · exact .inl (.inr (h.crowded hj hkey hentries hfull hnew))
        · exact .inr (JsMap.get_of_mem (hdropped ▸ hrest))
  · rw [if_neg hfull]
    exact ⟨cache, rfl, List.Sublist.refl _, hnew, fun _ _ _ hget => .inr hget⟩

/-- A run is started under a key that is not held. -/
theorem Table.insert (h : Table cache runs now) {key : Str} {started : Run}
    (hkey : started.idempotencyKey = key) (hnew : cache.get key = none) :
    Table ((if MAX_CACHE ≤ cache.size then dropOldest cache else cache).set key
      (entryOf runs.length started)) (runs ++ [started]) now := by
  obtain ⟨kept, hroom, hsublist, hfree, hkept⟩ := h.makeRoom hkey hnew
  rw [hroom]
  have hlast : (runs ++ [started])[runs.length]? = some started := by
    rw [List.getElem?_append_right (Nat.le_refl _), Nat.sub_self, List.getElem?_cons_zero]
  have hold : ∀ {i : Nat} {run : Run}, runs[i]? = some run → (runs ++ [started])[i]? = some run := by
    intro i run hi
    rw [List.getElem?_append_left (List.getElem?_eq_some_iff.mp hi).1]
    exact hi
  refine ⟨?_, fun other entry hmem => ?_, fun i run hi => ?_⟩
  · rw [JsMap.entries_set hfree, List.pairwise_append]
    refine ⟨h.ordered.sublist hsublist, List.pairwise_singleton _ _, fun a ha b hb => ?_⟩
    obtain ⟨run, hrun, -⟩ := h.ofRun a.1 a.2 (hsublist.subset ha)
    rw [List.mem_singleton.mp hb]
    exact (List.getElem?_eq_some_iff.mp hrun).1
  · rw [JsMap.entries_set hfree] at hmem
    rcases List.mem_append.mp hmem with hmem | hmem
    · obtain ⟨run, hrun, hrest⟩ := h.ofRun other entry (hsublist.subset hmem)
      exact ⟨run, hold hrun, hrest⟩
    · cases List.mem_singleton.mp hmem
      exact ⟨started, hlast, hkey, rfl⟩
  · by_cases hlt : i < runs.length
    · rw [List.getElem?_append_left hlt] at hi
      rcases h.kept i run hi with hsuperseded | hget
      · exact .inl (hsuperseded.append started)
      · rcases hkept i run hi hget with hsuperseded | hget'
        · exact .inl hsuperseded
        · refine .inr ?_
          have hne : run.idempotencyKey ≠ key := fun heq => absurd (heq ▸ hget) (by simp [hnew])
          rw [JsMap.get_set, if_neg hne]
          exact hget'
    · have hsome := (List.getElem?_eq_some_iff.mp hi).1
      rw [List.length_append, List.length_singleton] at hsome
      obtain rfl : i = runs.length := by omega
      obtain rfl : started = run := Option.some.inj (hlast.symm.trans hi)
      refine .inr ?_
      rw [JsMap.get_set, if_pos hkey]

theorem invokeRequest_table (h : Table cache runs before) (hle : before ≤ now)
    (hinvoked : invokeRequest cache runs call now = .promise promise cache' runs') :
    Table cache' runs' now := by
  have hlive := h.expire hle
  unfold invokeRequest at hinvoked
  split at hinvoked
  case h_1 =>
    cases hinvoked
    exact ⟨h.ordered, h.ofRun, fun j run hj => (h.kept j run hj).imp_left (·.mono hle)⟩
  case h_2 key _ =>
    simp only at hinvoked
    split at hinvoked
    case h_1 =>
      split at hinvoked
      · cases hinvoked
      · cases hinvoked
        exact hlive
    case h_2 hnew =>
      cases hinvoked
      have hkey : (Run.mk key call.digest now none).idempotencyKey = key := rfl
      exact hlive.insert hkey hnew

/-- A request with the key and the parameters of a run gets its promise, unless
the run is superseded. -/
theorem Table.repeated (h : Table cache runs before) (hle : before ≤ now)
    (hj : runs[j]? = some earlier) (hkey : call.idempotencyKey = some earlier.idempotencyKey)
    (hdigest : earlier.digest = call.digest) (hstands : ¬ Superseded runs j earlier now) :
    ∃ cache', invokeRequest cache runs call now = .promise (.run j) cache' runs := by
  rcases (h.expire hle).kept j earlier hj with hsuperseded | hget
  · exact absurd hsuperseded hstands
  · refine ⟨unexpired cache now, ?_⟩
    unfold invokeRequest
    simp only [hkey, hget, entryOf, hdigest, ne_eq, not_true_eq_false, if_false]

-- -----
-- Settled runs
-- -----

/-- Runs that differ in their outcomes only. -/
def SameRuns (runs runs' : List Run) : Prop :=
  runs.map (fun run => { run with outcome := none }) = runs'.map fun run => { run with outcome := none }

theorem SameRuns.symm (h : SameRuns runs runs') : SameRuns runs' runs := Eq.symm h

theorem sameRuns_settle {run : Run} {outcome : Option (Except Str Json)} (hj : runs[j]? = some run) :
    SameRuns runs (runs.set j { run with outcome }) := by
  obtain ⟨hlt, hget⟩ := List.getElem?_eq_some_iff.mp hj
  unfold SameRuns
  rw [List.map_set, ← hget]
  refine (List.ext_getElem? fun i => ?_).symm
  rw [List.getElem?_set, List.length_map, if_pos hlt]
  split
  case isTrue hij => simp [← hij, hlt]
  case isFalse => rfl

theorem SameRuns.getElem? (h : SameRuns runs runs') {i : Nat} {run : Run} (hi : runs[i]? = some run) :
    ∃ run', runs'[i]? = some run' ∧ run'.idempotencyKey = run.idempotencyKey ∧
      run'.startedAt = run.startedAt ∧ entryOf i run' = entryOf i run := by
  have hboth := congrArg (·[i]?) (show runs.map _ = runs'.map _ from h)
  simp only [List.getElem?_map, hi, Option.map_some] at hboth
  obtain ⟨run', hrun', hsame⟩ := Option.map_eq_some_iff.mp hboth.symm
  obtain ⟨hkey, hdigest, hstarted⟩ : run'.idempotencyKey = run.idempotencyKey ∧
      run'.digest = run.digest ∧ run'.startedAt = run.startedAt := by
    simpa using hsame
  exact ⟨run', hrun', hkey, hstarted, by rw [entryOf, entryOf, hdigest, hstarted]⟩

theorem SameRuns.newerKeys (h : SameRuns runs runs') (key : Str) :
    newerKeys runs j key ⊆ newerKeys runs' j key := by
  intro other hother
  obtain ⟨hne, i, run, hlt, hi, hkey⟩ := mem_newerKeys.mp hother
  obtain ⟨run', hi', hkey', -⟩ := h.getElem? hi
  exact mem_newerKeys.mpr ⟨hne, i, run', hlt, hi', hkey'.trans hkey⟩

theorem Table.settle (h : Table cache runs now) (hsame : SameRuns runs runs') :
    Table cache runs' now := by
  refine ⟨h.ordered, fun key entry hmem => ?_, fun j run' hj' => ?_⟩
  · obtain ⟨run, hrun, hkey, hentry⟩ := h.ofRun key entry hmem
    obtain ⟨run', hrun', hkey', -, hentry'⟩ := hsame.getElem? hrun
    exact ⟨run', hrun', hkey'.trans hkey, hentry.trans hentry'.symm⟩
  · obtain ⟨run, hj, hkey, hstarted, hentry⟩ := hsame.symm.getElem? hj'
    rcases h.kept j run hj with (hexpired | hcrowded) | hget
    · exact .inl (.inl (hstarted ▸ hexpired))
    · refine .inl (.inr (hkey ▸ Nat.le_trans hcrowded ?_))
      exact Finset.card_le_card (hsame.newerKeys _)
    · exact .inr (hkey ▸ hentry ▸ hget)

-- -----
-- Runs of the bus
-- -----

/-- The clock does not go back. -/
def Ordered (s : State) : Event → Prop
  | .request _ _ now => s.now ≤ now
  | _ => True

instance (s : State) (event : Event) : Decidable (Ordered s event) :=
  match event with
  | .request _ _ now => inferInstanceAs (Decidable (s.now ≤ now))
  | .connect _ | .invalid _ _ | .endSocket _ | .close _ | .settle _ _ | .respond _ | .flushed _ =>
    .isTrue trivial

/-- What is written for a request is the outcome of its promise. -/
def Outcomes (config : Config) (s : State) : Prop :=
  ∀ request ∈ s.admitted, request.stage ≠ .waiting → ∃ settled,
    s.settled request.promise = some settled ∧
      (request.responses = [] ∨ request.responses = (answer config request.requestId settled).toList)

/-- Requests with the key and the parameters of an earlier run. -/
structure Idempotent (config : Config) (s : State) : Prop where
  /-- A handler runs again when all earlier runs with its key are superseded. -/
  again : ∀ event s', Ordered s event → step config s event = some s' →
    SameRuns s.runs s'.runs ∨ ∃ c request now started, event = .request c request now ∧
      s'.runs = s.runs ++ [started] ∧ request.call.idempotencyKey = some started.idempotencyKey ∧
        started.digest = request.call.digest ∧ ∀ (j : Nat) (earlier : Run), s.runs[j]? = some earlier →
          earlier.idempotencyKey = started.idempotencyKey → Superseded s.runs j earlier now
  /-- Until then the promise is that of the run. -/
  joins : ∀ c request now connection s' (j : Nat) (earlier : Run), s.now ≤ now →
    step config s (.request c request now) = some s' → s.connections c = some connection →
      Admits config connection request now → s.runs[j]? = some earlier →
        request.call.idempotencyKey = some earlier.idempotencyKey →
          earlier.digest = request.call.digest → ¬ Superseded s.runs j earlier now →
            s'.runs = s.runs ∧
              s'.admitted = s.admitted ++ [⟨c, request.requestId, .run j, .waiting, []⟩]
  /-- A promise is settled once. -/
  once : ∀ event s' promise settled, step config s event = some s' →
    s.settled promise = some settled → s'.settled promise = some settled
  /-- All requests with one promise are told its outcome. -/
  outcomes : Outcomes config s

/-- What a step does to the table, the runs and the requests behind it. -/
inductive Effect (config : Config) (s s' : State) : Event → Prop where
  | quiet {event : Event} (runs : s'.runs = s.runs) (cache : s'.cache = s.cache) (now : s'.now = s.now)
      (admitted : s'.admitted = s.admitted) : Effect config s s' event
  | threw {event : Event} (runs : s'.runs = s.runs) (admitted : s'.admitted = s.admitted)
      (crashed : s'.crashed = true) : Effect config s s' event
  | admits {c now : Nat} {request : RuntimeRequest} {promise : Promise} (now_eq : s'.now = now)
      (invoked : invokeRequest s.cache s.runs request.call now = .promise promise s'.cache s'.runs)
      (admitted : s'.admitted = s.admitted ++ [⟨c, request.requestId, promise, .waiting, []⟩]) :
      Effect config s s' (.request c request now)
  | settles {j : Nat} {run : Run} {outcome : Except Str Json} (found : s.runs[j]? = some run)
      (waits : run.outcome = none)
      (state : s' = { s with runs := s.runs.set j { run with outcome := some outcome } }) :
      Effect config s s' (.settle j outcome)
  | responds {i : Nat} {request : Admitted} {settled : Except Str Json} {connection : Connection}
      (found : s.admitted[i]? = some request) (promised : s.settled request.promise = some settled)
      (state : s' = { s with
        admitted := s.admitted.set i { request with
          stage := .writing
          responses :=
            if connection.ended then [] else (answer config request.requestId settled).toList } }) :
      Effect config s s' (.respond i)
  | leaves {i : Nat} {request : Admitted} (found : s.admitted[i]? = some request)
      (stage : request.stage = .writing) (runs : s'.runs = s.runs) (cache : s'.cache = s.cache)
      (now : s'.now = s.now) (admitted : s'.admitted = s.admitted.set i { request with stage := .finished }) :
      Effect config s s' (.flushed i)

theorem acceptRequest_effect (config : Config) (s : State) (c : Nat) (connection : Connection)
    (request : RuntimeRequest) (now : Nat) :
    Effect config s (s.acceptRequest config c connection request now) (.request c request now) := by
  rcases acceptRequest_cases config s c connection request now with
    ⟨closed, -, -, hs', -⟩ | ⟨promise, cache, runs, hinvoked, hs', -⟩ | ⟨cache, -, hs', -⟩
  · rw [hs']
    exact .quiet rfl rfl rfl rfl
  · rw [hs']
    exact .admits rfl hinvoked rfl
  · rw [hs']
    exact .threw rfl rfl rfl

theorem step_effect (hstep : step config s event = some s') : Effect config s s' event := by
  unfold step at hstep
  split at hstep
  · exact absurd hstep nofun
  split at hstep
  case h_2 c request now =>
    split at hstep
    case h_1 connection hc =>
      split at hstep
      · exact absurd hstep nofun
      · cases hstep
        exact acceptRequest_effect config s c connection request now
    case h_2 => exact absurd hstep nofun
  case h_6 j outcome =>
    split at hstep
    case h_1 run hrun =>
      split at hstep
      case h_1 hopen =>
        cases hstep
        exact .settles hrun hopen rfl
      case h_2 => exact absurd hstep nofun
    case h_2 => exact absurd hstep nofun
  case h_7 i =>
    split at hstep
    case h_1 request hi =>
      split at hstep
      case h_1 settled connection _ hsettled _ =>
        cases hstep
        exact .responds hi hsettled rfl
      case h_2 => exact absurd hstep nofun
    case h_2 => exact absurd hstep nofun
  case h_8 i =>
    split at hstep
    case h_1 request hi =>
      split at hstep
      case h_1 connection hstage _ =>
        cases hstep
        exact .leaves hi hstage rfl rfl rfl rfl
      case h_2 => exact absurd hstep nofun
    case h_2 => exact absurd hstep nofun
  all_goals
    split at hstep
    on_goal 1 => try split at hstep
  all_goals first | (cases hstep; done) | (cases hstep; exact .quiet rfl rfl rfl rfl)

theorem settled_append {started : Run} {settled : Except Str Json} (h : s.settled promise = some settled)
    (hruns : s'.runs = s.runs ++ [started]) : s'.settled promise = some settled := by
  cases promise with
  | alive => exact h
  | run j =>
    obtain ⟨run, hj, houtcome⟩ := Option.bind_eq_some_iff.mp h
    rw [State.settled, hruns, List.getElem?_append_left (List.getElem?_eq_some_iff.mp hj).1, hj]
    exact houtcome

theorem settled_settle {run : Run} {outcome settled : Except Str Json} (hj : s.runs[j]? = some run)
    (hopen : run.outcome = none) (h : s.settled promise = some settled) :
    State.settled { s with runs := s.runs.set j { run with outcome := some outcome } } promise =
      some settled := by
  cases promise with
  | alive => exact h
  | run k =>
    obtain ⟨found, hk, houtcome⟩ := Option.bind_eq_some_iff.mp h
    have hne : j ≠ k := by
      rintro rfl
      obtain rfl : run = found := Option.some.inj (hj.symm.trans hk)
      exact absurd (hopen.symm.trans houtcome) nofun
    show ((s.runs.set j _)[k]?).bind _ = _
    rw [List.getElem?_set_ne hne, hk]
    exact houtcome

/-- What a call does to the runs. -/
theorem invokeRequest_runs (hinvoked : invokeRequest cache runs call now = .promise promise cache' runs') :
    runs' = runs ∨ ∃ key, call.idempotencyKey = some key ∧ (unexpired cache now).get key = none ∧
      runs' = runs ++ [⟨key, call.digest, now, none⟩] := by
  unfold invokeRequest at hinvoked
  split at hinvoked
  · cases hinvoked
    exact .inl rfl
  case h_2 key hkey =>
    simp only at hinvoked
    split at hinvoked
    case h_1 =>
      split at hinvoked
      · cases hinvoked
      · cases hinvoked
        exact .inl rfl
    case h_2 hnew =>
      cases hinvoked
      exact .inr ⟨key, hkey, hnew, rfl⟩

/-- A handler is run under a key whose earlier runs are all superseded. -/
theorem Table.again (h : Table cache runs before) (hle : before ≤ now) {key : Str}
    (hnew : (unexpired cache now).get key = none) (hj : runs[j]? = some earlier)
    (hkey : earlier.idempotencyKey = key) : Superseded runs j earlier now := by
  rcases (h.expire hle).kept j earlier hj with hsuperseded | hget
  · exact hsuperseded
  · exact absurd (hkey ▸ hget) (by simp [hnew])

theorem step_again (h : Table s.cache s.runs s.now) (hok : Ordered s event)
    (hstep : step config s event = some s') :
    SameRuns s.runs s'.runs ∨ ∃ c request now started, event = .request c request now ∧
      s'.runs = s.runs ++ [started] ∧ request.call.idempotencyKey = some started.idempotencyKey ∧
        started.digest = request.call.digest ∧ ∀ (j : Nat) (earlier : Run), s.runs[j]? = some earlier →
          earlier.idempotencyKey = started.idempotencyKey → Superseded s.runs j earlier now := by
  have hsame : s'.runs = s.runs → SameRuns s.runs s'.runs := fun heq => by rw [heq]; exact rfl
  cases step_effect hstep with
  | quiet hruns => exact .inl (hsame hruns)
  | threw hruns => exact .inl (hsame hruns)
  | settles hj hopen hs' =>
    subst hs'
    exact .inl (sameRuns_settle hj)
  | responds _ _ hs' =>
    subst hs'
    exact .inl rfl
  | leaves _ _ hruns => exact .inl (hsame hruns)
  | @admits c now request promise _ hinvoked =>
    rcases invokeRequest_runs hinvoked with hruns | ⟨key, hkey, hnew, hruns⟩
    · exact .inl (hsame hruns)
    · exact .inr ⟨c, request, now, _, rfl, hruns, hkey, rfl,
        fun j earlier hj hearlier => h.again hok hnew hj hearlier⟩

theorem step_once {settled : Except Str Json} (hstep : step config s event = some s')
    (h : s.settled promise = some settled) : s'.settled promise = some settled := by
  have hsame : s'.runs = s.runs → s'.settled promise = some settled := by
    intro hruns
    cases promise with
    | alive => exact h
    | run j =>
      rw [State.settled, hruns]
      exact h
  cases step_effect hstep with
  | quiet hruns => exact hsame hruns
  | threw hruns => exact hsame hruns
  | settles hj hopen hs' =>
    subst hs'
    exact settled_settle hj hopen h
  | responds _ _ hs' =>
    subst hs'
    exact hsame rfl
  | leaves _ _ hruns => exact hsame hruns
  | admits _ hinvoked =>
    rcases invokeRequest_runs hinvoked with hruns | ⟨key, -, -, hruns⟩
    · exact hsame hruns
    · exact settled_append h hruns

theorem step_table (h : Table s.cache s.runs s.now) (hok : Ordered s event)
    (hstep : step config s event = some s') :
    s'.crashed = true ∨ Table s'.cache s'.runs s'.now := by
  cases step_effect hstep with
  | quiet hruns hcache hnow =>
    rw [hruns, hcache, hnow]
    exact .inr h
  | threw _ _ hcrashed => exact .inl hcrashed
  | settles hj _ hs' =>
    subst hs'
    exact .inr (h.settle (sameRuns_settle hj))
  | responds _ _ hs' =>
    subst hs'
    exact .inr h
  | leaves _ _ hruns hcache hnow =>
    rw [hruns, hcache, hnow]
    exact .inr h
  | admits hnow hinvoked =>
    rw [hnow]
    exact .inr (invokeRequest_table h hok hinvoked)

theorem step_outcomes (h : Outcomes config s) (hstep : step config s event = some s') :
    Outcomes config s' := by
  have hold : ∀ request ∈ s.admitted, request.stage ≠ .waiting → ∃ settled,
      s'.settled request.promise = some settled ∧ (request.responses = [] ∨
        request.responses = (answer config request.requestId settled).toList) := by
    intro request hmem hstage
    obtain ⟨settled, hsettled, hresponses⟩ := h request hmem hstage
    exact ⟨settled, step_once hstep hsettled, hresponses⟩
  cases step_effect hstep with
  | quiet _ _ _ hadmitted => exact fun request hmem => hold request (hadmitted ▸ hmem)
  | threw _ hadmitted => exact fun request hmem => hold request (hadmitted ▸ hmem)
  | settles _ _ hs' =>
    refine fun request hmem => hold request ?_
    subst hs'
    exact hmem
  | admits _ _ hadmitted =>
    refine fun request hmem hstage => ?_
    rcases List.mem_append.mp (hadmitted ▸ hmem) with hmem | hnew
    · exact hold request hmem hstage
    · rw [List.mem_singleton.mp hnew] at hstage
      exact absurd rfl hstage
  | @responds i request settled connection hi hsettled hs' =>
    refine fun other hmem hstage => ?_
    rw [hs'] at hmem
    rcases List.mem_or_eq_of_mem_set hmem with hmem | rfl
    · exact hold other hmem hstage
    · refine ⟨settled, step_once hstep hsettled, ?_⟩
      by_cases hended : connection.ended = true
      · exact .inl (if_pos hended)
      · exact .inr (if_neg hended)
  | @leaves i request hi hstage _ _ _ hadmitted =>
    refine fun other hmem hnot => ?_
    rcases List.mem_or_eq_of_mem_set (hadmitted ▸ hmem) with hmem | rfl
    · exact hold other hmem hnot
    · exact hold request (List.mem_of_getElem? hi) (by rw [hstage]; decide)

theorem step_joins {c : Nat} {request : RuntimeRequest} {connection : Connection}
    (h : Table s.cache s.runs s.now) (hle : s.now ≤ now)
    (hstep : step config s (.request c request now) = some s')
    (hc : s.connections c = some connection) (hadmits : Admits config connection request now)
    (hj : s.runs[j]? = some earlier)
    (hkey : request.call.idempotencyKey = some earlier.idempotencyKey)
    (hdigest : earlier.digest = request.call.digest) (hstands : ¬ Superseded s.runs j earlier now) :
    s'.runs = s.runs ∧ s'.admitted = s.admitted ++ [⟨c, request.requestId, .run j, .waiting, []⟩] := by
  obtain ⟨cache', hrepeated⟩ := h.repeated hle hj hkey hdigest hstands
  have hstate : s.acceptRequest config c connection request now = s' := by
    unfold step at hstep
    split at hstep
    · exact absurd hstep nofun
    · simpa [hc, hadmits.notClosed, hadmits.notEnded] using hstep
  rcases acceptRequest_cases config s c connection request now with
    ⟨closed, -, -, -, hnot⟩ | ⟨promise, cache, runs, hinvoked, hs', -⟩ | ⟨cache, hinvoked, -⟩
  · exact absurd ⟨hadmits.accepted, hadmits.load⟩ hnot
  · rw [← hstate, hs']
    cases hinvoked.symm.trans hrepeated
    exact ⟨rfl, rfl⟩
  · exact absurd (hinvoked.symm.trans hrepeated) nofun

/-- In every run whose clock does not go back, mutations are idempotent. -/
theorem mutations_idempotent (config : Config) {events : List Event}
    (hclock : Transitions.AllMeet (step config) Ordered State.initial events)
    (hrun : Transitions.run (step config) State.initial events = some s) :
    Idempotent config s := by
  have hkeep : ∀ s event s', ((s.crashed = true ∨ Table s.cache s.runs s.now) ∧ Outcomes config s) →
      Ordered s event → step config s event = some s' →
        (s'.crashed = true ∨ Table s'.cache s'.runs s'.now) ∧ Outcomes config s' := by
    rintro s event s' ⟨hcrashed | htable, houtcomes⟩ hok hstep
    · simp [step, hcrashed] at hstep
    · exact ⟨step_table htable hok hstep, step_outcomes houtcomes hstep⟩
  obtain ⟨htable, houtcomes⟩ := Transitions.invariant hkeep
    ⟨.inr table_initial, fun _ hmem => absurd hmem List.not_mem_nil⟩ hclock hrun
  rcases htable with hcrashed | htable
  · have hends : ∀ event s', step config s event ≠ some s' := by simp [step, hcrashed]
    exact ⟨fun event s' _ hstep => absurd hstep (hends event s'),
      fun _ _ _ _ s' _ _ _ hstep => absurd hstep (hends _ s'),
      fun event s' _ _ hstep => absurd hstep (hends event s'), houtcomes⟩
  · exact ⟨fun event s' hok hstep => step_again htable hok hstep,
      fun c request now connection s' j earlier hle hstep hc hadmits =>
        step_joins htable hle hstep hc hadmits,
      fun event s' promise settled hstep h => step_once hstep h, houtcomes⟩

/-- The second of two reconciliations joins the first. -/
def repeatedKey : List Event :=
  [.connect 0, .request 0 (exampleRequest (.reconcile (lit "k"))) 0,
    .request 0 (exampleRequest (.reconcile (lit "k"))) 1, .settle 0 (.ok .null)]

theorem mutations_idempotent_repeatedKey :
    ∃ s, Transitions.run (step exampleConfig) State.initial repeatedKey = some s ∧
      s.runs.length = 1 ∧ s.admitted.map (·.promise) = [.run 0, .run 0] ∧
        Idempotent exampleConfig s := by
  have hend : (Transitions.run (step exampleConfig) State.initial repeatedKey).map
      (fun s => (s.runs.length, s.admitted.map (·.promise))) = some (1, [.run 0, .run 0]) := by
    decide +kernel
  obtain ⟨s, hrun, hs⟩ := Option.map_eq_some_iff.mp hend
  rw [Prod.mk.injEq] at hs
  exact ⟨s, hrun, hs.1, hs.2, mutations_idempotent exampleConfig (by decide +kernel) hrun⟩

end PiEnv.SessionManager.RuntimeBus
