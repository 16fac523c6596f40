import PiEnv.SessionManager.Lifecycle

/-!
# What becomes of a session's record

An update does one of four things to the record of a session: it leaves it, opens it
or goes on with the open one, closes it, or collects it once it is closed and old.
Over a run this says what is never lost: a closed record is final, an open one keeps
its origin, and the processes of a workspace agree on their coordinator.
-/

namespace PiEnv.SessionManager.Lifecycle

open Js Effects

-- -----
-- Distinct identities
-- -----

def Distinct (manifest : SessionManifest) : Prop :=
  (manifest.sessions.map (·.base.sessionId)).Nodup

theorem addUniqueIdentity_ok {sessionId : Str} {ids ids' : List Str}
    (h : addUniqueIdentity sessionId ids = .ok ids') : sessionId ∉ ids ∧ ids' = sessionId :: ids := by
  unfold addUniqueIdentity at h
  split at h
  · cases h
  · rename_i hnew
    exact ⟨by simpa using hnew, (Except.ok.inj h).symm⟩

theorem validateSessions_distinct {manifest : SessionManifest} {ids : List Str}
    {previous : Option WorkRecord} {sessions : List WorkRecord}
    (h : validateSessions manifest ids previous sessions = .ok ()) :
    (sessions.map (·.base.sessionId)).Nodup ∧ ∀ record ∈ sessions, record.base.sessionId ∉ ids := by
  induction sessions generalizing ids previous with
  | nil => simp
  | cons record rest ih =>
    simp only [validateSessions, bind_eq_ok] at h
    obtain ⟨-, -, -, -, ids', hids, -, -, -, -, hrest⟩ := h
    obtain ⟨hnew, rfl⟩ := addUniqueIdentity_ok hids
    obtain ⟨hnodup, hothers⟩ := ih hrest
    refine ⟨?_, ?_⟩
    · rw [List.map_cons, List.nodup_cons]
      refine ⟨fun hmem => ?_, hnodup⟩
      obtain ⟨other, hother, hsame⟩ := List.mem_map.mp hmem
      exact hothers other hother (by simp [hsame])
    · intro other hother
      rcases List.mem_cons.mp hother with rfl | hother
      · exact hnew
      · exact fun hmem => hothers other hother (List.mem_cons_of_mem _ hmem)

theorem checkManifest_distinct {manifest : SessionManifest} (h : checkManifest manifest = .ok ()) :
    Distinct manifest := by
  simp only [checkManifest, bind_eq_ok] at h
  obtain ⟨-, -, ids, -, hsessions⟩ := h
  exact (validateSessions_distinct hsessions).1

-- -----
-- Finding a record
-- -----

variable {manifest : SessionManifest} {sessionId : Str} {record : WorkRecord}

theorem findWork_eq_some (h : Distinct manifest) :
    findWork manifest sessionId = some record ↔
      record ∈ manifest.sessions ∧ record.base.sessionId = sessionId := by
  constructor
  · intro hfound
    exact ⟨List.mem_of_find?_eq_some hfound, by simpa using List.find?_some hfound⟩
  · rintro ⟨hmem, rfl⟩
    cases hfound : findWork manifest record.base.sessionId with
    | none => simpa using List.find?_eq_none.mp hfound record hmem
    | some other =>
      have hsame : other.base.sessionId = record.base.sessionId := by
        simpa using List.find?_some hfound
      rw [List.inj_on_of_nodup_map h (List.mem_of_find?_eq_some hfound) hmem hsame]

theorem findWork_replace {localeCompare : Str → Str → Ordering} (h : Distinct manifest) :
    findWork (replaceWorkRecord localeCompare manifest record) sessionId =
      if record.base.sessionId = sessionId then some record else findWork manifest sessionId := by
  have hmem (other : WorkRecord) :
      other ∈ (replaceWorkRecord localeCompare manifest record).sessions ↔
        (other ∈ manifest.sessions ∧ other.base.sessionId ≠ record.base.sessionId) ∨ other = record := by
    simp [replaceWorkRecord, List.mem_insertionSort]
  have hdistinct : Distinct (replaceWorkRecord localeCompare manifest record) := by
    refine (((List.perm_insertionSort _ _).map _).nodup_iff).mpr ?_
    rw [List.map_append, List.nodup_append]
    refine ⟨h.sublist (List.filter_sublist.map _), List.nodup_singleton _, ?_⟩
    rintro _ hfirst _ hlast rfl
    obtain ⟨other, hother, hsame⟩ := List.mem_map.mp hfirst
    obtain rfl := List.mem_singleton.mp hlast
    simpa [hsame] using (List.mem_filter.mp hother).2
  refine Option.ext fun other => ?_
  rw [findWork_eq_some hdistinct, hmem]
  split
  case isTrue hid =>
    subst hid
    constructor
    · rintro ⟨⟨-, hne⟩ | rfl, hid⟩
      · exact absurd hid hne
      · rfl
    · rintro ⟨⟩
      exact ⟨.inr rfl, rfl⟩
  case isFalse hid =>
    rw [findWork_eq_some h]
    constructor
    · rintro ⟨⟨hother, -⟩ | rfl, hsame⟩
      · exact ⟨hother, hsame⟩
      · exact absurd hsame hid
    · rintro ⟨hother, rfl⟩
      exact ⟨.inl ⟨hother, Ne.symm hid⟩, rfl⟩

/-- What a collection keeps of the record of a session. -/
def isKept (now : Nat) : WorkRecord → Bool
  | .opened _ => true
  | .closed record => isRecent now record.closedAt

theorem findWork_gc {now : Nat} (h : Distinct manifest) :
    findWork (gcTombstones manifest now) sessionId = (findWork manifest sessionId).filter (isKept now) := by
  have hsessions : (gcTombstones manifest now).sessions = manifest.sessions.filter (isKept now) := rfl
  have hdistinct : Distinct (gcTombstones manifest now) := h.sublist (List.filter_sublist.map _)
  refine Option.ext fun other => ?_
  rw [findWork_eq_some hdistinct, Option.filter_eq_some_iff, findWork_eq_some h, hsessions,
    List.mem_filter]
  tauto

theorem findRecord_work (h : findRecord manifest sessionId = some (.work record)) :
    findWork manifest sessionId = some record := by
  unfold findRecord at h
  split at h
  · split at h
    · cases h
    · simpa using h
  · simpa using h

theorem findRecord_none (h : findRecord manifest sessionId = none) :
    findWork manifest sessionId = none := by
  unfold findRecord at h
  split at h
  · split at h
    · cases h
    · simpa using h
  · simpa using h

theorem findOpenWorkRecord_ok {found : Option OpenSessionRecord}
    (h : findOpenWorkRecord manifest sessionId = .ok found) :
    findWork manifest sessionId = found.map .opened := by
  unfold findOpenWorkRecord at h
  split at h
  case h_1 hnone =>
    obtain rfl := Except.ok.inj h
    exact findRecord_none hnone
  case h_2 => cases h
  case h_3 => cases h
  case h_4 record hrecord =>
    obtain rfl := Except.ok.inj h
    exact findRecord_work hrecord

theorem requireOpen_ok {found : OpenSessionRecord} (h : requireOpen manifest sessionId = .ok found) :
    findWork manifest sessionId = some (.opened found) := by
  unfold requireOpen at h
  split at h
  · rename_i record hrecord
    obtain rfl := Except.ok.inj h
    exact findRecord_work hrecord
  · cases h

theorem findWork_sessionId (h : findWork manifest sessionId = some record) :
    record.base.sessionId = sessionId := by
  simpa using List.find?_some h

-- -----
-- One update
-- -----

/-- How an open record goes on. -/
structure Continues (found selected : OpenSessionRecord) : Prop where
  created : selected.createdAt = found.createdAt
  task : selected.taskRef = found.taskRef
  explicit : found.explicitName = true → selected.explicitName = true
  materialized : found.persistence ≠ .pending → selected.persistence ≠ .pending

/-- What an update does to the record of a session. -/
inductive Fate (change : Change) (sessionId : Str) : Option WorkRecord → Option WorkRecord → Prop
  | kept (record : Option WorkRecord) : Fate change sessionId record record
  | opened {found : Option OpenSessionRecord} {selected : OpenSessionRecord}
      (continues : ∀ record ∈ found, Continues record selected) :
      Fate change sessionId (found.map .opened) (some (.opened selected))
  | closed {found : OpenSessionRecord} {persistence : Persistence} {source : CloseSource}
      {timestamp : Str} (closes : change = .close sessionId persistence source timestamp) :
      Fate change sessionId (some (.opened found)) (some (.closed { found with
        persistence, closedAt := timestamp, closedBy := source }))
  | collected {record : ClosedSessionRecord} {now : Nat} {uuid : Str}
      (collects : change = .ensureCoordinator now uuid) (old : isRecent now record.closedAt = false) :
      Fate change sessionId (some (.closed record)) none

theorem startedRecord_continues {cwd timestamp : Str} {requestedName : Option Str}
    {observed : Persistence} {found : Option OpenSessionRecord} :
    ∀ record ∈ found,
      Continues record (startedRecord sessionId cwd requestedName observed timestamp found) := by
  rintro record ⟨⟩
  have hobserved : record.persistence ≠ .pending →
      (startedRecord sessionId cwd requestedName observed timestamp (some record)).persistence ≠
        .pending := by
    intro hrecord
    unfold startedRecord
    cases observed with
    | materialized =>
      simp only
      split <;> simp
    | pending =>
      simp only
      split <;> exact hrecord
  have hexplicit : record.explicitName = true →
      (startedRecord sessionId cwd requestedName observed timestamp (some record)).explicitName =
        true := by
    intro h
    simp [startedRecord, h]
  refine ⟨?_, ?_, hexplicit, hobserved⟩
  · unfold startedRecord
    simp only
    split <;> rfl
  · unfold startedRecord
    simp only
    split <;> rfl

theorem adoptedRecord_continues {cwd sessionFile timestamp : Str} {requestedName : Option Str}
    {found : Option OpenSessionRecord} :
    ∀ record ∈ found,
      Continues record (adoptedRecord sessionId cwd requestedName sessionFile timestamp found) := by
  rintro record ⟨⟩
  refine ⟨rfl, rfl, fun h => ?_, fun _ => by simp [adoptedRecord]⟩
  simp [adoptedRecord, h]

variable {localeCompare : Str → Str → Ordering} {draft : SessionManifest} {selected : Selected}
  {change : Change}

theorem fate_replace {found : Option OpenSessionRecord} {next : OpenSessionRecord} (h : Distinct manifest)
    (hfound : findWork manifest next.sessionId = found.map .opened)
    (hcontinues : ∀ record ∈ found, Continues record next) :
    Fate change sessionId (findWork manifest sessionId)
      (findWork (replaceWorkRecord localeCompare manifest (.opened next)) sessionId) := by
  rw [findWork_replace h]
  split
  · rename_i hid
    obtain rfl : next.sessionId = sessionId := hid
    rw [hfound]
    exact .opened hcontinues
  · exact .kept _

theorem fate_goesOn {found next : OpenSessionRecord} (h : Distinct manifest)
    (hfound : findWork manifest next.sessionId = some (.opened found))
    (hcontinues : Continues found next) :
    Fate change sessionId (findWork manifest sessionId)
      (findWork (replaceWorkRecord localeCompare manifest (.opened next)) sessionId) := by
  have hmap : findWork manifest next.sessionId = (some found).map .opened := hfound
  refine fate_replace h hmap ?_
  rintro _ ⟨⟩
  exact hcontinues

theorem apply_fate (h : Distinct manifest)
    (happly : change.apply localeCompare manifest = .ok (draft, selected)) :
    Fate change sessionId (findWork manifest sessionId) (findWork draft sessionId) := by
  cases change with
  | start id cwd requestedName observed timestamp =>
    obtain ⟨found, hfound, happly⟩ := bind_eq_ok.mp happly
    obtain ⟨rfl, -⟩ := Prod.mk.inj (Except.ok.inj happly)
    have hwork := findOpenWorkRecord_ok hfound
    refine fate_replace h ?_ startedRecord_continues
    cases found with
    | none => exact hwork
    | some record =>
      have hid : record.sessionId = id := findWork_sessionId hwork
      have hnext : (startedRecord id cwd requestedName observed timestamp (some record)).sessionId =
          id := by
        unfold startedRecord
        simp only
        split <;> exact hid
      rw [hnext]
      exact hwork
  | adopt id cwd requestedName sessionFile timestamp =>
    obtain ⟨found, hfound, happly⟩ := bind_eq_ok.mp happly
    obtain ⟨rfl, -⟩ := Prod.mk.inj (Except.ok.inj happly)
    exact fate_replace h (findOpenWorkRecord_ok hfound) adoptedRecord_continues
  | close id persistence source timestamp =>
    simp only [Change.apply] at happly
    split at happly
    case h_1 =>
      obtain ⟨rfl, -⟩ := Prod.mk.inj (Except.ok.inj happly)
      exact .kept _
    case h_2 found hfound =>
      obtain ⟨rfl, -⟩ := Prod.mk.inj (Except.ok.inj happly)
      have hwork := findRecord_work hfound
      have hid : found.sessionId = id := findWork_sessionId hwork
      rw [findWork_replace h]
      split
      · rename_i hsame
        obtain rfl : id = sessionId := hid.symm.trans hsame
        rw [hwork]
        exact .closed rfl
      · exact .kept _
    case h_3 => cases happly
  | rename id name =>
    obtain ⟨found, hfound, happly⟩ := bind_eq_ok.mp happly
    obtain ⟨rfl, -⟩ := Prod.mk.inj (Except.ok.inj happly)
    have hwork := requireOpen_ok hfound
    obtain rfl : found.sessionId = id := findWork_sessionId hwork
    exact fate_goesOn h hwork ⟨rfl, rfl, fun _ => rfl, id⟩
  | refresh id sessionFile =>
    obtain ⟨found, hfound, happly⟩ := bind_eq_ok.mp happly
    obtain ⟨rfl, -⟩ := Prod.mk.inj (Except.ok.inj happly)
    have hwork := requireOpen_ok hfound
    obtain rfl : found.sessionId = id := findWork_sessionId hwork
    exact fate_goesOn h hwork ⟨rfl, rfl, id, fun _ => by simp⟩
  | ensureCoordinator now uuid =>
    obtain ⟨rfl, -⟩ := Prod.mk.inj (Except.ok.inj happly)
    show Fate _ sessionId (findWork manifest sessionId) (findWork (gcTombstones manifest now) sessionId)
    rw [findWork_gc h]
    cases hwork : findWork manifest sessionId with
    | none => exact .kept none
    | some record =>
      rw [Option.filter_some]
      split
      · exact .kept _
      · rename_i hgone
        cases record with
        | opened => exact absurd rfl hgone
        | closed record => exact .collected rfl (by simpa [isKept] using hgone)

-- -----
-- One step
-- -----

/-- The durable record of a session. -/
def recordAt (catalogs : Catalogs) (root sessionId : Str) : Option WorkRecord :=
  (catalogs root).bind (findWork · sessionId)

/-- What an update commits is its transform of the manifest on disk, or of an empty one. -/
theorem nextManifest_ok {canonicalCwd : Str} {durable : Option SessionManifest} {now : Nat}
    {updated : Updated}
    (h : nextManifest localeCompare canonicalCwd change durable now = .ok updated) :
    ∃ current draft, (durable = some current ∧ Distinct current ∨
        durable = none ∧ current = emptyManifest canonicalCwd now) ∧
      change.apply localeCompare current = .ok (draft, updated.selected) ∧
      updated.committed.sessions = draft.sessions ∧
      updated.committed.coordinator = draft.coordinator := by
  obtain ⟨current, hcurrent, h⟩ := bind_eq_ok.mp h
  obtain ⟨⟨draft, selected⟩, happly, h⟩ := bind_eq_ok.mp h
  obtain ⟨_, _, h⟩ := bind_eq_ok.mp h
  obtain rfl := Except.ok.inj h
  refine ⟨_, draft, ?_, mapError_eq_ok.mp happly, rfl, rfl⟩
  cases durable with
  | none =>
    obtain rfl := Except.ok.inj hcurrent
    exact .inr ⟨rfl, rfl⟩
  | some manifest =>
    obtain ⟨read, hread, hcurrent⟩ := bind_eq_ok.mp hcurrent
    obtain rfl := Except.ok.inj hcurrent
    obtain ⟨_, hcheck, hread⟩ := bind_eq_ok.mp hread
    split at hread
    · obtain rfl := Except.ok.inj hread
      exact .inl ⟨rfl, checkManifest_distinct (mapError_eq_ok.mp hcheck)⟩
    · cases hread

theorem nextManifest_fate {canonicalCwd : Str} {durable : Option SessionManifest} {now : Nat}
    {updated : Updated}
    (h : nextManifest localeCompare canonicalCwd change durable now = .ok updated) :
    Fate change sessionId (durable.bind (findWork · sessionId))
      (findWork updated.committed sessionId) := by
  obtain ⟨current, draft, hcurrent, happly, hsessions, -⟩ := nextManifest_ok h
  rw [findWork, hsessions]
  rcases hcurrent with ⟨rfl, hdistinct⟩ | ⟨rfl, rfl⟩
  · exact apply_fate hdistinct happly
  · have hempty : Distinct (emptyManifest canonicalCwd now) := List.nodup_nil
    exact apply_fate hempty happly

variable {S : Setting} {root : Str} {catalogs after : Catalogs}

/-- An operation leaves the catalogs as they are, or it is an update that is committed. -/
theorem exec_cases {o : Op} {answer : Res o} (h : S.exec catalogs o answer after) :
    after = catalogs ∨ ∃ cwd change now updated, o = .update cwd change ∧
      nextManifest S.localeCompare (S.canonical cwd) change (catalogs (S.canonical cwd)) now =
        .ok updated ∧
      after = Function.update catalogs (S.canonical cwd) (some updated.committed) := by
  cases o with
  | update cwd change =>
    rcases h with ⟨-, -, hsame⟩ | ⟨now, updated, hupdated, hafter, -⟩
    · exact .inl hsame
    · exact .inr ⟨cwd, change, now, updated, rfl, hupdated, hafter⟩
  | read => exact .inl h.1
  | _ => exact .inl h

theorem exec_fate (root sessionId : Str) {o : Op} {answer : Res o} (h : S.exec catalogs o answer after) :
    recordAt after root sessionId = recordAt catalogs root sessionId ∨
      ∃ cwd change, o = .update cwd change ∧ S.canonical cwd = root ∧
        Fate change sessionId (recordAt catalogs root sessionId) (recordAt after root sessionId) := by
  rcases exec_cases h with rfl | ⟨cwd, change, now, updated, rfl, hupdated, rfl⟩
  · exact .inl rfl
  by_cases hroot : S.canonical cwd = root
  · subst hroot
    refine .inr ⟨cwd, change, rfl, rfl, ?_⟩
    simp only [recordAt, Function.update_self, Option.bind_some]
    exact nextManifest_fate hupdated
  · refine .inl ?_
    simp only [recordAt, Function.update_of_ne (Ne.symm hroot)]

variable {ι : Type} [DecidableEq ι] {α : Type} {c c' : Config ι Op Res α Catalogs}

/-- A collection removes a record that was closed long ago. -/
structure Collects (S : Setting) (root sessionId : Str) (record : ClosedSessionRecord)
    (c c' : Config ι Op Res α Catalogs) : Prop where
  collection : ∃ i cwd now uuid k, c.threads i = .op (.update cwd (.ensureCoordinator now uuid)) k ∧
    S.canonical cwd = root ∧ isRecent now record.closedAt = false
  before : recordAt c.shared root sessionId = some (.closed record)
  after : recordAt c'.shared root sessionId = none

/-- What lasts from a record to a later one of the same session. -/
structure Lineage (record later : WorkRecord) : Prop where
  created : later.base.createdAt = record.base.createdAt
  task : later.base.taskRef = record.base.taskRef
  explicit : record.base.explicitName = true → later.base.explicitName = true
  final : ∀ closed, record = .closed closed → later = record

theorem Lineage.refl (record : WorkRecord) : Lineage record record := ⟨rfl, rfl, id, fun _ _ => rfl⟩

theorem Lineage.trans {first second third : WorkRecord} (h : Lineage first second)
    (h' : Lineage second third) : Lineage first third := by
  refine ⟨h'.created.trans h.created, h'.task.trans h.task, h'.explicit ∘ h.explicit, ?_⟩
  intro closed hclosed
  have hsecond := h.final closed hclosed
  exact (h'.final closed (hsecond.trans hclosed)).trans hsecond

theorem Fate.lineage {after : Option WorkRecord} (h : Fate change sessionId (some record) after) :
    (∃ later, after = some later ∧ Lineage record later) ∨
      ∃ closed now uuid, change = .ensureCoordinator now uuid ∧ isRecent now closed.closedAt = false ∧
        record = .closed closed ∧ after = none := by
  generalize hfirst : some record = first at h
  cases h with
  | kept => exact .inl ⟨record, hfirst.symm, .refl record⟩
  | opened hcontinues =>
    obtain ⟨earlier, hearlier, rfl⟩ := Option.map_eq_some_iff.mp hfirst.symm
    have hone := hcontinues earlier hearlier
    exact .inl ⟨_, rfl, hone.created, hone.task, hone.explicit, fun _ hclosed => by cases hclosed⟩
  | closed =>
    obtain rfl := Option.some.inj hfirst
    exact .inl ⟨_, rfl, rfl, rfl, id, fun _ hclosed => by cases hclosed⟩
  | @collected closed now uuid hcollects hold =>
    exact .inr ⟨closed, now, uuid, hcollects, hold, Option.some.inj hfirst, rfl⟩

theorem Fate.materialized {after : Option WorkRecord} (h : Fate change sessionId (some record) after)
    (hfile : record.base.persistence ≠ .pending)
    (hclose : ∀ source timestamp, change ≠ .close sessionId .pending source timestamp) :
    (∃ later, after = some later ∧ later.base.persistence ≠ .pending) ∨ after = none := by
  generalize hfirst : some record = first at h
  cases h with
  | kept => exact .inl ⟨record, hfirst.symm, hfile⟩
  | opened hcontinues =>
    obtain ⟨earlier, hearlier, rfl⟩ := Option.map_eq_some_iff.mp hfirst.symm
    exact .inl ⟨_, rfl, (hcontinues earlier hearlier).materialized hfile⟩
  | @closed found persistence source timestamp hcloses =>
    refine .inl ⟨_, rfl, fun hpending => hclose source timestamp ?_⟩
    obtain rfl : persistence = .pending := hpending
    exact hcloses
  | collected => exact .inr rfl

/-- A step carries a record on, or collects it. -/
theorem step_lineage (h : Step (S.machine ι) c c')
    (hrecord : recordAt c.shared root sessionId = some record) :
    (∃ later, recordAt c'.shared root sessionId = some later ∧ Lineage record later) ∨
      ∃ closed, Collects S root sessionId closed c c' := by
  cases h with
  | env hrun => exact absurd hrun id
  | @thread i o k answer after hnext hrun =>
    rcases exec_fate root sessionId hrun with
      hsame | ⟨cwd, change, rfl, hroot, hfate⟩
    · exact .inl ⟨record, hsame.trans hrecord, .refl record⟩
    · rw [hrecord] at hfate
      refine hfate.lineage.imp_right ?_
      rintro ⟨closed, now, uuid, rfl, hold, rfl, hnone⟩
      exact ⟨closed, ⟨i, cwd, now, uuid, k, hnext, hroot, hold⟩, hrecord, hnone⟩

-- -----
-- Closing with a file
-- -----

/-- No close writes back that the session had no file yet. -/
def Setting.fileClosing (S : Setting) (sessionId : Str) : Exec Op Res Catalogs :=
  fun catalogs o answer after => S.exec catalogs o answer after ∧
    ∀ cwd source timestamp, o ≠ .update cwd (.close sessionId .pending source timestamp)

def Setting.fileMachine (S : Setting) (ι : Type) (sessionId : Str) : Machine ι Op Res Catalogs :=
  ⟨fun _ => S.fileClosing sessionId, fun _ _ => False⟩

theorem step_of_fileStep (h : Step (S.fileMachine ι sessionId) c c') : Step (S.machine ι) c c' := by
  cases h with
  | env hrun => exact absurd hrun id
  | thread i hnext hrun => exact .thread i hnext hrun.1

theorem reach_of_fileReach (h : Reach (S.fileMachine ι sessionId) c c') : Reach (S.machine ι) c c' := by
  induction h with
  | refl => exact .refl
  | tail _ hs ih => exact ih.tail (step_of_fileStep hs)

-- -----
-- A workspace
-- -----

/-- A close with a copy from before the session had a file. -/
def Change.isPendingClose : Change → Bool
  | .close _ .pending _ _ => true
  | _ => false

/-- Calls that succeed wherever they can; no session without a file is closed. -/
def Setting.answer (S : Setting) (now : Nat) (catalogs : Catalogs) : (o : Op) → Option (Res o × Catalogs)
  | .identity cwd => some (.ok (S.canonical cwd), catalogs)
  | .fileExists _ => some (.ok true, catalogs)
  | .verify .. | .bindCurrent .. | .renameCurrent .. => some (.ok (), catalogs)
  | .read cwd => some (.ok (catalogs (S.canonical cwd)), catalogs)
  | .currentTimeMillis => some (now, catalogs)
  | .randomUUID => some (decimal now, catalogs)
  | .update cwd change =>
    if change.isPendingClose then none
    else
      match nextManifest S.localeCompare (S.canonical cwd) change (catalogs (S.canonical cwd)) now with
      | .ok updated =>
        some (.ok updated, Function.update catalogs (S.canonical cwd) (some updated.committed))
      | .error failure => some (.error failure, catalogs)

theorem answer_sound {now : Nat} {o : Op} {result : Res o}
    (h : S.answer now catalogs o = some (result, after)) :
    S.fileClosing sessionId catalogs o result after := by
  cases o with
  | update cwd change =>
    simp only [Setting.answer] at h
    split at h
    · cases h
    rename_i hfile
    refine ⟨?_, fun _ _ _ hop => hfile (by cases hop; rfl)⟩
    split at h
    · rename_i updated hupdated
      cases h
      exact .inr ⟨now, updated, hupdated, rfl, .inl rfl⟩
    · rename_i failure _
      cases h
      exact .inl ⟨failure, rfl, rfl⟩
  | read =>
    cases h
    exact ⟨⟨rfl, fun manifest hread => (Except.ok.inj hread).symm⟩, fun _ _ _ hop => by cases hop⟩
  | _ =>
    cases h
    exact ⟨rfl, fun _ _ _ hop => by cases hop⟩

def ordinal : Setting where
  localeCompare left right := if left < right then .lt else if left = right then .eq else .gt
  canonical := id

/-- The first of January 2020, and some days later. -/
def instant (days : Nat) : Nat := 1577836800000 + days * 86400000

def planSession : OpenSessionRecord where
  sessionId := lit "s"
  cwd := lit "/w"
  name := some (lit "plan")
  persistence := .materialized (lit "/w/s.jsonl")
  createdAt := toISOString (instant 0)
  lastOpenedAt := toISOString (instant 0)
  taskRef := none
  explicitName := true

def closedPlan : ClosedSessionRecord :=
  { planSession with closedAt := toISOString (instant 1), closedBy := .ctrlD }

def planManifest : SessionManifest :=
  ⟨lit "/w", .ofInt 1, toISOString (instant 0), none, [.opened planSession]⟩

def planCatalogs : Catalogs := fun root => if root = lit "/w" then some planManifest else none

/-- The session is closed on the next day; the coordinator is ensured twice, weeks later. -/
def planCalls : Nat → Call
  | 0 => .close ⟨planSession, lit "%1"⟩ .ctrlD none
  | _ => .ensureCoordinator (lit "/w")

def planStart : Config Nat Op Res (Except Failure Outcome) Catalogs := ⟨planCatalogs, fun i => (planCalls i).run⟩

def planClock (i : Nat) : Nat := instant (1 + 40 * i)

def planAnswer (i : Nat) : Catalogs → (o : Op) → Option (Res o × Catalogs) := ordinal.answer (planClock i)

def coordinatorOf : Prog Op Res (Except Failure Outcome) → Option CoordinatorRecord
  | .ret (.ok (.coordinator record)) => some record
  | _ => none

theorem coordinatorOf_eq {p : Prog Op Res (Except Failure Outcome)} {record : CoordinatorRecord}
    (h : coordinatorOf p = some record) : p = .ret (.ok (.coordinator record)) := by
  unfold coordinatorOf at h
  split at h
  · obtain rfl := Option.some.inj h
    rfl
  · cases h

theorem planStart_record :
    recordAt planStart.shared (lit "/w") (lit "s") = some (.opened planSession) := by decide +kernel

theorem plan_runs : ∃ c c' record record', Reach (ordinal.fileMachine Nat (lit "s")) planStart c ∧
    Reach (ordinal.fileMachine Nat (lit "s")) c c' ∧
    recordAt c.shared (lit "/w") (lit "s") = some (.closed closedPlan) ∧
    recordAt c'.shared (lit "/w") (lit "s") = none ∧
    c'.threads 1 = .ret (.ok (.coordinator record)) ∧
    c'.threads 2 = .ret (.ok (.coordinator record')) := by
  have hfacts : ((schedule planAnswer [(0, 9)] planStart).bind fun c =>
      (schedule planAnswer [(1, 9), (2, 9)] c).map fun c' =>
        (recordAt c.shared (lit "/w") (lit "s"), recordAt c'.shared (lit "/w") (lit "s"),
          (coordinatorOf (c'.threads 1)).isSome, (coordinatorOf (c'.threads 2)).isSome)) =
      some (some (.closed closedPlan), none, true, true) := by decide +kernel
  obtain ⟨c, hc, hfacts⟩ := Option.bind_eq_some_iff.mp hfacts
  obtain ⟨c', hc', hfacts⟩ := Option.map_eq_some_iff.mp hfacts
  simp only [Prod.mk.injEq, Option.isSome_iff_exists] at hfacts
  obtain ⟨hclosed, hnone, ⟨record, hrecord⟩, ⟨record', hrecord'⟩⟩ := hfacts
  have hsound (i : Nat) (s : Catalogs) (o : Op) (r : Res o) (s' : Catalogs)
      (h : planAnswer i s o = some (r, s')) : (ordinal.fileMachine Nat (lit "s")).exec i s o r s' :=
    answer_sound h
  exact ⟨c, c', record, record', schedule_reach hsound hc, schedule_reach hsound hc', hclosed, hnone,
    coordinatorOf_eq hrecord, coordinatorOf_eq hrecord'⟩

-- -----
-- Runs
-- -----

theorem nextManifest_read {canonicalCwd : Str} {durable : Option SessionManifest} {now : Nat}
    {updated : Updated} (h : nextManifest localeCompare canonicalCwd change durable now = .ok updated) :
    readUnlocked canonicalCwd updated.committed = .ok updated.committed := by
  obtain ⟨current, -, h⟩ := bind_eq_ok.mp h
  obtain ⟨⟨draft, selected⟩, -, h⟩ := bind_eq_ok.mp h
  obtain ⟨_, hcheck, h⟩ := bind_eq_ok.mp h
  obtain rfl := Except.ok.inj h
  exact bind_eq_ok.mpr ⟨_, hcheck, if_pos rfl⟩

/-- A closed record is final until it is collected. -/
theorem closed_final (hr : Reach (S.machine ι) c c') {closed : ClosedSessionRecord}
    (hclosed : recordAt c.shared root sessionId = some (.closed closed)) :
    recordAt c'.shared root sessionId = some (.closed closed) ∨
      ∃ before after, Reach (S.machine ι) c before ∧ Step (S.machine ι) before after ∧
        Collects S root sessionId closed before after ∧ Reach (S.machine ι) after c' := by
  have hstep (c c' : Config ι Op Res α Catalogs) (h : Step (S.machine ι) c c')
      (hrecord : recordAt c.shared root sessionId = some (.closed closed)) :
      recordAt c'.shared root sessionId = some (.closed closed) ∨
        Collects S root sessionId closed c c' := by
    rcases step_lineage h hrecord with ⟨later, hlater, hlineage⟩ | ⟨other, hcollects⟩
    · exact .inl (hlater.trans (congrArg some (hlineage.final closed rfl)))
    · obtain rfl : other = closed := by
        injection Option.some.inj (hcollects.before.symm.trans hrecord)
      exact .inr hcollects
  refine (hr.until hstep hclosed).imp_right ?_
  rintro ⟨before, after, hbefore, -, hone, hcollects, hafter⟩
  exact ⟨before, after, hbefore, hone, hcollects, hafter⟩

theorem closed_final_collected : ∃ c c' : Config Nat Op Res (Except Failure Outcome) Catalogs,
    recordAt c.shared (lit "/w") (lit "s") = some (.closed closedPlan) ∧
    ∃ before after, Reach (ordinal.machine Nat) c before ∧ Step (ordinal.machine Nat) before after ∧
      Collects ordinal (lit "/w") (lit "s") closedPlan before after ∧
      Reach (ordinal.machine Nat) after c' := by
  obtain ⟨c, c', -, -, -, hr, hclosed, hnone, -, -⟩ := plan_runs
  refine ⟨c, c', hclosed, ?_⟩
  rcases closed_final (reach_of_fileReach hr) hclosed with hkept | hcollected
  · cases hnone.symm.trans hkept
  · exact hcollected

/-- A session keeps its origin for as long as it is not collected. -/
theorem origin_lasts (hr : Reach (S.machine ι) c c')
    (hrecord : recordAt c.shared root sessionId = some record) :
    (∃ later, recordAt c'.shared root sessionId = some later ∧
      later.base.createdAt = record.base.createdAt ∧ later.base.taskRef = record.base.taskRef ∧
      (record.base.explicitName = true → later.base.explicitName = true)) ∨
    ∃ closed before after, closed.createdAt = record.base.createdAt ∧
      Reach (S.machine ι) c before ∧ Step (S.machine ι) before after ∧
      Collects S root sessionId closed before after ∧ Reach (S.machine ι) after c' := by
  have hstep (c c' : Config ι Op Res α Catalogs) (h : Step (S.machine ι) c c') :
      (∃ later, recordAt c.shared root sessionId = some later ∧ Lineage record later) →
      (∃ later, recordAt c'.shared root sessionId = some later ∧ Lineage record later) ∨
        ∃ closed, Collects S root sessionId closed c c' := by
    rintro ⟨later, hlater, hlineage⟩
    refine (step_lineage h hlater).imp_left ?_
    rintro ⟨last, hlast, hnext⟩
    exact ⟨last, hlast, hlineage.trans hnext⟩
  rcases hr.until hstep ⟨record, hrecord, .refl record⟩ with
    ⟨later, hlater, hlineage⟩ | ⟨before, after, hbefore, ⟨later, hlater, hlineage⟩, hone, ⟨closed, hcollects⟩, hafter⟩
  · exact .inl ⟨later, hlater, hlineage.created, hlineage.task, hlineage.explicit⟩
  · obtain rfl := Option.some.inj (hcollects.before.symm.trans hlater)
    exact .inr ⟨closed, before, after, hlineage.created, hbefore, hone, hcollects, hafter⟩

theorem origin_lasts_closed : ∃ c : Config Nat Op Res (Except Failure Outcome) Catalogs,
    recordAt c.shared (lit "/w") (lit "s") = some (.closed closedPlan) ∧
    ((∃ later, recordAt c.shared (lit "/w") (lit "s") = some later ∧
      later.base.createdAt = planSession.createdAt ∧ later.base.taskRef = planSession.taskRef ∧
      (planSession.explicitName = true → later.base.explicitName = true)) ∨
    ∃ closed before after, closed.createdAt = planSession.createdAt ∧
      Reach (ordinal.machine Nat) planStart before ∧ Step (ordinal.machine Nat) before after ∧
      Collects ordinal (lit "/w") (lit "s") closed before after ∧
      Reach (ordinal.machine Nat) after c) := by
  obtain ⟨c, -, -, -, hr, -, hclosed, -⟩ := plan_runs
  exact ⟨c, hclosed, origin_lasts (reach_of_fileReach hr) planStart_record⟩

theorem fileStep_materialized (h : Step (S.fileMachine ι sessionId) c c')
    (hrecord : recordAt c.shared root sessionId = some record)
    (hfile : record.base.persistence ≠ .pending) :
    (∃ later, recordAt c'.shared root sessionId = some later ∧ later.base.persistence ≠ .pending) ∨
      recordAt c'.shared root sessionId = none := by
  cases h with
  | env hrun => exact absurd hrun id
  | @thread i o k answer after hnext hrun =>
    rcases exec_fate root sessionId hrun.1 with
      hsame | ⟨cwd, change, rfl, -, hfate⟩
    · exact .inl ⟨record, hsame.trans hrecord, hfile⟩
    · rw [hrecord] at hfate
      exact hfate.materialized hfile fun source timestamp hcloses =>
        hrun.2 cwd source timestamp (by rw [hcloses])

/-- A session that has a file keeps one until it is collected, as long as nobody closes it
with a copy from before it had the file. -/
theorem file_lasts (hr : Reach (S.fileMachine ι sessionId) c c')
    (hrecord : recordAt c.shared root sessionId = some record)
    (hfile : record.base.persistence ≠ .pending) :
    (∃ later, recordAt c'.shared root sessionId = some later ∧ later.base.persistence ≠ .pending) ∨
    ∃ closed before after, closed.persistence ≠ .pending ∧
      Reach (S.fileMachine ι sessionId) c before ∧ Step (S.fileMachine ι sessionId) before after ∧
      Collects S root sessionId closed before after ∧
      Reach (S.fileMachine ι sessionId) after c' := by
  have hstep (c c' : Config ι Op Res α Catalogs) (h : Step (S.fileMachine ι sessionId) c c') :
      (∃ later, recordAt c.shared root sessionId = some later ∧ later.base.persistence ≠ .pending) →
      (∃ later, recordAt c'.shared root sessionId = some later ∧ later.base.persistence ≠ .pending) ∨
        ∃ closed, Collects S root sessionId closed c c' := by
    rintro ⟨later, hlater, hpersistence⟩
    refine (fileStep_materialized h hlater hpersistence).imp_right fun hnone => ?_
    rcases step_lineage (step_of_fileStep h) hlater with ⟨last, hlast, -⟩ | hcollects
    · cases hnone.symm.trans hlast
    · exact hcollects
  rcases hr.until hstep ⟨record, hrecord, hfile⟩ with
    hlater | ⟨before, after, hbefore, ⟨later, hlater, hpersistence⟩, hone, ⟨closed, hcollects⟩, hafter⟩
  · exact .inl hlater
  · obtain rfl := Option.some.inj (hcollects.before.symm.trans hlater)
    exact .inr ⟨closed, before, after, hpersistence, hbefore, hone, hcollects, hafter⟩

theorem file_lasts_collected : ∃ (c : Config Nat Op Res (Except Failure Outcome) Catalogs)
    (closed : ClosedSessionRecord) (before after : Config Nat Op Res (Except Failure Outcome) Catalogs),
    closed.persistence ≠ .pending ∧ Reach (ordinal.fileMachine Nat (lit "s")) planStart before ∧
      Step (ordinal.fileMachine Nat (lit "s")) before after ∧
      Collects ordinal (lit "/w") (lit "s") closed before after ∧
      Reach (ordinal.fileMachine Nat (lit "s")) after c := by
  obtain ⟨c, c', -, -, hr, hr', -, hnone, -⟩ := plan_runs
  refine ⟨c', ?_⟩
  rcases file_lasts (hr.trans hr') planStart_record (by decide) with
    ⟨later, hlater, -⟩ | hcollected
  · cases hnone.symm.trans hlater
  · exact hcollected

-- -----
-- The coordinator
-- -----

def coordinatorId (catalogs : Catalogs) (root : Str) : Option Str :=
  ((catalogs root).bind (·.coordinator)).map (·.sessionId)

def KeepsCoordinators (before after : Catalogs) : Prop :=
  ∀ root id, coordinatorId before root = some id → coordinatorId after root = some id

theorem apply_coordinator {id : Str} (happly : change.apply localeCompare manifest = .ok (draft, selected))
    (hid : manifest.coordinator.map (·.sessionId) = some id) :
    draft.coordinator.map (·.sessionId) = some id := by
  cases change with
  | start | adopt | rename | refresh =>
    obtain ⟨_, _, happly⟩ := bind_eq_ok.mp happly
    obtain ⟨rfl, -⟩ := Prod.mk.inj (Except.ok.inj happly)
    exact hid
  | close =>
    simp only [Change.apply] at happly
    split at happly
    · obtain ⟨rfl, -⟩ := Prod.mk.inj (Except.ok.inj happly)
      exact hid
    · obtain ⟨rfl, -⟩ := Prod.mk.inj (Except.ok.inj happly)
      exact hid
    · cases happly
  | ensureCoordinator now uuid =>
    obtain ⟨rfl, -⟩ := Prod.mk.inj (Except.ok.inj happly)
    obtain ⟨record, hrecord, rfl⟩ := Option.map_eq_some_iff.mp hid
    simp [ensuredCoordinator, gcTombstones, hrecord]

theorem nextManifest_coordinator {canonicalCwd id : Str} {durable : Option SessionManifest} {now : Nat}
    {updated : Updated}
    (h : nextManifest localeCompare canonicalCwd change durable now = .ok updated)
    (hid : (durable.bind (·.coordinator)).map (·.sessionId) = some id) :
    updated.committed.coordinator.map (·.sessionId) = some id := by
  obtain ⟨current, draft, hcurrent, happly, -, hcoordinator⟩ := nextManifest_ok h
  rw [hcoordinator]
  rcases hcurrent with ⟨rfl, -⟩ | ⟨rfl, -⟩
  · exact apply_coordinator happly hid
  · cases hid

theorem exec_keeps {o : Op} {answer : Res o} (h : S.exec catalogs o answer after) :
    KeepsCoordinators catalogs after := by
  intro root id hid
  rcases exec_cases h with rfl | ⟨cwd, change, now, updated, rfl, hupdated, rfl⟩
  · exact hid
  by_cases hroot : S.canonical cwd = root
  · subst hroot
    simp only [coordinatorId, Function.update_self, Option.bind_some]
    exact nextManifest_coordinator hupdated hid
  · simp only [coordinatorId, Function.update_of_ne (Ne.symm hroot)]
    exact hid

/-- A coordinator that is returned is the one on disk. -/
theorem ensured_selected {canonicalCwd uuid : Str} {durable : Option SessionManifest} {time now : Nat}
    {updated : Updated} (h : nextManifest localeCompare canonicalCwd (.ensureCoordinator time uuid)
      durable now = .ok updated) :
    ∃ record, updated.selected = .coordinator record ∧ updated.committed.coordinator = some record := by
  obtain ⟨current, draft, -, happly, -, hcoordinator⟩ := nextManifest_ok h
  obtain ⟨rfl, hselected⟩ := Prod.mk.inj (Except.ok.inj happly)
  exact ⟨_, hselected.symm, hcoordinator⟩

/-- What is known of the coordinator that a call returns. -/
def Returned (S : Setting) (cwd : Str) (result : Except Failure Outcome) (catalogs : Catalogs) : Prop :=
  ∀ record, result = .ok (.coordinator record) →
    coordinatorId catalogs (S.canonical cwd) = some record.sessionId

theorem Safe.kept {R : Catalogs → Catalogs → Prop} {β : Type} (p : Prog Op Res β) :
    Safe S.exec R KeepsCoordinators p (fun _ _ => True) catalogs := by
  induction p generalizing catalogs with
  | ret => exact fun _ _ => trivial
  | op o k ih => exact fun _ _ _ _ hrun => ⟨exec_keeps hrun, ih _⟩

theorem update_coordinator {cwd uuid : Str} {now : Nat} :
    Safe S.exec KeepsCoordinators KeepsCoordinators (update cwd (.ensureCoordinator now uuid)).run
      (fun result catalogs => ∀ updated, result = .ok updated → ∃ record,
        updated.selected = .coordinator record ∧
          coordinatorId catalogs (S.canonical cwd) = some record.sessionId) catalogs := by
  refine Safe.map (Safe.op (fun _ => True) (fun _ _ _ _ => trivial) trivial ?_)
  rintro before answer after - hrun
  refine ⟨exec_keeps hrun, Safe.ret
    (fun catalogs => ∀ updated, answer = .ok updated → ∃ record,
      updated.selected = .coordinator record ∧
        coordinatorId catalogs (S.canonical cwd) = some record.sessionId) ?_ ?_ ?_⟩
  · intro s s' hs hkeeps updated hanswer
    obtain ⟨record, hselected, hid⟩ := hs updated hanswer
    exact ⟨record, hselected, hkeeps _ _ hid⟩
  · rintro updated rfl
    rcases hrun with ⟨_, hanswer, -⟩ | ⟨time, found, hupdated, rfl, hanswer | ⟨_, hanswer⟩⟩
    · cases hanswer
    · obtain rfl := Except.ok.inj hanswer
      obtain ⟨record, hselected, hcommitted⟩ := ensured_selected hupdated
      refine ⟨record, hselected, ?_⟩
      simp [coordinatorId, hcommitted]
    · cases hanswer
  · intro s hs updated hanswer
    exact hs updated (mapError_eq_ok.mp hanswer)

theorem ensureCoordinator_safe (cwd : Str) :
    Safe S.exec KeepsCoordinators KeepsCoordinators (ensureCoordinator cwd).run (Returned S cwd)
      catalogs := by
  unfold ensureCoordinator
  refine Safe.bindLift (fun _ _ => True) (Safe.kept _) fun now _ _ => ?_
  refine Safe.bindLift (fun _ _ => True) (Safe.kept _) fun uuid _ _ => ?_
  refine Safe.bindExcept _ update_coordinator (fun updated s hupdated => ?_) fun failure s _ => ?_
  · obtain ⟨record, hselected, hid⟩ := hupdated updated rfl
    rw [hselected]
    refine Safe.ret (fun catalogs => coordinatorId catalogs (S.canonical cwd) = some record.sessionId)
      (fun s s' hs hkeeps => hkeeps _ _ hs) hid fun s hs other hother => ?_
    obtain rfl : record = other := by
      injection Except.ok.inj hother
    exact hs
  · exact fun _ _ _ hfailed => by cases hfailed

/-- All processes that are given a coordinator of a workspace are given the same one, and
it is the one on disk. -/
theorem coordinators_agree {calls : ι → Call} {c' : Config ι Op Res (Except Failure Outcome) Catalogs}
    (hr : Reach (S.machine ι) ⟨catalogs, fun i => (calls i).run⟩ c') {i j : ι} {cwd cwd' : Str}
    (hi : calls i = .ensureCoordinator cwd) (hj : calls j = .ensureCoordinator cwd')
    (hroot : S.canonical cwd = S.canonical cwd') {record record' : CoordinatorRecord}
    (hrecord : c'.threads i = .ret (.ok (.coordinator record)))
    (hrecord' : c'.threads j = .ret (.ok (.coordinator record'))) :
    record.sessionId = record'.sessionId ∧
      coordinatorId c'.shared (S.canonical cwd) = some record.sessionId := by
  let Post (i : ι) (result : Except Failure Outcome) (catalogs : Catalogs) : Prop :=
    ∀ cwd, calls i = .ensureCoordinator cwd → Returned S cwd result catalogs
  have hsafe (i : ι) :
      Safe S.exec KeepsCoordinators KeepsCoordinators (calls i).run (Post i) catalogs := by
    cases hcall : calls i with
    | ensureCoordinator cwd =>
      refine (ensureCoordinator_safe cwd).mono fun result s hreturned other hother => ?_
      obtain rfl : cwd = other := by injection hcall.symm.trans hother
      exact hreturned
    | _ =>
      refine (Safe.kept _).mono fun result s _ other hother => ?_
      cases hcall.symm.trans hother
  have hcompatible : Compatible (S.machine ι) (fun _ => KeepsCoordinators) fun _ => KeepsCoordinators :=
    ⟨fun _ h => h, fun h => absurd h id⟩
  have hall := hr.safe hcompatible hsafe
  have hone := hall i
  have hother := hall j
  rw [hrecord] at hone
  rw [hrecord'] at hother
  have hid := hone.result cwd hi record rfl
  have hid' := hother.result cwd' hj record' rfl
  rw [← hroot, hid] at hid'
  exact ⟨Option.some.inj hid', hid⟩

theorem coordinators_agree_plan : ∃ (c : Config Nat Op Res (Except Failure Outcome) Catalogs)
    (record record' : CoordinatorRecord), c.threads 1 = .ret (.ok (.coordinator record)) ∧
      c.threads 2 = .ret (.ok (.coordinator record')) ∧ record.sessionId = record'.sessionId := by
  obtain ⟨c, c', record, record', hr, hr', -, -, hrecord, hrecord'⟩ := plan_runs
  have hreach : Reach (ordinal.machine Nat) ⟨planCatalogs, fun i => (planCalls i).run⟩ c' :=
    reach_of_fileReach (hr.trans hr')
  exact ⟨c', record, record', hrecord, hrecord',
    (coordinators_agree hreach (i := 1) (j := 2) rfl rfl rfl hrecord hrecord').1⟩

end PiEnv.SessionManager.Lifecycle
