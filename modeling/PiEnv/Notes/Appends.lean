import PiEnv.Notes.Blocks
import PiEnv.Notes.Contract

/-!
# Concurrent appends to day notes

Any number of `inbox write` and `worklog record` calls against one provider
whose write is a compare-and-swap on the revision. A call that succeeds has
put its item into the note it read, as it still was; a call that fails has
changed nothing. The items already there stay, as long as no follow-up takes
one of them for the placeholder of its section.
-/

namespace PiEnv.Notes

open Js Effects
open Relation (ReflTransGen)

-- -----
-- Calls and the items they add
-- -----

inductive AppendCall where
  | inboxWrite (params : NotesParams) (now : CalendarDate)
  | worklogRecord (params : NotesParams) (now : CalendarDate)
  deriving DecidableEq, Repr

def AppendCall.action : AppendCall → NotesM NotesToolResult
  | .inboxWrite params now => inboxWriteAction params now
  | .worklogRecord params now => worklogRecordAction params now

structure DayItem where
  path : Str
  heading : Heading
  text : Str
  deriving DecidableEq, Repr

/-- The item a call adds and the note it adds it to, if its arguments pass. -/
def AppendCall.item : AppendCall → Except NotesError DayItem
  | .inboxWrite params now => do
    let kind ← requireInboxKind params.kind
    let text ← requireItemText params.text (lit "Inbox write")
    let path ← inboxPath (localDate now)
    return ⟨path, kind.heading, text⟩
  | .worklogRecord params now => do
    let text ← requireItemText params.text (lit "Worklog record")
    let path ← recordPath (localDate now)
    return ⟨path, .worklog, text⟩

/-- New content of a day note, from what it held. -/
structure Adds (item : DayItem) (contentOf : Option Str → Except NotesError Str) : Prop where
  append : ∀ {content content' : Str}, contentOf (some content) = .ok content' →
    appendSectionItem content item.heading item.text = .ok content'
  create : ∀ {content' : Str}, contentOf none = .ok content' →
    HasItem content' item.heading item.text

theorem requireItemText_ok {text : Option Str} {operation value : Str}
    (h : requireItemText text operation = .ok value) : trim value ≠ [] := by
  unfold requireItemText at h
  split at h
  · split at h
    · simp at h
    · rename_i ht
      obtain rfl := Except.ok.inj h
      simpa using ht
  · simp at h

/-- A call fails before it reads, or is an append of its item. -/
theorem AppendCall.action_cases (call : AppendCall) :
    (∃ cause, call.action = throw cause) ∨
      ∃ item contentOf done, call.item = .ok item ∧ Adds item contentOf ∧ trim item.text ≠ [] ∧
        normalizeStorePath item.path true false = .ok item.path ∧
          call.action = appendToDayNote item.path contentOf done := by
  cases call with
  | inboxWrite params now =>
    simp only [action, inboxWriteAction, item]
    cases hk : requireInboxKind params.kind with
    | error e => exact .inl ⟨e, rfl⟩
    | ok kind =>
      cases ht : requireItemText params.text (lit "Inbox write") with
      | error e => exact .inl ⟨e, rfl⟩
      | ok text =>
        cases hp : inboxPath (localDate now) with
        | error e => exact .inl ⟨e, rfl⟩
        | ok path =>
          refine .inr ⟨⟨path, kind.heading, text⟩, inboxContent kind text, _, rfl, ⟨id, ?_⟩,
            requireItemText_ok ht, inboxPath_canonical hp, rfl⟩
          intro content h
          have := hasItem_newInboxNote h
          cases kind <;> exact this
  | worklogRecord params now =>
    simp only [action, worklogRecordAction, item]
    cases ht : requireItemText params.text (lit "Worklog record") with
    | error e => exact .inl ⟨e, rfl⟩
    | ok text =>
      cases hp : recordPath (localDate now) with
      | error e => exact .inl ⟨e, rfl⟩
      | ok path =>
        exact .inr ⟨⟨path, .worklog, text⟩, worklogContent (localDate now) text, _, rfl,
          ⟨id, hasItem_newWorklogRecord⟩, requireItemText_ok ht, recordPath_canonical hp, rfl⟩

-- -----
-- The provider
-- -----

/-- A note as the provider keeps it: its content, and whatever else a revision
may depend on, such as a version. -/
structure NoteState (V : Type) where
  content : Str
  stamp : V

/-- Revisions tell any two states of a note apart. -/
structure Provider (V : Type) where
  revisionOf : NoteState V → Str
  injective : Function.Injective revisionOf

/-- The notes, and the calls whose write took effect, the last one first. -/
structure Vault (V ι : Type) where
  notes : Str → Option (NoteState V)
  committed : List ι

section
variable {V ι : Type}

def Vault.commit (vault : Vault V ι) (i : ι) (path : Str) (note : NoteState V) : Vault V ι :=
  ⟨Function.update vault.notes path (some note), i :: vault.committed⟩

/-- What the provider may answer. Any operation may fail, and then changes
nothing; a write takes effect when the revision it expects is the note's. -/
inductive Provider.Exec (P : Provider V) (i : ι) : Effects.Exec NotesOp NotesRes (Vault V ι)
  | found {vault : Vault V ι} {path : Str} {note : NoteState V}
      (stored : vault.notes path = some note) :
      P.Exec i vault (.read path) (.ok ⟨path, P.revisionOf note, note.content⟩) vault
  | readFails {vault : Vault V ι} {path : Str} (cause : NotesError) :
      P.Exec i vault (.read path) (.error cause) vault
  | written {vault : Vault V ι} {request : NotesWriteRequest} (stamp : V) (revision : Option Str)
      (expected : request.expectedRevision = (vault.notes request.path).map P.revisionOf)
      (returned : ∀ value ∈ revision,
        value = P.revisionOf ⟨request.content, stamp⟩ ∧ validRevision value = true) :
      P.Exec i vault (.write request) (.ok ⟨request.path, revision⟩)
        (vault.commit i request.path ⟨request.content, stamp⟩)
  | writeFails {vault : Vault V ι} {request : NotesWriteRequest} (cause : NotesError) :
      P.Exec i vault (.write request) (.error cause) vault

/-- Nothing but the calls writes to the notes. -/
def appends (P : Provider V) : Machine ι NotesOp NotesRes (Vault V ι) where
  exec := P.Exec
  env _ _ := False

/-- Call `i` is a follow-up that would replace, as the placeholder of its
section, the first line of an item another call has put into the same note. -/
def Endangers (calls : ι → AppendCall) (vault : Vault V ι) (i : ι) : Prop :=
  ∃ item note j item', (calls i).item = .ok item ∧ vault.notes item.path = some note ∧
    j ∈ vault.committed ∧ (calls j).item = .ok item' ∧ item'.path = item.path ∧
      item.heading = .followUps ∧ item'.heading ≠ .followUps ∧
        Overwrites note.content item.heading item'.heading item'.text

/-- The runs in which no write that takes effect endangers an item. -/
def carefulAppends (P : Provider V) (calls : ι → AppendCall) :
    Machine ι NotesOp NotesRes (Vault V ι) where
  exec i vault o r vault' :=
    P.Exec i vault o r vault' ∧ (vault'.committed ≠ vault.committed → ¬ Endangers calls vault i)
  env _ _ := False

-- -----
-- One step
-- -----

/-- Call `i` puts its item into a note. -/
def Puts (calls : ι → AppendCall) (i : ι) (vault vault' : Vault V ι) : Prop :=
  ∃ item note, (calls i).item = .ok item ∧ trim item.text ≠ [] ∧
    (∀ old, vault.notes item.path = some old →
      appendSectionItem old.content item.heading item.text = .ok note.content) ∧
    (vault.notes item.path = none → HasItem note.content item.heading item.text) ∧
      vault' = vault.commit i item.path note

/-- What a step of call `i` may do: nothing, or put its item into a note,
once and without danger to another. -/
def Appended (calls : ι → AppendCall) (i : ι) (vault vault' : Vault V ι) : Prop :=
  i ∉ vault.committed ∧
    (vault' = vault ∨ Puts calls i vault vault' ∧ ¬ Endangers calls vault i)

/-- What call `i` relies on: the others do not write in its name. -/
def Others (i : ι) (vault vault' : Vault V ι) : Prop :=
  i ∈ vault'.committed ↔ i ∈ vault.committed

/-- A call has written if and only if it reports success. -/
def Truthful (i : ι) (result : Except NotesError NotesToolResult) (vault : Vault V ι) : Prop :=
  i ∈ vault.committed ↔ ∃ value, result = .ok value

theorem carefulAppends_compatible (P : Provider V) (calls : ι → AppendCall) :
    Compatible (carefulAppends P calls) Others (Appended calls) where
  others := by
    rintro i j vault vault' hij ⟨-, rfl | ⟨⟨item, note, -, -, -, -, rfl⟩, -⟩⟩
    · exact Iff.rfl
    · simp [Others, Vault.commit, hij]
  env := False.elim

theorem readOutcome_ok {path : Str} {answer : Except NotesError NoteDocument} {note : NoteDocument}
    (h : readOutcome path answer = .ok (some note)) : answer = .ok note := by
  cases answer with
  | error cause =>
    cases cause with
    | plain m => simp [readOutcome, Except.bind] at h
    | provider code m => cases code <;> simp [readOutcome, Except.bind] at h
  | ok document =>
    have hv : ∀ note', validateDocument document path = .ok note' → note' = document := by
      intro note' hv
      simp only [validateDocument, bind, Except.bind] at hv
      repeat' split at hv
      all_goals cases hv
      rfl
    unfold readOutcome at h
    split at h
    · rename_i note' hn
      have := hv note' hn
      simp_all
    · simp at h
    · simp at h

theorem sizedContent_ok {contentOf : Option Str → Except NotesError Str}
    {current : Option NoteDocument} {content : Str}
    (h : sizedContent contentOf current = .ok content) :
    contentOf (current.map (·.content)) = .ok content := by
  simp only [sizedContent, bind, Except.bind] at h
  split at h
  · simp at h
  · split at h
    · simp at h
    · rename_i content' hc _ _ _
      rw [hc, ← h]
      rfl

theorem writeOutcome_ok {path : Str} (done : Str) {revision : Option Str}
    (hp : normalizeStorePath path true false = .ok path)
    (hr : ∀ value ∈ revision, validRevision value = true) :
    writeOutcome path done (.ok ⟨path, revision⟩) = .ok ⟨done ++ path, path, revision⟩ := by
  cases revision with
  | none => simp [writeOutcome, validateMutation, hp, bind, Except.bind, pure, Except.pure]
  | some value =>
    simp [writeOutcome, validateMutation, validateRevision, hp, hr value rfl, bind, Except.bind,
      pure, Except.pure]

variable {P : Provider V} {calls : ι → AppendCall} {i : ι}

theorem uncommitted_stable : ∀ vault vault' : Vault V ι, i ∉ vault.committed →
    Others i vault vault' → i ∉ vault'.committed :=
  fun _ _ h ho hm => h (ho.mp hm)

theorem truthful_error {cause : NotesError} {vault : Vault V ι} (h : i ∉ vault.committed) :
    Safe ((carefulAppends P calls).exec i) (Others i) (Appended calls i)
      (.ret (.error cause)) (Truthful i) vault :=
  Safe.ret _ uncommitted_stable h fun _ hs => by simp [Truthful, hs]

theorem truthful_ok {value : NotesToolResult} {vault : Vault V ι} (h : i ∈ vault.committed) :
    Safe ((carefulAppends P calls).exec i) (Others i) (Appended calls i)
      (.ret (.ok value)) (Truthful i) vault :=
  Safe.ret (i ∈ ·.committed) (fun _ _ hs hr => hr.mpr hs) h fun _ hs => by simp [Truthful, hs]

section
variable {item : DayItem} {contentOf : Option Str → Except NotesError Str} {done : Str}

/-- The content written was computed from the note as it is at the write: the
revision it was read under is the revision of one state only. -/
theorem put_at_write {current : Option NoteDocument} {content : Str} (stamp : V)
    {vault : Vault V ι} (hi : (calls i).item = .ok item) (ha : Adds item contentOf)
    (ht : trim item.text ≠ [])
    (hread : ∀ document ∈ current, ∃ note, document = ⟨item.path, P.revisionOf note, note.content⟩)
    (hc : sizedContent contentOf current = .ok content)
    (expected : current.map (·.revision) = (vault.notes item.path).map P.revisionOf) :
    Puts calls i vault (vault.commit i item.path ⟨content, stamp⟩) := by
  have hcontent := sizedContent_ok hc
  refine ⟨item, ⟨content, stamp⟩, hi, ht, fun old hold => ?_, fun hnone => ?_, rfl⟩
  · rw [hold] at expected
    cases current with
    | none => simp at expected
    | some document =>
      obtain ⟨note, rfl⟩ := hread document rfl
      obtain rfl := P.injective (Option.some.inj expected)
      exact ha.append hcontent
  · rw [hnone] at expected
    cases current with
    | none => exact ha.create hcontent
    | some document => simp at expected

theorem write_safe {current : Option NoteDocument} {content : Str} {vault : Vault V ι}
    (hi : (calls i).item = .ok item) (ha : Adds item contentOf) (ht : trim item.text ≠ [])
    (hp : normalizeStorePath item.path true false = .ok item.path)
    (hread : ∀ document ∈ current, ∃ note, document = ⟨item.path, P.revisionOf note, note.content⟩)
    (hc : sizedContent contentOf current = .ok content) (h : i ∉ vault.committed) :
    Safe ((carefulAppends P calls).exec i) (Others i) (Appended calls i)
      (.op (.write ⟨item.path, content, current.map (·.revision)⟩) fun answer =>
        .ret (writeOutcome item.path done answer)) (Truthful i) vault := by
  refine Safe.op _ uncommitted_stable h ?_
  rintro vault answer vault' hv ⟨he, hcareful⟩
  cases he with
  | writeFails cause => exact ⟨⟨hv, .inl rfl⟩, truthful_error hv⟩
  | written stamp revision expected returned =>
    have hput := put_at_write stamp hi ha ht hread hc expected
    refine ⟨⟨hv, .inr ⟨hput, hcareful (by simp [Vault.commit])⟩⟩, ?_⟩
    rw [writeOutcome_ok done hp fun value hvalue => (returned value hvalue).2]
    exact truthful_ok (by simp [Vault.commit])

theorem appendOps_safe {vault : Vault V ι} (hi : (calls i).item = .ok item)
    (ha : Adds item contentOf) (ht : trim item.text ≠ [])
    (hp : normalizeStorePath item.path true false = .ok item.path) (h : i ∉ vault.committed) :
    Safe ((carefulAppends P calls).exec i) (Others i) (Appended calls i)
      (appendOps item.path contentOf done) (Truthful i) vault := by
  refine Safe.op _ uncommitted_stable h ?_
  rintro vault answer vault' hv ⟨he, -⟩
  obtain ⟨rfl, hread⟩ : vault' = vault ∧ ∀ document, answer = .ok document →
      ∃ note, document = ⟨item.path, P.revisionOf note, note.content⟩ := by
    cases he with
    | found stored => exact ⟨rfl, fun _ hd => ⟨_, (Except.ok.inj hd).symm⟩⟩
    | readFails cause => exact ⟨rfl, fun _ hd => by cases hd⟩
  refine ⟨⟨hv, .inl rfl⟩, ?_⟩
  split
  · exact truthful_error hv
  · rename_i current hcurrent
    split
    · exact truthful_error hv
    · rename_i content hcontent
      refine write_safe hi ha ht hp (fun document hd => ?_) hcontent hv
      rw [Option.mem_def.mp hd] at hcurrent
      exact hread document (readOutcome_ok hcurrent)

end

theorem action_safe {vault : Vault V ι} (h : i ∉ vault.committed) :
    Safe ((carefulAppends P calls).exec i) (Others i) (Appended calls i)
      (calls i).action.run (Truthful i) vault := by
  rcases (calls i).action_cases with ⟨cause, hc⟩ | ⟨item, contentOf, done, hi, ha, ht, hp, hc⟩
  · rw [hc]
    exact truthful_error h
  · rw [hc, appendToDayNote_eq]
    exact appendOps_safe hi ha ht hp h

-- -----
-- Whole runs
-- -----

/-- Every item that was put into a note is there. -/
def Kept (calls : ι → AppendCall) (vault : Vault V ι) : Prop :=
  ∀ j ∈ vault.committed, ∃ item note, (calls j).item = .ok item ∧ trim item.text ≠ [] ∧
    vault.notes item.path = some note ∧ HasItem note.content item.heading item.text

theorem Kept.put {vault vault' : Vault V ι} (h : Kept calls vault) (hput : Puts calls i vault vault')
    (hsafe : ¬ Endangers calls vault i) : Kept calls vault' := by
  obtain ⟨item, note, hi, ht, happend, hcreate, rfl⟩ := hput
  intro j hj
  rcases List.mem_cons.mp hj with rfl | hj
  · refine ⟨item, note, hi, ht, Function.update_self .., ?_⟩
    cases hold : vault.notes item.path with
    | none => exact hcreate hold
    | some old => exact hasItem_append (happend old hold)
  · obtain ⟨item', old, hj', ht', hold, hitem⟩ := h j hj
    by_cases hp : item'.path = item.path
    · refine ⟨item', note, hj', ht', by simp [Vault.commit, hp], ?_⟩
      rw [hp] at hold
      refine hitem.append (happend old hold) ht' fun hf hf' ho => hsafe ?_
      exact ⟨item, old, j, item', hi, hold, hj, hj', hp, hf, hf', ho⟩
    · exact ⟨item', old, hj', ht', by simp [Vault.commit, hp, hold], hitem⟩

theorem Kept.step {vault vault' : Vault V ι} (hs : Appended calls i vault vault')
    (h : Kept calls vault) : Kept calls vault' := by
  rcases hs.2 with rfl | ⟨hput, hsafe⟩
  · exact h
  · exact h.put hput hsafe

/-- A call whose write took effect has only its success left to report. -/
theorem reports_success {p : Prog NotesOp NotesRes (Except NotesError NotesToolResult)}
    {vault : Vault V ι}
    (hs : Safe ((carefulAppends P calls).exec i) (Others i) (Appended calls i) p (Truthful i) vault)
    (h : i ∈ vault.committed) : ∃ result, p = .ret (.ok result) := by
  cases p with
  | ret a =>
    obtain ⟨value, rfl⟩ := hs.result.mp h
    exact ⟨value, rfl⟩
  | op o k =>
    -- The operation could fail, and the guarantee says it is not to happen.
    cases o with
    | read path =>
      exact absurd h (hs _ .refl _ vault ⟨.readFails (.plain []), by simp⟩).1.1
    | write request =>
      exact absurd h (hs _ .refl _ vault ⟨.writeFails (.plain []), by simp⟩).1.1

section
variable [DecidableEq ι]

/-- In a run without an endangering write, what was appended stays, and a step
that changes the notes ends its call with success. -/
theorem appends_are_kept (P : Provider V) (calls : ι → AppendCall) {vault : Vault V ι}
    {c : Config ι NotesOp NotesRes (Except NotesError NotesToolResult) (Vault V ι)}
    (start : vault.committed = [])
    (hr : Reach (carefulAppends P calls) ⟨vault, fun i => (calls i).action.run⟩ c) :
    (∀ i result, c.threads i = .ret (.ok result) → ∃ item note, (calls i).item = .ok item ∧
      c.shared.notes item.path = some note ∧ HasItem note.content item.heading item.text) ∧
    (∀ i o k answer vault', c.threads i = .op o k →
      (carefulAppends P calls).exec i c.shared o answer vault' →
        vault'.notes = c.shared.notes ∨ ∃ result, k answer = .ret (.ok result)) := by
  have hsafe : ∀ i, Safe ((carefulAppends P calls).exec i) (Others i) (Appended calls i)
      (calls i).action.run (Truthful i) vault := fun i => action_safe (by simp [start])
  have hend := hr.safe (carefulAppends_compatible P calls) hsafe
  have hkept : Kept calls c.shared :=
    hr.preserves (carefulAppends_compatible P calls) hsafe (fun _ _ _ => Kept.step)
      (fun _ _ => False.elim) (by simp [Kept, start])
  refine ⟨fun i result hi => ?_, fun i o k answer vault' hi run => ?_⟩
  · have hret := hend i
    rw [hi] at hret
    obtain ⟨item, note, hitem, -, hnote, hhas⟩ := hkept i (hret.result.mpr ⟨result, rfl⟩)
    exact ⟨item, note, hitem, hnote, hhas⟩
  · have hop := hend i
    rw [hi] at hop
    obtain ⟨⟨-, rfl | ⟨⟨item, note, -, -, -, -, rfl⟩, -⟩⟩, hnext⟩ := hop _ .refl _ _ run
    · exact .inl rfl
    · exact .inr (reports_success hnext (by simp [Vault.commit]))

end

-- -----
-- A lone append, and a run that loses an item
-- -----

/-- What the provider returns of a note. -/
def Provider.document (P : Provider V) (path : Str) (note : NoteState V) : NoteDocument :=
  ⟨path, P.revisionOf note, note.content⟩

/-- A call that runs alone succeeds, if the note it makes is within bounds. -/
theorem append_runs {exec : Effects.Exec NotesOp NotesRes (Vault V ι)} {vault : Vault V ι}
    {path content done : Str} {note : Option (NoteState V)}
    {contentOf : Option Str → Except NotesError Str} (stamp : V)
    (hexec : ∀ o answer vault', P.Exec i vault o answer vault' → exec vault o answer vault')
    (hn : vault.notes path = note)
    (hread : ∀ current ∈ note,
      readOutcome path (.ok (P.document path current)) = .ok (some (P.document path current)))
    (hc : sizedContent contentOf (note.map (P.document path)) = .ok content)
    (hp : normalizeStorePath path true false = .ok path)
    (hv : validRevision (P.revisionOf ⟨content, stamp⟩) = true) :
    Runs exec vault (appendOps path contentOf done)
      (.ok ⟨done ++ path, path, some (P.revisionOf ⟨content, stamp⟩)⟩)
      (vault.commit i path ⟨content, stamp⟩) := by
  have hexpected : (note.map (P.document path)).map (·.revision) =
      (vault.notes path).map P.revisionOf := by
    rw [hn]
    cases note <;> rfl
  have hvalid : ∀ value ∈ some (P.revisionOf ⟨content, stamp⟩), validRevision value = true := by
    simp [hv]
  have hwrite := hexec (.write ⟨path, content, (note.map (P.document path)).map (·.revision)⟩)
    (.ok ⟨path, some (P.revisionOf ⟨content, stamp⟩)⟩) (vault.commit i path ⟨content, stamp⟩)
    (.written stamp _ hexpected (by simp [hv]))
  have hrest : ∀ (answer : Except NotesError NoteDocument),
      readOutcome path answer = .ok (note.map (P.document path)) →
      P.Exec i vault (.read path) answer vault →
      Runs exec vault (appendOps path contentOf done)
        (.ok ⟨done ++ path, path, some (P.revisionOf ⟨content, stamp⟩)⟩)
        (vault.commit i path ⟨content, stamp⟩) := by
    intro answer ho he
    refine .op (hexec _ _ _ he) ?_
    simp only [ho, hc]
    exact .op hwrite (writeOutcome_ok done hp hvalid ▸ .ret)
  cases note with
  | none => exact hrest (.error (.provider .notFound [])) rfl (.readFails _)
  | some current => exact hrest _ (hread current rfl) (.found hn)

end

theorem HoldsAt.line {content block : Str} {position : Nat} (h : HoldsAt content block position) :
    block <:+ content ∨ block ++ [LF] <:+: content ∨ block ++ CRLF <:+: content := by
  obtain ⟨before, after, rfl, rfl, -, rfl | ⟨rest, rfl⟩ | ⟨rest, rfl⟩⟩ := h
  · exact .inl (by simp)
  · exact .inr (.inl ⟨before, rest, by simp⟩)
  · exact .inr (.inr ⟨before, rest, by simp⟩)

theorem IsBlock.single {heading : Heading} {text line block : Str} (h : IsBlock heading text block)
    (hs : splitLines (trim text) = [line]) : block = marker heading ++ line := by
  obtain ⟨first, rest, tail, hs', hc, rfl⟩ := h
  rw [hs] at hs'
  obtain ⟨rfl, rfl⟩ := List.cons.inj hs'
  cases hc
  simp

theorem inboxWriteAction_eq {params : NotesParams} {now : CalendarDate} {kind : InboxItemKind}
    {text path : Str} (hk : requireInboxKind params.kind = .ok kind)
    (ht : requireItemText params.text (lit "Inbox write") = .ok text)
    (hp : inboxPath (localDate now) = .ok path) :
    inboxWriteAction params now = appendToDayNote path (inboxContent kind text)
      (lit "Recorded Inbox " ++ kind.text ++ lit " in ") := by
  unfold inboxWriteAction
  rw [hk, ht]
  dsimp only
  rw [hp]
  rfl

/-- Revisions that spell the content in other characters. -/
def spelled : Provider Unit where
  revisionOf note := note.content.map (· + 256)
  injective := by
    rintro ⟨content, ⟨⟩⟩ ⟨content', ⟨⟩⟩ h
    have hadd : Function.Injective (fun u : UInt16 => u + 256) := fun u v => (UInt16.add_left_inj 256).mp
    obtain rfl := List.map_injective_iff.mpr hadd h
    rfl

def secondOfJanuary : CalendarDate := ⟨2026, 1, 2⟩

/-- The third item opens a code fence that ends in the first one, so that the
fourth takes the second one for a follow-up nobody has filled in. -/
def fencedCalls : Fin 4 → InboxItemKind × Str
  | 0 => (.note, lit "a\n```")
  | 1 => (.note, lit "[ ]")
  | 2 => (.followup, lit "y\n```")
  | 3 => (.followup, lit "z")

def fencedCall (i : Fin 4) : AppendCall :=
  .inboxWrite ⟨some (fencedCalls i).1, some (fencedCalls i).2⟩ secondOfJanuary

def fencedPath : Str := lit "inbox/20260102.md"

/-- The note after each of the calls. -/
def fencedContent : Fin 4 → Str
  | 0 => lit "## Follow-ups\n\n- [ ]\n\n## Notes\n\n- a\n  ```\n"
  | 1 => lit "## Follow-ups\n\n- [ ]\n\n## Notes\n\n- a\n  ```\n- [ ]\n"
  | 2 => lit "## Follow-ups\n\n- [ ] y\n  ```\n\n## Notes\n\n- a\n  ```\n- [ ]\n"
  | 3 => lit "## Follow-ups\n\n- [ ] y\n  ```\n\n## Notes\n\n- a\n  ```\n- [ ] z\n"

/-- The note before each of the calls. -/
def fencedBefore : Fin 4 → Option (NoteState Unit)
  | 0 => none
  | 1 => some ⟨fencedContent 0, ()⟩
  | 2 => some ⟨fencedContent 1, ()⟩
  | 3 => some ⟨fencedContent 2, ()⟩

theorem fenced_facts : ∀ i : Fin 4,
    requireItemText (some (fencedCalls i).2) (lit "Inbox write") = .ok (fencedCalls i).2 ∧
      (∀ current ∈ fencedBefore i,
        readOutcome fencedPath (.ok (spelled.document fencedPath current)) =
          .ok (some (spelled.document fencedPath current))) ∧
      sizedContent (inboxContent (fencedCalls i).1 (fencedCalls i).2)
        ((fencedBefore i).map (spelled.document fencedPath)) = .ok (fencedContent i) ∧
      validRevision (spelled.revisionOf ⟨fencedContent i, ()⟩) = true := by
  decide +kernel

/-- The vault after some of the calls, the last one first. -/
def fencedVault : List (Fin 4) → Vault Unit (Fin 4)
  | [] => ⟨fun _ => none, []⟩
  | i :: before => (fencedVault before).commit i fencedPath ⟨fencedContent i, ()⟩

theorem fencedVault_notes (i : Fin 4) (before : List (Fin 4)) :
    (fencedVault (i :: before)).notes fencedPath = some ⟨fencedContent i, ()⟩ := by
  simp [fencedVault, Vault.commit]

theorem fencedCall_item : ∀ i, (fencedCall i).item =
    .ok ⟨fencedPath, (fencedCalls i).1.heading, (fencedCalls i).2⟩ := by decide +kernel

theorem fenced_runs (M : Machine (Fin 4) NotesOp NotesRes (Vault Unit (Fin 4))) (i : Fin 4)
    (before : List (Fin 4)) (hn : (fencedVault before).notes fencedPath = fencedBefore i)
    (hexec : ∀ o answer vault, spelled.Exec i (fencedVault before) o answer vault →
      M.exec i (fencedVault before) o answer vault) :
    ∃ result, Runs (M.exec i) (fencedVault before) (fencedCall i).action.run (.ok result)
      (fencedVault (i :: before)) := by
  have hp : inboxPath (localDate secondOfJanuary) = .ok fencedPath := by decide +kernel
  obtain ⟨ht, hread, hc, hv⟩ := fenced_facts i
  have ha : (fencedCall i).action = _ := inboxWriteAction_eq rfl ht hp
  rw [ha, appendToDayNote_eq]
  exact ⟨_, append_runs () hexec hn hread hc (inboxPath_canonical hp) hv⟩

theorem fenced_line : splitLines (trim (lit "[ ]")) = [lit "[ ]"] := by decide +kernel

/-- The second call succeeds, and its item is gone at the end. -/
theorem fenced_item_lost : ∃ c : Config (Fin 4) NotesOp NotesRes
      (Except NotesError NotesToolResult) (Vault Unit (Fin 4)),
    Reach (appends spelled) ⟨fencedVault [], fun i => (fencedCall i).action.run⟩ c ∧
      (∃ result, c.threads 1 = .ret (.ok result)) ∧
        ¬ ∃ item note, (fencedCall 1).item = .ok item ∧ c.shared.notes item.path = some note ∧
          HasItem note.content item.heading item.text := by
  obtain ⟨r₀, h₀⟩ := fenced_runs (appends spelled) 0 [] rfl fun _ _ _ h => h
  obtain ⟨r₁, h₁⟩ := fenced_runs (appends spelled) 1 [0] (fencedVault_notes ..) fun _ _ _ h => h
  obtain ⟨r₂, h₂⟩ := fenced_runs (appends spelled) 2 [1, 0] (fencedVault_notes ..) fun _ _ _ h => h
  obtain ⟨r₃, h₃⟩ := fenced_runs (appends spelled) 3 [2, 1, 0] (fencedVault_notes ..) fun _ _ _ h => h
  have hreach : Reach (appends spelled) ⟨fencedVault [], fun i => (fencedCall i).action.run⟩ _ :=
    (((Runs.reach h₀ rfl).trans (Runs.reach h₁ (by simp))).trans
      (Runs.reach h₂ (by simp))).trans (Runs.reach h₃ (by simp))
  refine ⟨_, hreach, ⟨r₁, by simp⟩, ?_⟩
  rintro ⟨item, note, hi, hn, block, hb, hh⟩
  obtain rfl := Except.ok.inj ((fencedCall_item 1).symm.trans hi)
  obtain rfl := Option.some.inj ((fencedVault_notes 3 [2, 1, 0]).symm.trans hn)
  obtain rfl := hb.single fenced_line
  have hlost : ¬ (marker .notes ++ lit "[ ]" <:+ fencedContent 3 ∨
      marker .notes ++ lit "[ ]" ++ [LF] <:+: fencedContent 3 ∨
        marker .notes ++ lit "[ ]" ++ CRLF <:+: fencedContent 3) := by decide +kernel
  exact hlost hh.choose_spec.line

/-- Up to the third call no write endangers an item, and both items are there. -/
theorem appends_are_kept_fenced : HasItem (fencedContent 1) .notes (lit "a\n```") ∧
    HasItem (fencedContent 1) .notes (lit "[ ]") := by
  have hsafe : ∀ i before, (fencedCalls i).1 = .note →
      ¬ Endangers fencedCall (fencedVault before) i := by
    rintro i before hk ⟨item, note, j, item', hi, -, -, -, -, hf, -⟩
    obtain rfl := Except.ok.inj ((fencedCall_item i).symm.trans hi)
    simp [hk, InboxItemKind.heading] at hf
  obtain ⟨r₀, h₀⟩ := fenced_runs (carefulAppends spelled fencedCall) 0 [] rfl
    fun _ _ _ h => ⟨h, fun _ => hsafe 0 [] rfl⟩
  obtain ⟨r₁, h₁⟩ := fenced_runs (carefulAppends spelled fencedCall) 1 [0] (fencedVault_notes ..)
    fun _ _ _ h => ⟨h, fun _ => hsafe 1 [0] rfl⟩
  have hreach : Reach (carefulAppends spelled fencedCall)
      ⟨fencedVault [], fun i => (fencedCall i).action.run⟩ _ :=
    (Runs.reach h₀ rfl).trans (Runs.reach h₁ (by simp))
  have hkept := (appends_are_kept spelled fencedCall rfl hreach).1
  have hnote := fencedVault_notes 1 [0]
  refine ⟨?_, ?_⟩
  · obtain ⟨item, note, hi, hn, hh⟩ := hkept 0 r₀ (by simp)
    obtain rfl := Except.ok.inj ((fencedCall_item 0).symm.trans hi)
    obtain rfl := Option.some.inj (hnote.symm.trans hn)
    exact hh
  · obtain ⟨item, note, hi, hn, hh⟩ := hkept 1 r₁ (by simp)
    obtain rfl := Except.ok.inj ((fencedCall_item 1).symm.trans hi)
    obtain rfl := Option.some.inj (hnote.symm.trans hn)
    exact hh

end PiEnv.Notes
