import PiEnv.Lib.Program
import PiEnv.Notes.StorePath

/-!
# The day-note actions of the notes tool

`inbox write` and `worklog record`, each a program over the two operations of
a provider it uses: read a note, and write one under a revision precondition.
-/

namespace PiEnv.Notes

open Js Effects

inductive NotesOp where
  | read (path : Str)
  | write (request : NotesWriteRequest)

def NotesRes : NotesOp → Type
  | .read _ => Except NotesError NoteDocument
  | .write _ => Except NotesError NotesMutationResult

abbrev NotesM := ExceptT NotesError (Prog NotesOp NotesRes)

def providerRead (path : Str) : NotesM NoteDocument :=
  ExceptT.mk (@call NotesOp NotesRes (.read path))

def providerWrite (request : NotesWriteRequest) : NotesM NotesMutationResult :=
  ExceptT.mk (@call NotesOp NotesRes (.write request))

-- -----
-- Checks
-- -----

def requireInboxKind : Option InboxItemKind → Except NotesError InboxItemKind
  | some kind => .ok kind
  | none => .error (.plain (lit "notes inbox write requires kind note or followup"))

def requireItemText (text : Option Str) (operation : Str) : Except NotesError Str :=
  match text with
  | some text =>
    if (trim text).isEmpty then .error (.plain (operation ++ lit " requires text")) else .ok text
  | none => .error (.plain (operation ++ lit " requires text"))

def noteSizeError (subject : Str) : NotesError :=
  .provider .resourceLimit (subject ++ lit " exceeds " ++ decimal MAX_NOTE_BYTES ++ lit " bytes.")

def assertNoteSize (content : Str) : Except NotesError Unit :=
  if byteLength content > MAX_NOTE_BYTES then .error (noteSizeError (lit "Note content"))
  else .ok ()

def providerContractError (message : Str) : NotesError := .provider .invalidProvider message

def validRevision (revision : Str) : Bool :=
  revision.length ≠ 0 && revision.length ≤ MAX_REVISION_LENGTH && !revision.any isControl

def validateRevision (revision : Str) : Except NotesError Unit :=
  if validRevision revision then .ok ()
  else .error (.provider .invalidProvider (lit "Invalid note revision."))

def validateDocument (note : NoteDocument) (expectedPath : Str) :
    Except NotesError NoteDocument := do
  let path ← normalizeStorePath note.path true false
  if path ≠ note.path then
    .error (providerContractError (lit "Notes provider returned a noncanonical document path."))
  else if path ≠ expectedPath then
    .error (providerContractError (lit "Notes provider returned a document for the wrong path."))
  else
    validateRevision note.revision
    assertNoteSize note.content
    .ok note

def validateMutation (mutation : NotesMutationResult) (expectedPath : Str) :
    Except NotesError NotesMutationResult := do
  let path ← normalizeStorePath mutation.path true false
  if path ≠ mutation.path then
    .error (providerContractError (lit "Notes provider returned a noncanonical mutation path."))
  else if path ≠ expectedPath then
    .error (providerContractError (lit "Notes provider returned a mutation for the wrong path."))
  else
    match mutation.revision with
    | none => .ok mutation
    | some revision =>
      validateRevision revision
      .ok mutation

-- -----
-- Actions
-- -----

structure NotesParams where
  kind : Option InboxItemKind
  text : Option Str
  deriving DecidableEq, Repr

structure NotesToolResult where
  text : Str
  path : Str
  revision : Option Str
  deriving DecidableEq, Repr

/-- `undefined` when the provider says the note is not there. -/
def readOptionalDocument (path : Str) : NotesM (Option NoteDocument) :=
  tryCatch
    (do
      let note ← validateDocument (← providerRead path) path
      return some note)
    fun cause =>
      match cause with
      | .provider .notFound _ => return none
      | cause => throw cause

/-- Read the day's note, compute its new content, and write it if it is still
the note that was read. -/
def appendToDayNote (path : Str) (contentOf : Option Str → Except NotesError Str) (done : Str) :
    NotesM NotesToolResult := do
  let current ← readOptionalDocument path
  let content ← contentOf (current.map (·.content))
  assertNoteSize content
  let written ← providerWrite ⟨path, content, current.map (·.revision)⟩
  let mutation ← validateMutation written path
  return ⟨done ++ path, path, mutation.revision⟩

def InboxItemKind.heading : InboxItemKind → Heading
  | .followup => .followUps
  | .note => .notes

def InboxItemKind.text : InboxItemKind → Str
  | .followup => lit "followup"
  | .note => lit "note"

def inboxContent (kind : InboxItemKind) (text : Str) : Option Str → Except NotesError Str
  | some content => appendSectionItem content kind.heading text
  | none => newInboxNote kind text

def worklogContent (date text : Str) : Option Str → Except NotesError Str
  | some content => appendSectionItem content .worklog text
  | none => newWorklogRecord date text

def inboxWriteAction (params : NotesParams) (now : CalendarDate) : NotesM NotesToolResult := do
  let kind ← requireInboxKind params.kind
  let text ← requireItemText params.text (lit "Inbox write")
  let date := localDate now
  let path ← inboxPath date
  appendToDayNote path (inboxContent kind text) (lit "Recorded Inbox " ++ kind.text ++ lit " in ")

def worklogRecordAction (params : NotesParams) (now : CalendarDate) : NotesM NotesToolResult := do
  let text ← requireItemText params.text (lit "Worklog record")
  let date := localDate now
  let path ← recordPath date
  appendToDayNote path (worklogContent date text) (lit "Recorded Worklog item in ")

-- -----
-- The operations of an append
-- -----

/-- What a read tells an append: the note, that there is none, or a failure. -/
def readOutcome (path : Str) (answer : Except NotesError NoteDocument) :
    Except NotesError (Option NoteDocument) :=
  match answer.bind (validateDocument · path) with
  | .ok note => .ok (some note)
  | .error (.provider .notFound _) => .ok none
  | .error cause => .error cause

def sizedContent (contentOf : Option Str → Except NotesError Str) (current : Option NoteDocument) :
    Except NotesError Str := do
  let content ← contentOf (current.map (·.content))
  assertNoteSize content
  return content

def writeOutcome (path done : Str) (answer : Except NotesError NotesMutationResult) :
    Except NotesError NotesToolResult := do
  let mutation ← validateMutation (← answer) path
  return ⟨done ++ path, path, mutation.revision⟩

def appendOps (path : Str) (contentOf : Option Str → Except NotesError Str) (done : Str) :
    Prog NotesOp NotesRes (Except NotesError NotesToolResult) :=
  .op (.read path) fun answer =>
    match readOutcome path answer with
    | .error cause => .ret (.error cause)
    | .ok current =>
      match sizedContent contentOf current with
      | .error cause => .ret (.error cause)
      | .ok content =>
        .op (.write ⟨path, content, current.map (·.revision)⟩) fun answer =>
          .ret (writeOutcome path done answer)

theorem providerRead_eq (path : Str) :
    (providerRead path).run = .op (.read path) fun answer => .ret answer := rfl

theorem providerWrite_eq (request : NotesWriteRequest) :
    (providerWrite request).run = .op (.write request) fun answer => .ret answer := rfl

theorem run_bind_op {α β : Type} {x : NotesM α} {o : NotesOp} {f : NotesRes o → Except NotesError α}
    (h : x.run = .op o fun r => .ret (f r)) (g : α → NotesM β) :
    (x >>= g).run = .op o fun r =>
      match f r with
      | .ok a => (g a).run
      | .error cause => .ret (.error cause) := by
  rw [ExceptT.run_bind, h]
  refine congrArg (Prog.op _) (funext fun r => ?_)
  show Prog.bind (.ret (f r)) _ = _
  rw [Prog.bind]
  cases f r <;> rfl

theorem run_bind_lift {α β : Type} (x : Except NotesError α) (g : α → NotesM β) :
    ((x : NotesM α) >>= g).run =
      match x with
      | .ok a => (g a).run
      | .error cause => .ret (.error cause) := by
  cases x <;> rfl

theorem run_tryCatch_op {α : Type} {x : NotesM α} {o : NotesOp} {f : NotesRes o → Except NotesError α}
    (h : x.run = .op o fun r => .ret (f r)) (handle : NotesError → NotesM α) :
    (tryCatch x handle).run = .op o fun r =>
      match f r with
      | .ok a => .ret (.ok a)
      | .error cause => (handle cause).run := by
  rw [ExceptT.run_tryCatch, h]
  refine congrArg (Prog.op _) (funext fun r => ?_)
  show Prog.bind (.ret (f r)) _ = _
  rw [Prog.bind]
  cases f r <;> rfl

theorem readOptionalDocument_eq (path : Str) : (readOptionalDocument path).run =
    .op (.read path) fun answer => .ret (readOutcome path answer) := by
  have hread : (do
      let note ← validateDocument (← providerRead path) path
      return some note : NotesM (Option NoteDocument)).run = .op (.read path) fun answer =>
        .ret ((Except.bind answer (validateDocument · path)).map some) := by
    refine (run_bind_op (providerRead_eq path) _).trans ?_
    refine congrArg (Prog.op _) (funext fun answer => ?_)
    cases answer with
    | error cause => rfl
    | ok note =>
      refine (run_bind_lift ..).trans ?_
      show _ = Prog.ret ((validateDocument note path).map some)
      cases validateDocument note path <;> rfl
  refine (run_tryCatch_op hread _).trans ?_
  refine congrArg (Prog.op _) (funext fun answer => ?_)
  unfold readOutcome
  cases Except.bind answer (validateDocument · path) with
  | ok note => rfl
  | error cause =>
    cases cause with
    | plain m => rfl
    | provider code m => cases code <;> rfl

theorem appendToDayNote_eq (path : Str) (contentOf : Option Str → Except NotesError Str)
    (done : Str) : (appendToDayNote path contentOf done).run = appendOps path contentOf done := by
  unfold appendToDayNote appendOps
  rw [run_bind_op (readOptionalDocument_eq path)]
  refine congrArg (Prog.op _) (funext fun answer => ?_)
  cases readOutcome path answer with
  | error cause => rfl
  | ok current =>
    refine (run_bind_lift (contentOf (current.map (·.content))) _).trans ?_
    dsimp only [sizedContent, bind, Except.bind]
    cases contentOf (current.map (·.content)) with
    | error cause => rfl
    | ok content =>
      refine (run_bind_lift (assertNoteSize content) _).trans ?_
      dsimp only
      cases assertNoteSize content with
      | error cause => rfl
      | ok _ =>
        refine (run_bind_op (providerWrite_eq _) _).trans ?_
        refine congrArg (Prog.op _) (funext fun answer => ?_)
        cases answer with
        | error cause => rfl
        | ok written =>
          refine (run_bind_lift ..).trans ?_
          simp only [writeOutcome, bind, Except.bind]
          cases validateMutation written path <;> rfl

-- -----
-- The paths of day notes are canonical
-- -----

theorem requireIsoDate_ok {value iso : Str} (h : requireIsoDate value = .ok iso) :
    iso = value ∧ ∃ y m d, matchIsoDate value = some (y, m, d) := by
  unfold requireIsoDate at h
  split at h
  · simp at h
  · rename_i y m d hm
    dsimp only at h
    split at h
    · simp at h
    · exact ⟨(Except.ok.inj h).symm, y, m, d, hm⟩

/-- The three groups of a date, all digits, which a split at the dashes gives
back. -/
theorem matchIsoDate_spec {value y m d : Str} (h : matchIsoDate value = some (y, m, d)) :
    (y.length = 4 ∧ m.length = 2 ∧ d.length = 2) ∧
      (∀ digits ∈ [y, m, d], ∀ u ∈ digits, isDigit u = true) ∧
        value = join [45] [y, m, d] := by
  unfold matchIsoDate at h
  split at h
  · split at h
    · rename_i hd
      simp only [Option.some.injEq, Prod.mk.injEq] at h
      obtain ⟨rfl, rfl, rfl⟩ := h
      simp only [List.all_cons, List.all_nil, Bool.and_true, Bool.and_eq_true] at hd
      obtain ⟨h₁, h₂, h₃, h₄, h₅, h₆, h₇, h₈⟩ := hd
      exact ⟨⟨rfl, rfl, rfl⟩, by simp [h₁, h₂, h₃, h₄, h₅, h₆, h₇, h₈], rfl⟩
    · simp at h
  · simp at h

theorem digit_plain {u : UInt16} (h : isDigit u = true) :
    (u ≠ 45 ∧ u ≠ 46 ∧ u ≠ 64) ∧ u ≠ slash ∧ u ≠ 92 ∧ u ≠ 58 ∧ isControl u = false := by
  have hne : ∀ v, isDigit v = false → u ≠ v := by
    rintro v hv rfl
    simp [h] at hv
  refine ⟨⟨hne _ (by decide), hne _ (by decide), hne _ (by decide)⟩, hne _ (by decide),
    hne _ (by decide), hne _ (by decide), ?_⟩
  simp only [isDigit, Bool.and_eq_true, decide_eq_true_eq, UInt16.le_iff_toNat_le] at h
  have hle : ¬ u ≤ 0x1F := by
    rw [UInt16.le_iff_toNat_le]
    have : (0x1F : UInt16).toNat = 31 := rfl
    have : (48 : UInt16).toNat = 48 := rfl
    omega
  have hdel : u ≠ 0x7F := by
    rintro rfl
    exact absurd h.2 (by decide)
  simp [isControl, hle, hdel]

theorem plainSegment_digits {digits rest : Str} (hd : ∀ u ∈ digits, isDigit u = true)
    (hne : digits ≠ []) (hr : rest = [] ∨ rest = lit ".md") : PlainSegment (digits ++ rest) := by
  obtain ⟨u, more, rfl⟩ := List.exists_cons_of_ne_nil hne
  have hu := digit_plain (hd u (by simp))
  refine ⟨⟨u, more ++ rest, rfl, hu.1.2⟩, fun v hv => ?_⟩
  rcases List.mem_append.mp hv with hv | hv
  · exact (digit_plain (hd v hv)).2
  · rcases hr with rfl | rfl
    · simp at hv
    · exact plainUnits (s := lit ".md") (by decide) v hv

/-- The parts of an accepted date: four, two and two digits. -/
theorem date_parts {date iso : Str} (h : requireIsoDate date = .ok iso) : ∃ y m d,
    split (lit "-") iso = [y, m, d] ∧ (y.length = 4 ∧ m.length = 2 ∧ d.length = 2) ∧
      ∀ digits ∈ [y, m, d], ∀ u ∈ digits, isDigit u = true := by
  obtain ⟨rfl, y, m, d, hm⟩ := requireIsoDate_ok h
  obtain ⟨hlen, hdigits, rfl⟩ := matchIsoDate_spec hm
  have hdash : ∀ digits ∈ [y, m, d], (45 : UInt16) ∉ digits :=
    fun ds hs hu => (digit_plain (hdigits ds hs _ hu)).1.1 rfl
  exact ⟨y, m, d, split_join hdash (by simp), hlen, hdigits⟩

theorem ne_nil_of_length {digits : Str} {n : Nat} (h : digits.length = n + 1) : digits ≠ [] := by
  rintro rfl
  simp at h

theorem inboxPath_canonical {date path : Str} (h : inboxPath date = .ok path) :
    normalizeStorePath path true false = .ok path := by
  cases hr : requireIsoDate date with
  | error e => simp [inboxPath, hr, bind, Except.bind] at h
  | ok iso =>
    obtain ⟨y, m, d, hs, ⟨hy, hm, hd⟩, hdigits⟩ := date_parts hr
    have hall : ∀ u ∈ y ++ m ++ d, isDigit u = true := by
      simp only [List.mem_append]
      rintro u ((hu | hu) | hu)
      exacts [hdigits y (by simp) u hu, hdigits m (by simp) u hu, hdigits d (by simp) u hu]
    have hplain : ∀ s ∈ [lit "inbox", (y ++ m ++ d) ++ lit ".md"], PlainSegment s := by
      intro s hs
      simp only [List.mem_cons, List.not_mem_nil, or_false] at hs
      rcases hs with rfl | rfl
      · exact ⟨⟨105, lit "nbox", by decide, by decide⟩, plainUnits (by decide)⟩
      · exact plainSegment_digits hall (by simp [ne_nil_of_length hy]) (.inr rfl)
    have hpath : path = join [slash] [lit "inbox", (y ++ m ++ d) ++ lit ".md"] := by
      simp only [inboxPath, hr, bind, Except.bind, hs, part, List.getD_cons_zero,
        List.getD_cons_succ, pure, Except.pure, Except.ok.injEq] at h
      rw [← h]
      simp [join, lit, units, slash]
    rw [hpath]
    refine normalizeStorePath_plain hplain (by simp) ?_ ?_ false
    · simp [join, hy, hm, hd, lit, units]
    · exact ⟨lit "inbox/" ++ (y ++ m ++ d), by simp [join, lit, units, slash]⟩

theorem recordPath_canonical {date path : Str} (h : recordPath date = .ok path) :
    normalizeStorePath path true false = .ok path := by
  cases hr : requireIsoDate date with
  | error e => simp [recordPath, hr, bind, Except.bind] at h
  | ok iso =>
    obtain ⟨y, m, d, hs, ⟨hy, hm, hd⟩, hdigits⟩ := date_parts hr
    have hplain : ∀ s ∈ [lit "records", y ++ [], m ++ [], d ++ lit ".md"], PlainSegment s := by
      intro s hs
      simp only [List.mem_cons, List.not_mem_nil, or_false] at hs
      rcases hs with rfl | rfl | rfl | rfl
      · exact ⟨⟨114, lit "ecords", by decide, by decide⟩, plainUnits (by decide)⟩
      · exact plainSegment_digits (hdigits y (by simp)) (ne_nil_of_length hy) (.inl rfl)
      · exact plainSegment_digits (hdigits m (by simp)) (ne_nil_of_length hm) (.inl rfl)
      · exact plainSegment_digits (hdigits d (by simp)) (ne_nil_of_length hd) (.inr rfl)
    have hpath : path = join [slash] [lit "records", y ++ [], m ++ [], d ++ lit ".md"] := by
      simp only [recordPath, hr, bind, Except.bind, hs, part, List.getD_cons_zero,
        List.getD_cons_succ, pure, Except.pure, Except.ok.injEq] at h
      rw [← h]
      simp [join, lit, units, slash]
    rw [hpath]
    refine normalizeStorePath_plain hplain (by simp) ?_ ?_ false
    · simp [join, hy, hm, hd, lit, units]
    · exact ⟨lit "records/" ++ y ++ [slash] ++ m ++ [slash] ++ d, by simp [join, lit, units, slash]⟩

end PiEnv.Notes
