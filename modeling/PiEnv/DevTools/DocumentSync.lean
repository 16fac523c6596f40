import Mathlib.Logic.Function.Basic
import PiEnv.DevTools.DocumentManager

/-!
# What a server makes of the notifications

A server that receives every notification has the documents of the manager's
table, each with its version and its content.
-/

namespace PiEnv.DevTools

open Js

/-- Version and text of the open documents. -/
abbrev ServerDocuments := Str → Option (Nat × Str)

namespace ServerDocuments

def none : ServerDocuments := fun _ => Option.none

def receive (docs : ServerDocuments) : DocumentNotification → ServerDocuments
  | .didOpen uri _ version text => Function.update docs uri (some (version, text))
  | .didChange uri version text => Function.update docs uri (some (version, text))
  | .didClose uri => Function.update docs uri Option.none

/-- A document is opened when it is closed, and changed and closed when it is
open; a change raises its version. -/
def Accepts (docs : ServerDocuments) : DocumentNotification → Prop
  | .didOpen uri _ _ _ => docs uri = Option.none
  | .didChange uri version _ => ∃ earlier, docs uri = some earlier ∧ earlier.1 < version
  | .didClose uri => ∃ last, docs uri = some last

def receiveAll (docs : ServerDocuments) (notifications : List DocumentNotification) :
    ServerDocuments :=
  notifications.foldl receive docs

def AcceptsAll (docs : ServerDocuments) : List DocumentNotification → Prop
  | [] => True
  | n :: rest => docs.Accepts n ∧ (docs.receive n).AcceptsAll rest

theorem acceptsAll_append {docs : ServerDocuments} {first second : List DocumentNotification} :
    docs.AcceptsAll (first ++ second) ↔
      docs.AcceptsAll first ∧ (docs.receiveAll first).AcceptsAll second := by
  induction first generalizing docs with
  | nil => simp [AcceptsAll, receiveAll]
  | cons n rest ih => simp [AcceptsAll, receiveAll, ih, and_assoc]

theorem receiveAll_append {docs : ServerDocuments} {first second : List DocumentNotification} :
    docs.receiveAll (first ++ second) = (docs.receiveAll first).receiveAll second :=
  List.foldl_append

end ServerDocuments

/-- Notifications of one document: it is opened, changed with versions that
rise, closed, and so on; it is `opened` with a version, or closed. -/
def DocumentSession : (opened : Option Nat) → List DocumentNotification → Prop
  | _, [] => True
  | none, .didOpen _ _ version _ :: rest => DocumentSession (some version) rest
  | some earlier, .didChange _ version _ :: rest =>
    earlier < version ∧ DocumentSession (some version) rest
  | some _, .didClose _ :: rest => DocumentSession none rest
  | _, _ => False

theorem ServerDocuments.AcceptsAll.session {docs : ServerDocuments}
    {notifications : List DocumentNotification} (h : docs.AcceptsAll notifications) (uri : Str) :
    DocumentSession ((docs uri).map (·.1)) (notifications.filter (·.uri = uri)) := by
  induction notifications generalizing docs with
  | nil => cases (docs uri).map (·.1) <;> trivial
  | cons n rest ih =>
    obtain ⟨hn, hrest⟩ := h
    have hsession := ih hrest
    by_cases huri : n.uri = uri
    · rw [List.filter_cons_of_pos (by simpa using huri)]
      subst huri
      cases n with
      | didOpen uri languageId version text =>
        have hclosed : docs uri = Option.none := hn
        rw [DocumentNotification.uri, hclosed]
        simp only [DocumentNotification.uri, receive, Function.update_self] at hsession
        exact hsession
      | didChange uri version text =>
        obtain ⟨earlier, hopen, hversion⟩ := hn
        rw [DocumentNotification.uri, hopen]
        simp only [DocumentNotification.uri, receive, Function.update_self] at hsession
        exact ⟨hversion, hsession⟩
      | didClose uri =>
        obtain ⟨last, hopen⟩ := hn
        rw [DocumentNotification.uri, hopen]
        simp only [DocumentNotification.uri, receive, Function.update_self] at hsession
        exact hsession
    · rw [List.filter_cons_of_neg (by simpa using huri)]
      have hsame : docs.receive n uri = docs uri := by
        cases n <;> exact Function.update_of_ne (fun h => huri h.symm) _ _
      rwa [hsame] at hsession

-- -----
-- The table and the notifications of each operation
-- -----

namespace DocumentManager

/-- What the server is to have. -/
def documents (m : DocumentManager) : ServerDocuments := fun uri =>
  (m.getDoc uri).map fun doc => (doc.version, doc.content)

/-- Documents stand under their own uris. -/
def Keyed (m : DocumentManager) : Prop := ∀ uri doc, m.getDoc uri = some doc → doc.uri = uri

/-- Notifications that bring a server from one table to another. -/
structure Notifies (m m' : DocumentManager) (notifications : List DocumentNotification) : Prop where
  keyed : m'.Keyed
  accepted : m.documents.AcceptsAll notifications
  received : m.documents.receiveAll notifications = m'.documents

theorem keyed_empty : empty.Keyed := fun _ _ h => absurd h nofun

theorem Notifies.trans {m m' m'' : DocumentManager} {first second : List DocumentNotification}
    (h : m.Notifies m' first) (h' : m'.Notifies m'' second) : m.Notifies m'' (first ++ second) :=
  ⟨h'.keyed, ServerDocuments.acceptsAll_append.mpr ⟨h.accepted, h.received ▸ h'.accepted⟩,
    ServerDocuments.receiveAll_append.trans (h.received ▸ h'.received)⟩

/-- An operation that leaves the open documents alone notifies of nothing. -/
theorem notifies_nil {m m' : DocumentManager} (hm : m.Keyed) (h : m'.openDocs = m.openDocs) :
    m.Notifies m' [] := by
  have hget : ∀ uri, m'.getDoc uri = m.getDoc uri := fun uri => by rw [getDoc, h, getDoc]
  refine ⟨fun uri doc hdoc => hm uri doc (hget uri ▸ hdoc), trivial, funext fun uri => ?_⟩
  show m.documents uri = m'.documents uri
  rw [documents, documents, hget]

theorem documents_set {m m' : DocumentManager} {uri : Str} {doc : OpenDocument}
    (h : m'.openDocs = m.openDocs.set uri doc) :
    m'.documents = Function.update m.documents uri (some (doc.version, doc.content)) := by
  funext other
  by_cases hother : other = uri
  · subst hother
    simp [documents, getDoc, h, JsMap.get_set]
  · simp [documents, getDoc, h, JsMap.get_set, hother]

theorem documents_delete {m m' : DocumentManager} {uri : Str}
    (h : m'.openDocs = m.openDocs.delete uri) :
    m'.documents = Function.update m.documents uri none := by
  funext other
  by_cases hother : other = uri
  · subst hother
    simp [documents, getDoc, h, JsMap.get_delete]
  · simp [documents, getDoc, h, JsMap.get_delete, hother]

theorem keyed_set {m m' : DocumentManager} {uri : Str} {doc : OpenDocument} (hm : m.Keyed)
    (h : m'.openDocs = m.openDocs.set uri doc) (hdoc : doc.uri = uri) : m'.Keyed := by
  intro other found hfound
  rw [getDoc, h, JsMap.get_set] at hfound
  by_cases hother : other = uri
  · rw [if_pos hother, Option.some.injEq] at hfound
    rw [← hfound, hdoc, hother]
  · rw [if_neg hother] at hfound
    exact hm other found hfound

theorem keyed_delete {m m' : DocumentManager} {uri : Str} (hm : m.Keyed)
    (h : m'.openDocs = m.openDocs.delete uri) : m'.Keyed := by
  intro other found hfound
  rw [getDoc, h, JsMap.get_delete] at hfound
  by_cases hother : other = uri
  · rw [if_pos hother] at hfound
    exact absurd hfound nofun
  · rw [if_neg hother] at hfound
    exact hm other found hfound

theorem notifies_set {m m' : DocumentManager} {uri : Str} {doc : OpenDocument}
    {n : DocumentNotification} (hm : m.Keyed) (h : m'.openDocs = m.openDocs.set uri doc)
    (hdoc : doc.uri = uri) (hn : m.documents.Accepts n)
    (hreceive : m.documents.receive n =
      Function.update m.documents uri (some (doc.version, doc.content))) : m.Notifies m' [n] :=
  ⟨keyed_set hm h hdoc, ⟨hn, trivial⟩, hreceive.trans (documents_set h).symm⟩

theorem notifies_delete {m m' : DocumentManager} {uri : Str} {doc : OpenDocument} (hm : m.Keyed)
    (hopen : m.getDoc uri = some doc) (h : m'.openDocs = m.openDocs.delete uri) :
    m.Notifies m' [.didClose uri] := by
  refine ⟨keyed_delete hm h, ⟨⟨(doc.version, doc.content), ?_⟩, trivial⟩, (documents_delete h).symm⟩
  rw [documents, hopen, Option.map_some]

theorem openFile_notifies {env : Documents} {m : DocumentManager} {abs : Str}
    {content resolved : Option Str} (hm : m.Keyed) :
    m.Notifies (m.openFile env abs content resolved).2
      (m.openFile env abs content resolved).1.notification.toList := by
  cases content with
  | none => exact notifies_nil hm getProjectRoot_openDocs
  | some content =>
    have hprepared : ((m.getProjectRoot abs resolved).2.addProjectFile
        (m.getProjectRoot abs resolved).1 (env.pathToUri abs)).openDocs = m.openDocs := by simp
    unfold openFile
    simp only [hprepared]
    split
    case h_1 hclosed =>
      refine notifies_set hm rfl rfl ?_ ?_
      · show m.documents (env.pathToUri abs) = none
        rw [documents, getDoc, hclosed, Option.map_none]
      · rfl
    case h_2 existing hopen =>
      have huri : existing.uri = env.pathToUri abs := hm _ existing hopen
      have hdocument : m.documents (env.pathToUri abs) = some (existing.version, existing.content) := by
        rw [documents, getDoc, hopen, Option.map_some]
      split
      case isTrue hsame =>
        refine ⟨keyed_set hm rfl huri, trivial, ?_⟩
        refine Eq.trans ?_ (documents_set (m := m) rfl).symm
        rw [← hdocument]
        exact (Function.update_eq_self _ _).symm
      case isFalse hchanged =>
        refine notifies_set hm rfl huri ⟨_, hdocument, Nat.lt_succ_self _⟩ ?_
        rfl

theorem close_notifies {env : Documents} {m : DocumentManager} {absolutePath : Str} (hm : m.Keyed) :
    m.Notifies (m.close env absolutePath).2 ((m.close env absolutePath).1.map .didClose).toList := by
  unfold close
  simp only
  split
  case h_1 => exact notifies_nil hm rfl
  case h_2 doc hopen =>
    exact notifies_delete hm hopen removeProjectFile_openDocs

theorem removeDoc_openDocs {m : DocumentManager} {doc : OpenDocument} :
    (m.removeDoc doc).openDocs = m.openDocs.delete doc.uri :=
  removeProjectFile_openDocs

variable {m : DocumentManager}

/-- Documents that are removed one after the other, each open and none twice. -/
theorem removeDocs_notifies {docs : List OpenDocument} (hm : m.Keyed)
    (hopen : ∀ doc ∈ docs, m.getDoc doc.uri = some doc) (hnodup : (docs.map (·.uri)).Nodup) :
    m.Notifies (docs.foldl removeDoc m) ((docs.map (·.uri)).map .didClose) := by
  induction docs generalizing m with
  | nil => exact notifies_nil hm rfl
  | cons doc rest ih =>
    obtain ⟨hnot, hrest⟩ := List.nodup_cons.mp hnodup
    have hone : m.Notifies (m.removeDoc doc) [.didClose doc.uri] :=
      notifies_delete hm (hopen doc List.mem_cons_self) removeDoc_openDocs
    refine hone.trans (ih hone.keyed (fun other hother => ?_) hrest)
    have hne : other.uri ≠ doc.uri := fun h => hnot (List.mem_map.mpr ⟨other, hother, h⟩)
    rw [getDoc, removeDoc_openDocs, JsMap.get_delete, if_neg hne]
    exact hopen other (List.mem_cons_of_mem _ hother)

theorem Keyed.values (hm : m.Keyed) {doc : OpenDocument} (hdoc : doc ∈ m.openDocs.values) :
    m.getDoc doc.uri = some doc := by
  obtain ⟨⟨uri, doc⟩, hentry, rfl⟩ := List.mem_map.mp hdoc
  have hget : m.getDoc uri = some doc := JsMap.get_of_mem hentry
  rw [hm uri doc hget]
  exact hget

theorem Keyed.uris (hm : m.Keyed) : m.openDocs.values.map (·.uri) = m.openUris := by
  rw [openUris, JsMap.values, JsMap.keys, List.map_map]
  refine List.map_congr_left fun entry hentry => ?_
  exact hm entry.1 entry.2 (JsMap.get_of_mem hentry)

theorem toEvict_subperm {maxOpen : Nat} : (m.toEvict maxOpen).Subperm m.openDocs.values := by
  unfold toEvict
  split
  · exact List.nil_subperm
  · exact ((List.take_sublist _ _).subperm).trans (List.mergeSort_perm _ _).subperm

theorem toEvict_nodup {maxOpen : Nat} (hm : m.Keyed) :
    ((m.toEvict maxOpen).map (·.uri)).Nodup := by
  obtain ⟨part, hperm, hpart⟩ : (m.toEvict maxOpen).Subperm m.openDocs.values := toEvict_subperm
  have hnodup : (m.openDocs.values.map (·.uri)).Nodup := hm.uris ▸ m.openDocs.nodup
  exact (hperm.map _).nodup_iff.mp (hnodup.sublist (hpart.map _))

theorem evict_notifies {maxOpen : Nat} (hm : m.Keyed) :
    m.Notifies (m.evict maxOpen).2 ((m.evict maxOpen).1.map .didClose) :=
  removeDocs_notifies hm (fun _ hdoc => hm.values (toEvict_subperm.subset hdoc)) (toEvict_nodup hm)

theorem removeDocs_size {docs : List OpenDocument}
    (hopen : ∀ doc ∈ docs, m.getDoc doc.uri = some doc) (hnodup : (docs.map (·.uri)).Nodup) :
    (docs.foldl removeDoc m).openDocs.size + docs.length = m.openDocs.size := by
  induction docs generalizing m with
  | nil => rfl
  | cons doc rest ih =>
    obtain ⟨hnot, hrest⟩ := List.nodup_cons.mp hnodup
    have hone : (m.removeDoc doc).openDocs.size + 1 = m.openDocs.size := by
      rw [removeDoc_openDocs]
      exact JsMap.size_delete (hopen doc List.mem_cons_self)
    have hothers : ∀ other ∈ rest, (m.removeDoc doc).getDoc other.uri = some other := by
      intro other hother
      have hne : other.uri ≠ doc.uri := fun h => hnot (List.mem_map.mpr ⟨other, hother, h⟩)
      rw [getDoc, removeDoc_openDocs, JsMap.get_delete, if_neg hne]
      exact hopen other (List.mem_cons_of_mem _ hother)
    have := ih hothers hrest
    rw [List.foldl_cons, List.length_cons]
    omega

theorem toEvict_length {maxOpen : Nat} :
    (m.toEvict maxOpen).length = m.openDocs.size - maxOpen := by
  unfold toEvict
  split
  case isTrue h => exact (Nat.sub_eq_zero_of_le h).symm
  case isFalse =>
    rw [List.length_take, List.length_mergeSort]
    have : m.openDocs.values.length = m.openDocs.size := List.length_map _
    omega

/-- At most so many documents stay open. -/
theorem evict_size {maxOpen : Nat} (hm : m.Keyed) : (m.evict maxOpen).2.openDocs.size ≤ maxOpen := by
  have hnodup : ((m.toEvict maxOpen).map (·.uri)).Nodup := toEvict_nodup hm
  have hsize := removeDocs_size (m := m) (fun _ hdoc => hm.values (toEvict_subperm.subset hdoc)) hnodup
  rw [toEvict_length] at hsize
  show ((m.toEvict maxOpen).foldl removeDoc m).openDocs.size ≤ maxOpen
  omega

theorem evict_of_le {maxOpen : Nat} (h : m.openDocs.size ≤ maxOpen) : m.evict maxOpen = ([], m) := by
  rw [evict, toEvict, if_pos h]
  rfl

/-- A file that cannot be read, or is open with what it reads, changes nothing
that a server knows of. -/
theorem openFile_same {env : Documents} {abs : Str} {content resolved : Option Str}
    (h : ∀ text, content = some text → ∃ doc, m.getDoc (env.pathToUri abs) = some doc ∧
      doc.content = text) :
    (m.openFile env abs content resolved).1.notification = none ∧
      (m.openFile env abs content resolved).2.openDocs.size = m.openDocs.size := by
  cases content with
  | none =>
    unfold openFile
    simp only
    exact ⟨trivial, congrArg JsMap.size getProjectRoot_openDocs⟩
  | some text =>
    obtain ⟨doc, hopen, hsame⟩ := h text rfl
    have hprepared : ((m.getProjectRoot abs resolved).2.addProjectFile
        (m.getProjectRoot abs resolved).1 (env.pathToUri abs)).openDocs = m.openDocs := by simp
    unfold getDoc at hopen
    unfold openFile
    simp only [hprepared, hopen, hsame, if_true]
    exact ⟨trivial, JsMap.size_set (by rw [hopen]; simp)⟩

theorem close_closed {env : Documents} {absolutePath : Str}
    (h : m.getDoc (env.pathToUri (Posix.resolve env.cwd absolutePath)) = none) :
    (m.close env absolutePath).2 = m := by
  unfold getDoc at h
  unfold close
  simp only [h]

theorem close_size {env : Documents} {absolutePath : Str} :
    (m.close env absolutePath).2.openDocs.size ≤ m.openDocs.size := by
  unfold close
  simp only
  split
  case h_1 => exact Nat.le_refl _
  case h_2 doc hopen =>
    have hsize := JsMap.size_delete hopen
    rw [removeProjectFile_openDocs]
    exact Nat.le_of_succ_le (Nat.le_of_eq hsize)

end DocumentManager

end PiEnv.DevTools
