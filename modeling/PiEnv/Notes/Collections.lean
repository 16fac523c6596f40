import PiEnv.Lib.JsonLength
import PiEnv.Notes.Worklog

/-!
# Reading collections page by page

The Projects, Wiki-folder and dated-Inbox reads: an inventory, a page of it,
and a cursor that names the entry to go on with.
-/

namespace PiEnv.Notes

open Js

structure Page (α : Type) where
  items : List α
  nextCursor : Option Str

section
variable {α : Type} (size : α → Nat)

/-- The loop of `page`, after this many items and bytes. -/
def takePage (limit : Nat) : Nat → Nat → List α → Except NotesError (List α)
  | _, _, [] => .ok []
  | count, bytes, value :: rest =>
    if count < limit then
      if size value > MAX_COLLECTION_RESULT_BYTES then
        .error (.provider .resourceLimit
          (lit "One collection item exceeds the result byte limit."))
      else if 0 < count ∧ bytes + size value > MAX_COLLECTION_RESULT_BYTES then .ok []
      else (takePage limit (count + 1) (bytes + size value) rest).map (value :: ·)
    else .ok []

def page (values : List α) (limit offset : Nat) (cursorFor : Nat → Str) :
    Except NotesError (Page α) := do
  let items ← takePage size limit 0 0 (values.drop offset)
  let nextOffset := offset + items.length
  return ⟨items, if nextOffset < values.length then some (cursorFor nextOffset) else none⟩

variable {size}

theorem takePage_spec (limit : Nat) {values : List α}
    (hfit : ∀ value ∈ values, size value ≤ MAX_COLLECTION_RESULT_BYTES) (count bytes : Nat) :
    ∃ k, k ≤ values.length ∧ takePage size limit count bytes values = .ok (values.take k) ∧
      (0 < k → count + k ≤ limit) ∧ (count = 0 → 0 < limit → values ≠ [] → 0 < k) := by
  induction values generalizing count bytes with
  | nil => exact ⟨0, by simp, rfl, by simp, by simp⟩
  | cons value rest ih =>
    have hvalue := hfit value (by simp)
    unfold takePage
    split
    · rename_i hcount
      rw [if_neg (by omega)]
      split
      · exact ⟨0, by simp, rfl, by simp, by omega⟩
      · obtain ⟨k, hk, hrun, hlimit, -⟩ := ih (fun v hv => hfit v (by simp [hv])) (count + 1)
          (bytes + size value)
        exact ⟨k + 1, by simpa using hk, by rw [hrun]; rfl, by omega, by omega⟩
    · exact ⟨0, by simp, rfl, by simp, by omega⟩

theorem page_spec {values : List α}
    (hfit : ∀ value ∈ values, size value ≤ MAX_COLLECTION_RESULT_BYTES) {limit : Nat}
    (hl : 0 < limit) (offset : Nat) (cursorFor : Nat → Str) :
    ∃ k, page size values limit offset cursorFor =
        .ok ⟨(values.drop offset).take k,
          if offset + k < values.length then some (cursorFor (offset + k)) else none⟩ ∧
      k ≤ (values.drop offset).length ∧ k ≤ limit ∧ (values.drop offset ≠ [] → 0 < k) := by
  obtain ⟨k, hk, hrun, hlimit, hpos⟩ := takePage_spec limit
    (fun v (hv : v ∈ values.drop offset) => hfit v (List.mem_of_mem_drop hv)) 0 0
  refine ⟨k, ?_, hk, by omega, hpos rfl hl⟩
  simp only [page, hrun, bind, Except.bind, List.length_take, min_eq_left hk]
  rfl

/-- Where a cursor resumes: what is left, and its length. -/
inductive Resumes (values : List α) (cursorFor : Nat → Str) : Option Str → List α → Nat → Prop
  | start : Resumes values cursorFor none values (values.length + 1)
  | resume {n : Nat} (h : n < values.length) :
      Resumes values cursorFor (some (cursorFor n)) (values.drop n) (values.drop n).length

/-- A page within its limit that is empty only where there is nothing. -/
structure Advances (values : List α) (cursorFor : Nat → Str) (limit : Nat) (page : Page α) :
    Prop where
  limit : page.items.length ≤ limit
  progress : values ≠ [] → page.items ≠ []
  cursor : ∀ c, page.nextCursor = some c → ∃ n < values.length, c = cursorFor n

theorem page_takes {values : List α}
    (hfit : ∀ value ∈ values, size value ≤ MAX_COLLECTION_RESULT_BYTES) (cursorFor : Nat → Str)
    {n limit : Nat} (hl : 0 < limit) (hn : n ≤ values.length)
    (hlt : values ≠ [] → n < values.length) :
    ∃ result, page size values (collectionLimit (some limit)) n cursorFor = .ok result ∧
      Paging.Takes Page.nextCursor Page.items (Resumes values cursorFor)
        (Advances values cursorFor) limit (values.drop n) (values.drop n).length result := by
  have hpos : 0 < collectionLimit (some limit) := by
    show 0 < min limit 200
    omega
  obtain ⟨k, hrun, hk, hkl, hprog⟩ := page_spec hfit hpos n cursorFor
  have hlimit : k ≤ limit := hkl.trans (min_le_left _ _)
  have hmore : ∀ c, (if n + k < values.length then some (cursorFor (n + k)) else none) = some c →
      n + k < values.length ∧ cursorFor (n + k) = c := by
    intro c hc
    split at hc
    · exact ⟨by assumption, Option.some.inj hc⟩
    · cases hc
  rw [List.length_drop] at hk
  refine ⟨_, hrun, ⟨?_, ?_, ?_⟩, ?_, ?_⟩
  · simp only [List.length_take]
    omega
  · intro hne
    have hdrop : values.drop n ≠ [] := by
      rw [Ne, List.drop_eq_nil_iff]
      exact not_le.mpr (hlt hne)
    have := hprog hdrop
    simp only [Ne, List.take_eq_nil_iff, hdrop, or_false]
    omega
  · intro c hc
    obtain ⟨hm, he⟩ := hmore c hc
    exact ⟨n + k, hm, he.symm⟩
  · intro hc
    simp only at hc
    split at hc
    · cases hc
    · exact List.take_of_length_le (by rw [List.length_drop]; omega)
  · intro c hc
    obtain ⟨hm, rfl⟩ := hmore c hc
    have hdrop : values.drop n ≠ [] := by
      rw [Ne, List.drop_eq_nil_iff]
      omega
    have := hprog hdrop
    refine ⟨values.drop (n + k), _, ?_, ?_, .resume hm⟩
    · rw [← List.drop_drop, List.take_append_drop]
    · simp only [List.length_drop]
      omega

/-- Pages of an inventory whose cursors are found again. -/
theorem page_follows {values : List α}
    (hfit : ∀ value ∈ values, size value ≤ MAX_COLLECTION_RESULT_BYTES)
    (read : Option Str → Nat → Except NotesError (Page α))
    (locate : Option Str → Except NotesError Nat) (cursorFor : Nat → Str)
    (hread : ∀ cursor limit, read cursor limit = do
      page size values (collectionLimit (some limit)) (← locate cursor) cursorFor)
    (hnone : locate none = .ok 0)
    (hsome : ∀ n < values.length, locate (some (cursorFor n)) = .ok n)
    {limits : Nat → Nat} (hl : ∀ k, 0 < limits k) :
    ∃ pages, Paging.Follows read Page.nextCursor limits none pages ∧
      pages.flatMap Page.items = values ∧
      ∀ k page, pages[k]? = some page → Advances values cursorFor (limits k) page := by
  have hstart : Resumes values cursorFor none values (values.length + 1) := .start
  refine Paging.exists_follows ?_ hstart hl
  intro cursor rest measure limit hat hlimit
  cases hat with
  | start =>
    obtain ⟨result, hrun, htakes⟩ := page_takes hfit cursorFor hlimit (Nat.zero_le _)
      List.length_pos_iff.mpr
    rw [List.drop_zero] at htakes
    refine ⟨result, by rw [hread, hnone]; exact hrun, htakes.good, htakes.last, ?_⟩
    intro c hc
    obtain ⟨rest', size', hrest, hsize, hat⟩ := htakes.more c hc
    exact ⟨rest', size', hrest, by omega, hat⟩
  | @resume m hm =>
    obtain ⟨result, hrun, htakes⟩ := page_takes hfit cursorFor hlimit hm.le fun _ => hm
    exact ⟨result, by rw [hread, hsome m hm]; exact hrun, htakes⟩

/-- A cursor of this collection and scope, which no other accepts. -/
def BoundTo (collection : Collection) (scope cursor : Str) : Prop :=
  ∃ position : CursorPosition,
    cursor = encodeCursor collection scope position.offset position.location ∧
    ∀ collection' scope', decodeCursor (some cursor) collection' scope' =
      if collection = collection' ∧ scope = scope' then .ok position else .error invalidCursor

/-- Whatever the limits, the pages end and give these values in order, under
cursors of this collection and scope. -/
def Paginates (read : Option Str → Option Nat → Except NotesError (Page α))
    (collection : Collection) (scope : Str) (values : List α) : Prop :=
  ∀ limits : Nat → Nat, (∀ k, 0 < limits k) →
    ∃ pages, Paging.Follows (fun cursor limit => read cursor (some limit)) Page.nextCursor limits
        none pages ∧
      pages.flatMap Page.items = values ∧
      ∀ k page, pages[k]? = some page → page.items.length ≤ limits k ∧
        (values ≠ [] → page.items ≠ []) ∧
        ∀ cursor, page.nextCursor = some cursor → BoundTo collection scope cursor

theorem boundTo_encodeCursor {offset : Nat} (h : offset < maxSafe) (collection : Collection)
    (scope : Str) (location : Option Str) :
    BoundTo collection scope (encodeCursor collection scope offset location) :=
  ⟨⟨offset, location⟩, rfl,
    fun collection' scope' => decodeCursor_encodeCursor h collection collection' scope scope' location⟩

theorem paginates_of_locate {values : List α}
    (hfit : ∀ value ∈ values, size value ≤ MAX_COLLECTION_RESULT_BYTES)
    {read : Option Str → Option Nat → Except NotesError (Page α)} {collection : Collection}
    {scope : Str} (locate : CursorPosition → Except NotesError Nat)
    (position : Nat → CursorPosition)
    (hread : ∀ cursor limit, read cursor limit = do
      page size values (collectionLimit limit) (← locate (← decodeCursor cursor collection scope))
        fun next => encodeCursor collection scope (position next).offset (position next).location)
    (hnone : locate ⟨0, none⟩ = .ok 0)
    (hsome : ∀ n < values.length, locate (position n) = .ok n)
    (hsafe : ∀ n < values.length, (position n).offset < maxSafe) :
    Paginates read collection scope values := by
  intro limits hl
  obtain ⟨pages, hf, hi, hgood⟩ := page_follows hfit
    (fun cursor limit => read cursor (some limit))
    (fun cursor => do locate (← decodeCursor cursor collection scope))
    (fun n => encodeCursor collection scope (position n).offset (position n).location)
    (fun cursor limit => by rw [hread, bind_assoc]) hnone
    (fun n hn => by
      rw [decodeCursor_encodeCursor (hsafe n hn), if_pos ⟨rfl, rfl⟩]
      exact hsome n hn) hl
  refine ⟨pages, hf, hi, fun k p hk => ?_⟩
  have hp := hgood k p hk
  refine ⟨hp.limit, hp.progress, fun cursor hc => ?_⟩
  obtain ⟨n, hn, rfl⟩ := hp.cursor cursor hc
  exact boundTo_encodeCursor (hsafe n hn) collection scope _
end

-- -----
-- Collections whose entries have keys
-- -----

/-- Where a cursor resumes: `findIndex` of the entry it names. -/
def cursorOffset (keys : List Str) (cursor : CursorPosition) : Except NotesError Nat :=
  match cursor.location with
  | none => .ok cursor.offset
  | some location =>
    if keys.idxOf location < keys.length then .ok (keys.idxOf location)
    else .error invalidCollectionCursor

section
variable {α : Type} (size : α → Nat) (key : α → Str)

def pageByKey (collection : Collection) (scope : Str) (values : List α) (cursor : Option Str)
    (limit : Option Nat) : Except NotesError (Page α) := do
  let cursor ← decodeCursor cursor collection scope
  let offset ← cursorOffset (values.map key) cursor
  page size values (collectionLimit limit) offset fun next =>
    encodeCursor collection scope 0 (values[next]?.map key)

variable {size key}

theorem pageByKey_paginates {values : List α} (hn : (values.map key).Nodup)
    (hfit : ∀ value ∈ values, size value ≤ MAX_COLLECTION_RESULT_BYTES) (collection : Collection)
    (scope : Str) :
    Paginates (pageByKey size key collection scope values) collection scope values := by
  apply paginates_of_locate hfit (cursorOffset (values.map key)) fun n => ⟨0, values[n]?.map key⟩
  · intro cursor limit
    simp only [pageByKey]
  · rfl
  · intro n hlt
    have hlt' : n < (values.map key).length := by simpa using hlt
    have hidx : (values.map key).idxOf (key values[n]) = n := by
      have := hn.idxOf_getElem n hlt'
      simpa using this
    simp only [cursorOffset, List.getElem?_eq_getElem hlt, Option.map_some, hidx, if_pos hlt']
  · intro n _
    exact (by decide : 0 < maxSafe)
end

end PiEnv.Notes
