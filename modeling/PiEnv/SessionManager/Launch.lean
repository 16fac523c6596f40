import PiEnv.Lib.JsonLength
import PiEnv.Lib.JsonRoundTrip
import PiEnv.Lib.PosixPath
import PiEnv.Lib.Program
import PiEnv.SessionManager.RuntimeFrames

/-!
# Runtime artifacts

The claim a starting coordinator leaves, and the metadata of a running one, as
the files that hold them and as what is read from those.
-/

namespace PiEnv.SessionManager.Launch

open Effects Js Posix RuntimeBus

structure StartupClaim where
  workspaceId : Str
  coordinatorSessionId : Str
  launchId : Str
  pid : Nat
  createdAt : Nat
  deriving DecidableEq, Repr

structure RuntimeMetadata where
  workspaceId : Str
  coordinatorSessionId : Str
  runtimeId : Str
  pid : Nat
  socketPath : Str
  deriving DecidableEq, Repr

-- -----
-- Reading
-- -----

def parseJson (text : Str) : Except Str Json :=
  if 4096 < byteLength text then .error (lit "runtime artifact exceeds 4096 bytes")
  else match parse text with
    | some value => .ok value
    | none => .error (lit "invalid JSON")

/-- `Number.isSafeInteger(value)`, of one that is not negative. -/
def safeNat (value : Number) : Option Nat :=
  match value.integer? with
  | some n => if 0 ≤ n ∧ n.toNat < maxSafe then some n.toNat else none
  | none => none

def absolutePath (value : Str) : Bool := safeText value 4096 && isAbsolute value

def claimFields : List Str :=
  [lit "version", lit "workspaceId", lit "coordinatorSessionId", lit "launchId", lit "pid",
    lit "createdAt"]

def decodeClaim (value : Json) : Option (Str × Str × Str × Number × Number) := do
  let fields ← strictFields claimFields value
  let workspaceId ← stringField fields (lit "workspaceId")
  let coordinatorSessionId ← stringField fields (lit "coordinatorSessionId")
  let launchId ← stringField fields (lit "launchId")
  let pid ← numberField fields (lit "pid")
  let createdAt ← numberField fields (lit "createdAt")
  if isOne (field fields (lit "version")) then
    some (workspaceId, coordinatorSessionId, launchId, pid, createdAt)
  else none

def parseStartupClaim (text : Str) : Except Str StartupClaim := do
  match decodeClaim (← parseJson text) with
  | none => throw (lit "invalid strict startup claim")
  | some (workspaceId, coordinatorSessionId, launchId, pid, createdAt) =>
    match safeNat pid, safeNat createdAt with
    | some pid, some createdAt =>
      if isWorkspaceId workspaceId && safeText coordinatorSessionId 256 && uuid launchId &&
          0 < pid then
        return ⟨workspaceId, coordinatorSessionId, launchId, pid, createdAt⟩
      else throw (lit "invalid startup claim fields")
    | _, _ => throw (lit "invalid startup claim fields")

def metadataFields : List Str :=
  [lit "version", lit "workspaceId", lit "coordinatorSessionId", lit "runtimeId", lit "pid",
    lit "socketPath"]

def decodeMetadata (value : Json) : Option (Str × Str × Str × Number × Str) := do
  let fields ← strictFields metadataFields value
  let workspaceId ← stringField fields (lit "workspaceId")
  let coordinatorSessionId ← stringField fields (lit "coordinatorSessionId")
  let runtimeId ← stringField fields (lit "runtimeId")
  let pid ← numberField fields (lit "pid")
  let socketPath ← stringField fields (lit "socketPath")
  if isOne (field fields (lit "version")) then
    some (workspaceId, coordinatorSessionId, runtimeId, pid, socketPath)
  else none

def parseRuntimeMetadata (text : Str) : Except Str RuntimeMetadata := do
  match decodeMetadata (← parseJson text) with
  | none => throw (lit "invalid strict runtime metadata")
  | some (workspaceId, coordinatorSessionId, runtimeId, pid, socketPath) =>
    match safeNat pid with
    | some pid =>
      if isWorkspaceId workspaceId && safeText coordinatorSessionId 256 && uuid runtimeId &&
          0 < pid && absolutePath socketPath then
        return ⟨workspaceId, coordinatorSessionId, runtimeId, pid, socketPath⟩
      else throw (lit "invalid runtime metadata fields")
    | none => throw (lit "invalid runtime metadata fields")

-- -----
-- Claims
-- -----

inductive ClaimState where
  | replaceable
  | starting
  | unresponsive
  deriving DecidableEq, Repr

/-- A claim is current for 30 seconds. -/
def isCurrentStartupClaim (claim : StartupClaim) (workspaceId coordinatorSessionId : Str)
    (now : Nat) : Bool :=
  claim.workspaceId = workspaceId && claim.coordinatorSessionId = coordinatorSessionId &&
    claim.createdAt ≤ now && now - claim.createdAt ≤ 30000

def classifyStartupClaim {m : Type → Type} [Monad m] (claim : StartupClaim)
    (workspaceId coordinatorSessionId : Str) (now : Nat) (processAlive : Nat → m Bool) :
    m ClaimState := do
  if claim.workspaceId ≠ workspaceId ∨ claim.coordinatorSessionId ≠ coordinatorSessionId then
    return .replaceable
  if !(← processAlive claim.pid) then return .replaceable
  return if isCurrentStartupClaim claim workspaceId coordinatorSessionId now then .starting
    else .unresponsive

-- -----
-- Writing
-- -----

def StartupClaim.toJson (claim : StartupClaim) : Json :=
  .obj [(lit "version", .num (.ofInt 1)), (lit "workspaceId", .str claim.workspaceId),
    (lit "coordinatorSessionId", .str claim.coordinatorSessionId),
    (lit "launchId", .str claim.launchId), (lit "pid", .num (.ofInt claim.pid)),
    (lit "createdAt", .num (.ofInt claim.createdAt))]

def StartupClaim.text (claim : StartupClaim) : Str := stringify claim.toJson ++ [LF]

def RuntimeMetadata.toJson (metadata : RuntimeMetadata) : Json :=
  .obj [(lit "version", .num (.ofInt 1)), (lit "workspaceId", .str metadata.workspaceId),
    (lit "coordinatorSessionId", .str metadata.coordinatorSessionId),
    (lit "runtimeId", .str metadata.runtimeId), (lit "pid", .num (.ofInt metadata.pid)),
    (lit "socketPath", .str metadata.socketPath)]

def RuntimeMetadata.text (metadata : RuntimeMetadata) : Str := stringify metadata.toJson ++ [LF]

/-- What a start writes of itself. -/
structure StartupClaim.Valid (claim : StartupClaim) : Prop where
  workspace : isWorkspaceId claim.workspaceId = true
  coordinator : safeText claim.coordinatorSessionId 256 = true
  launch : uuid claim.launchId = true
  pid : 0 < claim.pid ∧ claim.pid < maxSafe
  createdAt : claim.createdAt < maxSafe

theorem safeNat_ofInt {n : Nat} (h : n < maxSafe) : safeNat (.ofInt n) = some n := by
  simp [safeNat, h]

theorem plain_nat {n : Nat} (h : n < maxSafe) : Plain (.num (.ofInt n)) :=
  .int (by simpa using Nat.le_of_lt h)

theorem StartupClaim.plain (claim : StartupClaim) (hpid : claim.pid < maxSafe)
    (hcreated : claim.createdAt < maxSafe) : Plain claim.toJson := by
  refine .obj ?_ (fromEntries_self (show claimFields.Nodup by decide +kernel)
    (show ∀ key ∈ claimFields, arrayIndex key = none by decide +kernel))
  have hone : Plain (.num (.ofInt 1)) := plain_nat (n := 1) (by decide)
  simp [hone, Plain.str, plain_nat hpid, plain_nat hcreated]

theorem RuntimeMetadata.plain (metadata : RuntimeMetadata) (hpid : metadata.pid < maxSafe) :
    Plain metadata.toJson := by
  refine .obj ?_ (fromEntries_self (show metadataFields.Nodup by decide +kernel)
    (show ∀ key ∈ metadataFields, arrayIndex key = none by decide +kernel))
  have hone : Plain (.num (.ofInt 1)) := plain_nat (n := 1) (by decide)
  simp [hone, Plain.str, plain_nat hpid]

theorem parseJson_text {value : Json} (h : Plain value) {found : Json}
    (hparse : parseJson (stringify value ++ [LF]) = .ok found) : found = value := by
  unfold parseJson at hparse
  rw [parse_stringify h rfl] at hparse
  split at hparse
  · cases hparse
  · exact (Except.ok.inj hparse).symm

theorem decodeClaim_toJson (claim : StartupClaim) : decodeClaim claim.toJson =
    some (claim.workspaceId, claim.coordinatorSessionId, claim.launchId, .ofInt claim.pid,
      .ofInt claim.createdAt) := by
  rfl

theorem parseStartupClaim_text {claim found : StartupClaim} (hpid : claim.pid < maxSafe)
    (hcreated : claim.createdAt < maxSafe) (h : parseStartupClaim claim.text = .ok found) :
    found = claim := by
  obtain ⟨value, hvalue, hrest⟩ := bind_eq_ok.mp h
  obtain rfl := parseJson_text (claim.plain hpid hcreated) hvalue
  rw [decodeClaim_toJson] at hrest
  simp only [safeNat_ofInt hpid, safeNat_ofInt hcreated] at hrest
  split at hrest
  · exact (Except.ok.inj hrest).symm
  · cases hrest

theorem decodeMetadata_toJson (metadata : RuntimeMetadata) : decodeMetadata metadata.toJson =
    some (metadata.workspaceId, metadata.coordinatorSessionId, metadata.runtimeId,
      .ofInt metadata.pid, metadata.socketPath) := by
  rfl

theorem parseRuntimeMetadata_text {metadata found : RuntimeMetadata}
    (hpid : metadata.pid < maxSafe) (h : parseRuntimeMetadata metadata.text = .ok found) :
    found = metadata := by
  obtain ⟨value, hvalue, hrest⟩ := bind_eq_ok.mp h
  obtain rfl := parseJson_text (metadata.plain hpid) hvalue
  rw [decodeMetadata_toJson] at hrest
  simp only [safeNat_ofInt hpid] at hrest
  split at hrest
  · exact (Except.ok.inj hrest).symm
  · cases hrest

theorem length_uuid {value : Str} (h : uuid value = true) : value.length = 36 := by
  simp only [uuid, Bool.and_eq_true, decide_eq_true_eq] at h
  exact h.1

theorem length_safeText {value : Str} {maximum : Nat} (h : safeText value maximum = true) :
    value.length ≤ maximum := by
  simp only [safeText, Bool.and_eq_true, decide_eq_true_eq] at h
  exact Nat.le_trans (length_le_byteLength value) h.1.2

theorem StartupClaim.Valid.fits {claim : StartupClaim} (h : claim.Valid) :
    byteLength claim.text ≤ 4096 := by
  have hworkspace : claim.workspaceId.length = 64 := by
    have := h.workspace
    simp only [isWorkspaceId, Bool.and_eq_true, decide_eq_true_eq] at this
    exact this.1
  have hcoordinator := length_safeText h.coordinator
  have hlaunch := length_uuid h.launch
  have hobject := byteLength_object [(lit "version", .num (.ofInt 1)),
    (lit "workspaceId", .str claim.workspaceId),
    (lit "coordinatorSessionId", .str claim.coordinatorSessionId),
    (lit "launchId", .str claim.launchId), (lit "pid", .num (.ofInt claim.pid)),
    (lit "createdAt", .num (.ofInt claim.createdAt))]
  have h₁ := fieldBytes_num (lit "version") (.ofInt 1)
  have h₂ := fieldBytes_str (lit "workspaceId") claim.workspaceId
  have h₃ := fieldBytes_str (lit "coordinatorSessionId") claim.coordinatorSessionId
  have h₄ := fieldBytes_str (lit "launchId") claim.launchId
  have h₅ := fieldBytes_num (lit "pid") (.ofInt claim.pid)
  have h₆ := fieldBytes_num (lit "createdAt") (.ofInt claim.createdAt)
  have happ := byteLength_append (stringify claim.toJson) [LF]
  have hnames : (lit "version").length = 7 ∧ (lit "workspaceId").length = 11 ∧
      (lit "coordinatorSessionId").length = 20 ∧ (lit "launchId").length = 8 ∧
      (lit "pid").length = 3 ∧ (lit "createdAt").length = 9 := by decide
  have hline : byteLength [LF] = 1 := rfl
  simp only [List.map_cons, List.map_nil, List.sum_cons, List.sum_nil] at hobject
  simp only [StartupClaim.text, StartupClaim.toJson] at happ ⊢
  omega

/-- A start reads back what it wrote. -/
theorem parseStartupClaim_valid {claim : StartupClaim} (h : claim.Valid) :
    parseStartupClaim claim.text = .ok claim := by
  have hjson : parseJson claim.text = .ok claim.toJson := by
    rw [parseJson, if_neg (Nat.not_lt.mpr h.fits), StartupClaim.text,
      parse_stringify (claim.plain h.pid.2 h.createdAt) rfl]
  refine bind_eq_ok.mpr ⟨_, hjson, ?_⟩
  rw [decodeClaim_toJson]
  simp only [safeNat_ofInt h.pid.2, safeNat_ofInt h.createdAt, h.workspace, h.coordinator, h.launch,
    decide_eq_true h.pid.1, Bool.and_self, if_true]
  rfl

theorem safeNat_lt {value : Number} {n : Nat} (h : safeNat value = some n) : n < maxSafe := by
  unfold safeNat at h
  split at h
  · split at h
    · rename_i hsafe
      obtain rfl := Option.some.inj h
      exact hsafe.2
    · cases h
  · cases h

/-- What is accepted is well formed, whoever wrote it. -/
theorem StartupClaim.valid_of_parse {text : Str} {claim : StartupClaim}
    (h : parseStartupClaim text = .ok claim) : claim.Valid := by
  obtain ⟨value, -, hrest⟩ := bind_eq_ok.mp h
  split at hrest
  · cases hrest
  split at hrest
  · rename_i hpid hcreated
    split at hrest
    · rename_i hchecks
      obtain rfl := Except.ok.inj hrest
      simp only [Bool.and_eq_true, decide_eq_true_eq] at hchecks
      obtain ⟨⟨⟨hworkspace, hcoordinator⟩, hlaunch⟩, hpositive⟩ := hchecks
      exact ⟨hworkspace, hcoordinator, hlaunch, ⟨hpositive, safeNat_lt hpid⟩, safeNat_lt hcreated⟩
    · cases hrest
  · cases hrest

/-- The claims that can be read are the valid ones, each from its own text. -/
theorem startupClaim_reads {claim : StartupClaim} :
    ((∃ text, parseStartupClaim text = .ok claim) ↔ claim.Valid) ∧
      (claim.Valid ↔ parseStartupClaim claim.text = .ok claim) := by
  refine ⟨⟨?_, ?_⟩, parseStartupClaim_valid, StartupClaim.valid_of_parse⟩
  · rintro ⟨text, h⟩
    exact StartupClaim.valid_of_parse h
  · intro h
    exact ⟨claim.text, parseStartupClaim_valid h⟩

structure RuntimeMetadata.Valid (metadata : RuntimeMetadata) : Prop where
  workspace : isWorkspaceId metadata.workspaceId = true
  coordinator : safeText metadata.coordinatorSessionId 256 = true
  runtime : uuid metadata.runtimeId = true
  pid : 0 < metadata.pid ∧ metadata.pid < maxSafe
  socket : absolutePath metadata.socketPath = true

theorem RuntimeMetadata.valid_of_parse {text : Str} {metadata : RuntimeMetadata}
    (h : parseRuntimeMetadata text = .ok metadata) : metadata.Valid := by
  obtain ⟨value, -, hrest⟩ := bind_eq_ok.mp h
  split at hrest
  · cases hrest
  split at hrest
  · rename_i hpid
    split at hrest
    · rename_i hchecks
      obtain rfl := Except.ok.inj hrest
      simp only [Bool.and_eq_true, decide_eq_true_eq] at hchecks
      obtain ⟨⟨⟨⟨hworkspace, hcoordinator⟩, hruntime⟩, hpositive⟩, hsocket⟩ := hchecks
      exact ⟨hworkspace, hcoordinator, hruntime, ⟨hpositive, safeNat_lt hpid⟩, hsocket⟩
    · cases hrest
  · cases hrest

theorem parseRuntimeMetadata_valid {metadata : RuntimeMetadata} (h : metadata.Valid)
    (hfits : byteLength metadata.text ≤ 4096) :
    parseRuntimeMetadata metadata.text = .ok metadata := by
  have hjson : parseJson metadata.text = .ok metadata.toJson := by
    rw [parseJson, if_neg (Nat.not_lt.mpr hfits), RuntimeMetadata.text,
      parse_stringify (metadata.plain h.pid.2) rfl]
  refine bind_eq_ok.mpr ⟨_, hjson, ?_⟩
  rw [decodeMetadata_toJson]
  simp only [safeNat_ofInt h.pid.2, h.workspace, h.coordinator, h.runtime, h.socket,
    decide_eq_true h.pid.1, Bool.and_self, if_true]
  rfl

end PiEnv.SessionManager.Launch
