import PiEnv.DevTools.WorkspaceEdit
import PiEnv.Lib.PosixPath

/-!
# Requests for definitions and symbols

What the daemon makes of the answers of a language server: the bodies of
definitions, read from the file cache, and the symbols of a document. Both are
cut at a limit, and both say what was cut.
-/

namespace PiEnv.DevTools.Handlers

open Js

-- -----
-- Utilities
-- -----

/-- What is not under the root keeps its path. -/
def insideProject (cwd projectRoot filePath : Str) : Bool :=
  !(lit "..").isPrefixOf (Posix.relative cwd projectRoot filePath)

def relativePath (cwd projectRoot filePath : Str) : Str :=
  if insideProject cwd projectRoot filePath then Posix.relative cwd projectRoot filePath
  else filePath

/-- `uri.replace(/^file:\/\//, "")` where the URI has no path. -/
def uriToPath (host : Host) (uri : Str) : Str :=
  match host.fileURLToPath uri with
  | .ok path => path
  | .error _ => if (lit "file://").isPrefixOf uri then uri.drop 7 else uri

def symbolKindLabel : Nat → Str
  | 1 => lit "file"
  | 2 => lit "module"
  | 3 => lit "namespace"
  | 4 => lit "package"
  | 5 => lit "class"
  | 6 => lit "method"
  | 7 => lit "property"
  | 8 => lit "field"
  | 9 => lit "constructor"
  | 10 => lit "enum"
  | 11 => lit "interface"
  | 12 => lit "function"
  | 13 => lit "variable"
  | 14 => lit "constant"
  | 15 => lit "string"
  | 16 => lit "number"
  | 17 => lit "boolean"
  | 18 => lit "array"
  | 19 => lit "object"
  | 20 => lit "key"
  | 21 => lit "null"
  | 22 => lit "enum member"
  | 23 => lit "struct"
  | 24 => lit "event"
  | 25 => lit "operator"
  | 26 => lit "type parameter"
  | _ => lit "symbol"

-- -----
-- The file cache
-- -----

/-- The content of a file that can be read. -/
abbrev FileCache := Str → Option Str

/-- `!entry?.content` is true of an empty file as well. -/
def cachedLines (content : Option Str) : Option (List Str) :=
  match content with
  | none => none
  | some content => if content = [] then none else some (split [LF] content)

def extractLines (content : Option Str) (startLine endLine : Nat) : Option Str :=
  (cachedLines content).map fun lines => join [LF] ((lines.take (endLine + 1)).drop startLine)

def openBrace : UInt16 := 123
def closeBrace : UInt16 := 125

def countBraces (depth : Int) (foundOpen : Bool) : Str → Int × Bool
  | [] => (depth, foundOpen)
  | character :: rest =>
    if character == openBrace then countBraces (depth + 1) true rest
    else if character == closeBrace then countBraces (depth - 1) foundOpen rest
    else countBraces depth foundOpen rest

/-- The first line, from number `i` on, that ends with every brace closed. -/
def closingLine (i : Nat) (depth : Int) (foundOpen : Bool) : List Str → Option Nat
  | [] => none
  | line :: rest =>
    let (depth, foundOpen) := countBraces depth foundOpen line
    if foundOpen && depth == 0 then some i else closingLine (i + 1) depth foundOpen rest

def expandToBlock (content : Option Str) (startLine givenEndLine maxLines : Nat) : Nat :=
  match cachedLines content with
  | none => givenEndLine
  | some lines =>
    if startLine < givenEndLine then min givenEndLine (startLine + maxLines - 1)
    else match closingLine startLine 0 false ((lines.drop startLine).take maxLines) with
      | some line => line
      | none => min (startLine + maxLines - 1) (lines.length - 1)

-- -----
-- Requests
-- -----

structure Location where
  uri : Str
  range : LspRange
deriving DecidableEq, Repr

/-- `DocumentSymbol`, and `SymbolInformation`, which has neither range. -/
inductive DocumentSymbol where
  | mk (name : Str) (kind : Nat) (detail : Option Str) (selectionRange range : Option LspRange)
      (children : List DocumentSymbol)

structure WorkspaceSymbol where
  name : Str
  kind : Nat
  location : Location
deriving DecidableEq, Repr

inductive LocationAction where
  | definition | implementation
deriving DecidableEq, Repr

/-- What a call throws is its message. An answer without a result is `none`. -/
structure HandlerBackend where
  handles : Str → Bool
  supportsWorkspaceSymbols : Bool
  projectRoots : List Str
  ensureFile : Str → Except Str Str
  ensureReady : Except Str Unit
  getProjectRoot : Str → Str
  locations : LocationAction → Str → LspPosition → Except Str (Option (List Location))
  documentSymbol : Str → Except Str (Option (List DocumentSymbol))
  workspaceSymbol : Str → Except Str (Option (List WorkspaceSymbol))

structure HandlerDeps where
  host : Host
  backends : List HandlerBackend
  fileCache : FileCache

def getBackend (deps : HandlerDeps) (path : Str) : Except Str HandlerBackend :=
  match deps.backends.find? (·.handles path) with
  | some backend => .ok backend
  | none => .error (lit "No language server configured for: " ++ path)

def getWorkspaceSymbolBackends (deps : HandlerDeps) : List HandlerBackend :=
  deps.backends.filter (·.supportsWorkspaceSymbols)

structure DaemonRequest where
  id : Number
  path : Option Str
  line : Option Number
  character : Option Number
  query : Option Str

structure DefinitionLocation where
  relativePath : Str
  absolutePath : Str
  line : Nat
  body : Str
  truncatedLines : Option Nat
deriving DecidableEq, Repr

structure SymbolItem where
  line : Nat
  name : Str
  kind : Str
  relativePath : Option Str
  absolutePath : Option Str
  detail : Option Str
deriving DecidableEq, Repr

structure SymbolsResult where
  path : Option Str
  query : Option Str
  total : Nat
  items : List SymbolItem
  truncated : Bool
deriving DecidableEq, Repr

inductive Result where
  | locations (action : LocationAction) (path : Str) (line character : Nat)
      (locations : List DefinitionLocation)
  | symbols (result : SymbolsResult)
deriving DecidableEq, Repr

inductive Response where
  | ok (id : Number) (result : Result)
  | error (id : Number) (message : Str)

structure RequestContext where
  backend : HandlerBackend
  uri : Str
  path : Str
  line : Nat
  character : Nat
  projectRoot : Str

def LocationAction.text : LocationAction → Str
  | .definition => lit "definition"
  | .implementation => lit "implementation"

/-- `Number.isInteger(value) && value >= 1` -/
def positiveInteger (value : Number) : Option Nat :=
  match value.integer? with
  | some (.ofNat (n + 1)) => some (n + 1)
  | _ => none

/-- `if (text)`: a text that is there and is not empty. -/
def present (text : Option Str) : Option Str := text.filter (· ≠ [])

def prepareRequest (req : DaemonRequest) (deps : HandlerDeps) (action : Str) :
    Except Str RequestContext :=
  match present req.path, req.line, req.character with
  | some path, some line, some character => do
    if Posix.isAbsolute path = false then throw (lit "absolute path required for " ++ action)
    match positiveInteger line, positiveInteger character with
    | some line, some character =>
      let backend ← getBackend deps path
      let uri ← backend.ensureFile path
      return ⟨backend, uri, path, line, character, backend.getProjectRoot path⟩
    | _, _ =>
      throw (lit "positive integer line and character values required for " ++ action)
  | _, _, _ => throw (lit "path, line, and character required for " ++ action)

def toZeroBased (line character : Nat) : LspPosition := ⟨line - 1, character - 1⟩

-- -----
-- Definitions and implementations
-- -----

def emptyMsg : LocationAction → Str
  | .definition => lit "No definition found"
  | .implementation => lit "No implementations found"

def MAX_BODY_LINES : Nat := 30
def MAX_LOCATIONS : Nat := 5

def definitionLocation (deps : HandlerDeps) (projectRoot : Str) (loc : Location) :
    DefinitionLocation :=
  let defPath := uriToPath deps.host loc.uri
  let startLine := loc.range.start.line
  let endLine := loc.range.stop.line
  let content := deps.fileCache defPath
  let expandedEnd := expandToBlock content startLine endLine MAX_BODY_LINES
  let body := (extractLines content startLine expandedEnd).getD []
  let bodyLines := split [LF] body
  let truncated := if MAX_BODY_LINES < bodyLines.length then bodyLines.length - MAX_BODY_LINES else 0
  { relativePath := relativePath deps.host.cwd projectRoot defPath
    absolutePath := defPath
    line := startLine + 1
    body := join [LF] (bodyLines.take MAX_BODY_LINES)
    truncatedLines := if 0 < truncated then some truncated else none }

def handleLocationAction (req : DaemonRequest) (deps : HandlerDeps) (action : LocationAction) :
    Except Str Response :=
  match prepareRequest req deps action.text with
  | .error message => .ok (.error req.id message)
  | .ok ctx => do
    match ← ctx.backend.locations action ctx.uri (toZeroBased ctx.line ctx.character) with
    | none => return .error req.id (emptyMsg action)
    | some rawLocations =>
      let locations := (rawLocations.take MAX_LOCATIONS).map
        (definitionLocation deps ctx.projectRoot)
      if locations.length = 0 then return .error req.id (emptyMsg action)
      else return .ok req.id (.locations action ctx.path ctx.line ctx.character locations)

-- -----
-- Symbols
-- -----

def documentSymbolItem (name : Str) (kind : Nat) (detail : Option Str)
    (selectionRange range : Option LspRange) : SymbolItem :=
  { line := (((selectionRange <|> range).map (·.start.line)).getD 0) + 1
    name := name
    kind := symbolKindLabel kind
    relativePath := none
    absolutePath := none
    detail := present detail }

mutual
def flattenSymbol : DocumentSymbol → List SymbolItem
  | .mk name kind detail selectionRange range children =>
    documentSymbolItem name kind detail selectionRange range :: flattenSymbols children
def flattenSymbols : List DocumentSymbol → List SymbolItem
  | [] => []
  | s :: rest => flattenSymbol s ++ flattenSymbols rest
end

def MAX_SYMBOLS : Nat := 50

def workspaceSymbolItem (deps : HandlerDeps) (first : HandlerBackend) (s : WorkspaceSymbol) :
    SymbolItem :=
  let symPath := uriToPath deps.host s.location.uri
  let owningBackend := (deps.backends.find? (·.handles symPath)).getD first
  { line := s.location.range.start.line + 1
    name := s.name
    kind := symbolKindLabel s.kind
    relativePath :=
      some (relativePath deps.host.cwd (owningBackend.getProjectRoot symPath) symPath)
    absolutePath := some symPath
    detail := none }

def queryWorkspaceSymbols (query : Str) (backend : HandlerBackend) :
    Except Str (List WorkspaceSymbol) := do
  backend.ensureReady
  let raw ← backend.workspaceSymbol query
  return raw.getD []

def handleDocumentSymbols (req : DaemonRequest) (deps : HandlerDeps) (path : Str) :
    Except Str Response := do
  let backend ← getBackend deps path
  let uri ← backend.ensureFile path
  let answer ← backend.documentSymbol uri
  let raw := answer.getD []
  let items := (flattenSymbols raw).take MAX_SYMBOLS
  return .ok req.id (.symbols
    { path := some path
      query := none
      total := items.length
      items := items
      truncated := MAX_SYMBOLS < raw.length })

def handleWorkspaceSymbols (req : DaemonRequest) (deps : HandlerDeps) (query : Str) :
    Except Str Response :=
  if (getWorkspaceSymbolBackends deps).isEmpty then
    .ok (.error req.id (lit "No backends support workspace/symbol"))
  else match (getWorkspaceSymbolBackends deps).filter (!·.projectRoots.isEmpty) with
    | [] => .ok (.error req.id (lit "Workspace symbols require an opened project file. " ++
        lit "Request document symbols first."))
    | first :: others => do
      let raw ← (first :: others).mapM (queryWorkspaceSymbols query)
      let allRaw := raw.flatten
      return .ok req.id (.symbols
        { path := none
          query := some query
          total := allRaw.length
          items := (allRaw.take MAX_SYMBOLS).map (workspaceSymbolItem deps first)
          truncated := MAX_SYMBOLS < allRaw.length })

def handleSymbols (req : DaemonRequest) (deps : HandlerDeps) : Except Str Response :=
  match present req.path, present req.query with
  | some path, _ => handleDocumentSymbols req deps path
  | none, some query => handleWorkspaceSymbols req deps query
  | none, none => .ok (.error req.id (lit "symbols requires either path or query"))

-- -----
-- What a definition says of its block
-- -----

theorem closingLine_bounds {i line : Nat} {depth : Int} {foundOpen : Bool} {lines : List Str}
    (h : closingLine i depth foundOpen lines = some line) : i ≤ line ∧ line < i + lines.length := by
  induction lines generalizing i depth foundOpen with
  | nil => simp [closingLine] at h
  | cons first rest ih =>
    simp only [closingLine] at h
    split at h
    · obtain rfl := Option.some.inj h
      simp
    · have hrest := ih h
      simp only [List.length_cons]
      omega

/-- Fewer lines to look at: the line is found if it is among them. -/
theorem closingLine_take (i limit : Nat) (depth : Int) (foundOpen : Bool) (lines : List Str) :
    closingLine i depth foundOpen (lines.take limit) =
      (closingLine i depth foundOpen lines).filter (· < i + limit) := by
  induction lines generalizing i depth foundOpen limit with
  | nil => simp [closingLine]
  | cons first rest ih =>
    cases limit with
    | zero =>
      cases hfound : closingLine i depth foundOpen (first :: rest) with
      | none => rfl
      | some line =>
        have hline := (closingLine_bounds hfound).1
        simp [closingLine, Option.filter_some]
        omega
    | succ limit =>
      simp only [List.take_succ_cons, closingLine]
      split
      · simp [Option.filter_some]
      · rw [ih]
        congr 1
        funext line
        simp only [decide_eq_decide]
        omega

/-- A number of lines that no block reaches. -/
def noLimit (lines : List Str) (givenEndLine : Nat) : Nat := lines.length + givenEndLine + 1

/-- The lines of the block that starts at a location, however many they are. -/
def blockLines (content : Option Str) (range : LspRange) : List Str :=
  split [LF] ((extractLines content range.start.line
    (expandToBlock content range.start.line range.stop.line
      (noLimit ((cachedLines content).getD []) range.stop.line))).getD [])

section
variable {content : Option Str} {lines : List Str} {startLine givenEndLine maxLines : Nat}

/-- The limit cuts the block and changes nothing else. -/
theorem expandToBlock_cut (hlines : cachedLines content = some lines) (hpos : 0 < lines.length)
    (hmax : 0 < maxLines) :
    (lines.take (expandToBlock content startLine givenEndLine maxLines + 1)).drop startLine =
      ((lines.take (expandToBlock content startLine givenEndLine (noLimit lines givenEndLine) + 1)).drop
        startLine).take maxLines := by
  have hwhole : (lines.drop startLine).take (noLimit lines givenEndLine) = lines.drop startLine :=
    List.take_of_length_le (by simp only [noLimit, List.length_drop]; omega)
  simp only [expandToBlock, hlines, List.drop_take, List.take_take]
  by_cases hgiven : startLine < givenEndLine
  · simp only [if_pos hgiven, noLimit]
    congr 1
    omega
  · simp only [if_neg hgiven, hwhole, closingLine_take]
    cases hfound : closingLine startLine 0 false (lines.drop startLine) with
    | none =>
      simp only [Option.filter_none, noLimit]
      congr 1
      omega
    | some line =>
      have hline := closingLine_bounds hfound
      simp only [List.length_drop] at hline
      by_cases hnear : line < startLine + maxLines
      · simp only [Option.filter_some, hnear, decide_true, if_true]
        congr 1
        omega
      · simp only [Option.filter_some, hnear, decide_false, Bool.false_eq_true, if_false]
        congr 1
        omega

theorem split_join_take {parts : List Str} (hparts : ∀ part ∈ parts, LF ∉ part)
    (hmax : 0 < maxLines) :
    split [LF] (join [LF] (parts.take maxLines)) = (split [LF] (join [LF] parts)).take maxLines := by
  cases parts with
  | nil =>
    obtain ⟨limit, rfl⟩ := Nat.exists_eq_succ_of_ne_zero hmax.ne'
    simp [split, splitAux, join]
  | cons part rest =>
    have hne : (part :: rest).take maxLines ≠ [] := by
      simp [hmax.ne']
    rw [split_join (fun p hp => hparts p (List.mem_of_mem_take hp)) hne,
      split_join hparts (by simp)]

end

/-- The lines that are read for a body are the first of the block. -/
theorem split_body (content : Option Str) (range : LspRange) :
    split [LF] ((extractLines content range.start.line
      (expandToBlock content range.start.line range.stop.line MAX_BODY_LINES)).getD []) =
        (blockLines content range).take MAX_BODY_LINES := by
  cases hlines : cachedLines content with
  | none => simp [blockLines, extractLines, hlines, split, splitAux, MAX_BODY_LINES]
  | some lines =>
    have hsplit : ∃ text, lines = split [LF] text := by
      simp only [cachedLines] at hlines
      split at hlines
      · cases hlines
      · split at hlines
        · cases hlines
        · exact ⟨_, (Option.some.inj hlines).symm⟩
    obtain ⟨text, rfl⟩ := hsplit
    have hpos : 0 < (split [LF] text).length := List.length_pos_iff.mpr (split_ne_nil _ _)
    simp only [blockLines, extractLines, hlines, Option.map_some, Option.getD_some]
    rw [expandToBlock_cut hlines hpos (by decide), split_join_take _ (by decide)]
    intro part hpart
    exact not_mem_split (List.mem_of_mem_take (List.mem_of_mem_drop hpart))

/-- A body that shows the block up to the limit, and says exactly how much more
the block has. -/
structure BodyExact (content : Option Str) (range : LspRange) (shown : DefinitionLocation) :
    Prop where
  body : shown.body = join [LF] ((blockLines content range).take MAX_BODY_LINES)
  truncatedLines : shown.truncatedLines =
    if MAX_BODY_LINES < (blockLines content range).length then
      some ((blockLines content range).length - MAX_BODY_LINES)
    else none

theorem definitionLocation_exact (deps : HandlerDeps) (projectRoot : Str) (loc : Location) :
    BodyExact (deps.fileCache (uriToPath deps.host loc.uri)) loc.range
        (definitionLocation deps projectRoot loc) ↔
      (blockLines (deps.fileCache (uriToPath deps.host loc.uri)) loc.range).length ≤
        MAX_BODY_LINES := by
  have hbody := split_body (deps.fileCache (uriToPath deps.host loc.uri)) loc.range
  have hnone : (definitionLocation deps projectRoot loc).truncatedLines = none := by
    simp [definitionLocation, hbody]
  constructor
  · intro hexact
    have htruncated := hnone.symm.trans hexact.truncatedLines
    by_contra hlong
    rw [if_pos (Nat.lt_of_not_le hlong)] at htruncated
    cases htruncated
  · intro hshort
    constructor
    · simp [definitionLocation, hbody, List.take_take]
    · rw [hnone, if_neg (Nat.not_lt.mpr hshort)]

theorem handleLocationAction_ok {req : DaemonRequest} {deps : HandlerDeps} {action : LocationAction}
    {ctx : RequestContext} {raw : List Location}
    (hctx : prepareRequest req deps action.text = .ok ctx)
    (hanswer : ctx.backend.locations action ctx.uri (toZeroBased ctx.line ctx.character) =
      .ok (some raw)) (hraw : raw ≠ []) :
    handleLocationAction req deps action = .ok (.ok req.id (.locations action ctx.path ctx.line
      ctx.character ((raw.take MAX_LOCATIONS).map (definitionLocation deps ctx.projectRoot)))) := by
  have hlength : ((raw.take MAX_LOCATIONS).map
      (definitionLocation deps ctx.projectRoot)).length ≠ 0 := by
    simpa [MAX_LOCATIONS] using hraw
  simp only [handleLocationAction, hctx]
  rw [hanswer]
  exact if_neg hlength

/-- A body is reported exactly where its block is within the limit. -/
theorem handleLocationAction_exact {req : DaemonRequest} {deps : HandlerDeps}
    {action : LocationAction} {ctx : RequestContext} {raw : List Location}
    (hctx : prepareRequest req deps action.text = .ok ctx)
    (hanswer : ctx.backend.locations action ctx.uri (toZeroBased ctx.line ctx.character) =
      .ok (some raw)) (hraw : raw ≠ []) :
    ∃ locations, handleLocationAction req deps action =
        .ok (.ok req.id (.locations action ctx.path ctx.line ctx.character locations)) ∧
      List.Forall₂ (fun loc shown =>
        BodyExact (deps.fileCache (uriToPath deps.host loc.uri)) loc.range shown ↔
          (blockLines (deps.fileCache (uriToPath deps.host loc.uri)) loc.range).length ≤
            MAX_BODY_LINES) (raw.take MAX_LOCATIONS) locations := by
  refine ⟨_, handleLocationAction_ok hctx hanswer hraw, ?_⟩
  rw [List.forall₂_map_right_iff, List.forall₂_same]
  intro loc _
  exact definitionLocation_exact deps ctx.projectRoot loc

def plainHost : Host := ⟨lit "/w", 1, fun uri => .ok (uri.drop 7)⟩

/-- A server that finds every definition on the first line of the file asked about. -/
def functionServer : HandlerBackend where
  handles _ := true
  supportsWorkspaceSymbols := false
  projectRoots := [lit "/w"]
  ensureFile path := .ok (lit "file://" ++ path)
  ensureReady := .ok ()
  getProjectRoot _ := lit "/w"
  locations _ uri _ := .ok (some [⟨uri, ⟨⟨0, 0⟩, ⟨0, 0⟩⟩⟩])
  documentSymbol _ := .ok none
  workspaceSymbol _ := .ok none

/-- The file of one function, with so many lines between its braces. -/
def functionText (statements : Nat) : Str :=
  join [LF] (lit "f() \x7b" :: List.replicate statements (lit "g();") ++ [lit "\x7d"])

def functionDeps (statements : Nat) : HandlerDeps :=
  ⟨plainHost, [functionServer], fun _ => some (functionText statements)⟩

def definitionRequest : DaemonRequest :=
  ⟨.ofInt 1, some (lit "/w/f.ts"), some (.ofInt 1), some (.ofInt 1), none⟩

def functionContext : RequestContext :=
  ⟨functionServer, lit "file:///w/f.ts", lit "/w/f.ts", 1, 1, lit "/w"⟩

def functionLocation : Location := ⟨lit "file:///w/f.ts", ⟨⟨0, 0⟩, ⟨0, 0⟩⟩⟩

theorem functionContext_prepared (statements : Nat) :
    prepareRequest definitionRequest (functionDeps statements) (LocationAction.text .definition) =
      .ok functionContext := rfl

theorem functionContext_answered : functionContext.backend.locations .definition functionContext.uri
    (toZeroBased functionContext.line functionContext.character) =
      .ok (some [functionLocation]) := rfl

theorem handleLocationAction_exact_function : ∃ locations,
    handleLocationAction definitionRequest (functionDeps 2) .definition =
        .ok (.ok (.ofInt 1) (.locations .definition (lit "/w/f.ts") 1 1 locations)) ∧
      List.Forall₂ (fun loc shown =>
        BodyExact (some (functionText 2)) loc.range shown ↔
          (blockLines (some (functionText 2)) loc.range).length ≤ MAX_BODY_LINES)
        [functionLocation] locations :=
  handleLocationAction_exact (functionContext_prepared 2) functionContext_answered (by simp)

theorem long_function_unreported :
    ¬ ∀ (req : DaemonRequest) (deps : HandlerDeps) (action : LocationAction) (ctx : RequestContext)
      (raw : List Location) (locations : List DefinitionLocation),
      prepareRequest req deps action.text = .ok ctx →
        ctx.backend.locations action ctx.uri (toZeroBased ctx.line ctx.character) = .ok (some raw) →
          handleLocationAction req deps action =
              .ok (.ok req.id (.locations action ctx.path ctx.line ctx.character locations)) →
            List.Forall₂ (fun loc shown =>
              BodyExact (deps.fileCache (uriToPath deps.host loc.uri)) loc.range shown)
              (raw.take MAX_LOCATIONS) locations := by
  intro hclaim
  have hexact := hclaim definitionRequest (functionDeps 40) .definition functionContext
    [functionLocation] _ (functionContext_prepared 40) functionContext_answered
    (handleLocationAction_ok (functionContext_prepared 40) functionContext_answered (by simp))
  have hbody := (List.forall₂_cons.mp hexact).1
  have hshort := (definitionLocation_exact (functionDeps 40) (lit "/w") functionLocation).mp hbody
  exact absurd hshort (by decide +kernel)

-- -----
-- What a result of symbols says of the tree
-- -----

theorem flattenSymbol_length (s : DocumentSymbol) : 1 ≤ (flattenSymbol s).length := by
  cases s with
  | mk name kind detail selectionRange range children => simp [flattenSymbol]

/-- Every symbol of the top level is one of the tree. -/
theorem length_le_flattenSymbols (raw : List DocumentSymbol) :
    raw.length ≤ (flattenSymbols raw).length := by
  induction raw with
  | nil => simp
  | cons s rest ih =>
    have hs := flattenSymbol_length s
    simp only [flattenSymbols, List.length_cons, List.length_append]
    omega

/-- A result that says exactly whether a symbol of the tree is missing, and how
many the tree has. -/
structure SymbolsExact (raw : List DocumentSymbol) (result : SymbolsResult) : Prop where
  items : result.items <+: flattenSymbols raw
  truncated : result.truncated = true ↔ result.items.length < (flattenSymbols raw).length
  total : result.total = (flattenSymbols raw).length

def documentSymbolsResult (path : Str) (raw : List DocumentSymbol) : SymbolsResult :=
  { path := some path
    query := none
    total := ((flattenSymbols raw).take MAX_SYMBOLS).length
    items := (flattenSymbols raw).take MAX_SYMBOLS
    truncated := MAX_SYMBOLS < raw.length }

theorem handleDocumentSymbols_ok {req : DaemonRequest} {deps : HandlerDeps} {path uri : Str}
    {backend : HandlerBackend} {answer : Option (List DocumentSymbol)}
    (hbackend : getBackend deps path = .ok backend) (hfile : backend.ensureFile path = .ok uri)
    (hanswer : backend.documentSymbol uri = .ok answer) :
    handleDocumentSymbols req deps path =
      .ok (.ok req.id (.symbols (documentSymbolsResult path (answer.getD [])))) := by
  rw [handleDocumentSymbols, hbackend]
  show (backend.ensureFile path >>= _) = _
  rw [hfile]
  show (backend.documentSymbol uri >>= _) = _
  rw [hanswer]
  rfl

theorem documentSymbolsResult_exact (path : Str) (raw : List DocumentSymbol) :
    SymbolsExact raw (documentSymbolsResult path raw) ↔
      (flattenSymbols raw).length ≤ MAX_SYMBOLS := by
  constructor
  · intro hexact
    have htotal := hexact.total
    simp only [documentSymbolsResult, List.length_take] at htotal
    omega
  · intro hshort
    have htop := length_le_flattenSymbols raw
    have hall : (flattenSymbols raw).take MAX_SYMBOLS = flattenSymbols raw :=
      List.take_of_length_le hshort
    constructor
    · exact List.take_prefix ..
    · simp only [documentSymbolsResult, hall, decide_eq_true_eq, lt_self_iff_false, iff_false]
      omega
    · exact congrArg List.length hall

/-- The symbols of a document are reported exactly where the whole tree is shown. -/
theorem handleSymbols_exact {req : DaemonRequest} {deps : HandlerDeps} {path uri : Str}
    {backend : HandlerBackend} {answer : Option (List DocumentSymbol)}
    (hpath : present req.path = some path) (hbackend : getBackend deps path = .ok backend)
    (hfile : backend.ensureFile path = .ok uri)
    (hanswer : backend.documentSymbol uri = .ok answer) :
    ∃ result, handleSymbols req deps = .ok (.ok req.id (.symbols result)) ∧
      (SymbolsExact (answer.getD []) result ↔
        (flattenSymbols (answer.getD [])).length ≤ MAX_SYMBOLS) := by
  refine ⟨documentSymbolsResult path (answer.getD []), ?_, documentSymbolsResult_exact path _⟩
  rw [handleSymbols, hpath]
  exact handleDocumentSymbols_ok hbackend hfile hanswer

/-- A class and its members. -/
def classSymbols (members : Nat) : List DocumentSymbol :=
  [.mk (lit "Store") 5 none none none
    (List.replicate members (.mk (lit "get") 6 none none none []))]

def classServer (members : Nat) : HandlerBackend where
  handles _ := true
  supportsWorkspaceSymbols := false
  projectRoots := [lit "/w"]
  ensureFile path := .ok (lit "file://" ++ path)
  ensureReady := .ok ()
  getProjectRoot _ := lit "/w"
  locations _ _ _ := .ok none
  documentSymbol _ := .ok (some (classSymbols members))
  workspaceSymbol _ := .ok none

def classDeps (members : Nat) : HandlerDeps := ⟨plainHost, [classServer members], fun _ => none⟩

def symbolsRequest : DaemonRequest := ⟨.ofInt 1, some (lit "/w/store.ts"), none, none, none⟩

theorem handleSymbols_exact_class : ∃ result,
    handleSymbols symbolsRequest (classDeps 2) = .ok (.ok (.ofInt 1) (.symbols result)) ∧
      (SymbolsExact (classSymbols 2) result ↔
        (flattenSymbols (classSymbols 2)).length ≤ MAX_SYMBOLS) :=
  have hpath : present symbolsRequest.path = some (lit "/w/store.ts") := by decide
  have hanswer : (classServer 2).documentSymbol (lit "file:///w/store.ts") =
      .ok (some (classSymbols 2)) := rfl
  handleSymbols_exact hpath rfl rfl hanswer

/-- A class of sixty members is one symbol of the top level. -/
theorem nested_symbols_unreported :
    ¬ ∀ (req : DaemonRequest) (deps : HandlerDeps) (path uri : Str) (backend : HandlerBackend)
      (raw : List DocumentSymbol) (result : SymbolsResult),
      present req.path = some path → getBackend deps path = .ok backend →
        backend.ensureFile path = .ok uri → backend.documentSymbol uri = .ok (some raw) →
          handleSymbols req deps = .ok (.ok req.id (.symbols result)) → SymbolsExact raw result := by
  intro hclaim
  have hpath : present symbolsRequest.path = some (lit "/w/store.ts") := by decide
  have hexact := hclaim symbolsRequest (classDeps 60) (lit "/w/store.ts")
    (lit "file:///w/store.ts") (classServer 60) (classSymbols 60) _ hpath rfl rfl rfl
    (by rw [handleSymbols, hpath]; exact handleDocumentSymbols_ok rfl rfl rfl)
  have htotal := hexact.total
  revert htotal
  simp [documentSymbolsResult, classSymbols, flattenSymbols, flattenSymbol, MAX_SYMBOLS]

end PiEnv.DevTools.Handlers
