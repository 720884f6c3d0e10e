import Memmy.Lib.Sort

/-! # The servers of the tool protocol

`connectMissingServers` and `reloadServers` connect the configured servers and put what they offer into the tool
registry, each under a name that is made of the server's name and its own. An event is what one of them does
between two awaits; the answers of the servers, the configuration that is read and failures come with the events.

A configuration is held as `serverSignature` normalizes it, so that two are the same if their signatures are, and
`digest` is the beginning of the SHA-256 of a text. -/

namespace Memmy.Mcp

open Function (update)
open Lib.Sort

/-! ### Names -/

def MAX_TOOL_NAME_LENGTH : ℕ := 64

def TOOL_NAME_HASH_LENGTH : ℕ := 12

def isNameChar (c : Char) : Bool := c.isAlphanum || c = '_' || c = '-'

/-- `replace(/_+/g, "_")`. -/
def collapse : List Char → List Char
  | [] => []
  | c :: cs =>
    match c, collapse cs with
    | '_', '_' :: rest => '_' :: rest
    | c, rest => c :: rest

section Names
variable (digest : String → String)

def sanitizeName (name : String) : String :=
  let sanitized := String.ofList (collapse (name.toList.map fun c => if isNameChar c then c else '_'))
  if sanitized.length ≤ MAX_TOOL_NAME_LENGTH then sanitized
  else String.ofList (sanitized.toList.take (MAX_TOOL_NAME_LENGTH - TOOL_NAME_HASH_LENGTH - 1)) ++ "_" ++
    digest sanitized

/-- What a server offers. -/
inductive Item where
  | tool (name : String)
  | resource (name : String)
  | prompt (name : String)
deriving DecidableEq

/-- The name of a wrapper in the registry. -/
def wrappedName (server : String) : Item → String
  | .tool name => sanitizeName digest ("mcp_" ++ server ++ "_" ++ name)
  | .resource name => sanitizeName digest ("mcp_" ++ server ++ "_resource_" ++ name)
  | .prompt name => sanitizeName digest ("mcp_" ++ server ++ "_prompt_" ++ name)

def toolPrefix (server : String) : String := sanitizeName digest ("mcp_" ++ server ++ "_")

/-- `toolName.startsWith(prefix)`, for the prefix of the server. -/
def hasPrefix (server toolName : String) : Bool := (toolPrefix digest server).toList.isPrefixOf toolName.toList

end Names

/-! ### Data -/

structure ServerConfig where
  settings : String
  enabledTools : List String
deriving DecidableEq

/-- `mcpServers`: the configurations under their names. -/
structure Servers where
  entries : List (String × ServerConfig)
  nodup : (entries.map Prod.fst).Nodup

def Servers.names (servers : Servers) : List String := servers.entries.map Prod.fst

def Servers.get (servers : Servers) (name : String) : Option ServerConfig := servers.entries.lookup name

/-- A wrapper in the registry: what it is for, and the session that it is bound to. -/
structure Entry where
  server : String
  item : Item
  session : ℕ
deriving DecidableEq

/-- What a server has answered. -/
structure Catalog where
  tools : List String
  resources : List String
  prompts : List String

/-- A connection that was opened, with the tools that are registered for it. -/
structure Connection where
  server : String
  config : ServerConfig
  tools : List String
  resources : List String
  prompts : List String
  closed : Bool
deriving DecidableEq

def Connection.items (conn : Connection) : List Item :=
  conn.tools.map .tool ++ conn.resources.map .resource ++ conn.prompts.map .prompt

/-- A running call of `connectMcpServers`. -/
structure Call where
  /-- The servers that are left, the first being connected. -/
  todo : List (String × ServerConfig)
  /-- The open connection to the first of them. -/
  current : Option ℕ
  connected : List (String × ℕ)

/-- Who calls `connectMcpServers`. -/
inductive Caller where
  | missing
  | reload
deriving DecidableEq

inductive Phase where
  /-- `closeServer` is awaited, with the servers that are closed after it. -/
  | closing (rest : List String)
  | connecting (toConnectNames : List String)
  | refreshing (session : ℕ)

/-- The reload that holds the lock. -/
structure Reload where
  nextServers : Servers
  phase : Phase

structure State where
  mcpServers : Servers
  mcpStacks : String → Option ℕ
  conns : ℕ → Connection
  nextConn : ℕ
  registry : String → Option Entry
  calls : Caller → Option Call
  reload : Option Reload
  waiting : ℕ

/-! ### Steps -/

section Steps
variable (digest : String → String)

/-- The tool is enabled, by its own name or by that of its wrapper. -/
def isEnabled (config : ServerConfig) (server tool : String) : Bool :=
  "*" ∈ config.enabledTools || tool ∈ config.enabledTools ||
    wrappedName digest server (.tool tool) ∈ config.enabledTools

def registerAll (server : String) (session : ℕ) (items : List Item) (registry : String → Option Entry) :
    String → Option Entry :=
  items.foldl (fun registry item => update registry (wrappedName digest server item)
    (some ⟨server, item, session⟩)) registry

def unregisterAll (server : String) (items : List Item) (registry : String → Option Entry) :
    String → Option Entry :=
  items.foldl (fun registry item => update registry (wrappedName digest server item) none) registry

namespace State

variable (s : State)

def setCall (caller : Caller) (call : Option Call) : State := { s with calls := update s.calls caller call }

def setConn (session : ℕ) (conn : Connection) : State := { s with conns := update s.conns session conn }

/-- `connectMissingServers`, up to its first await. -/
def connectMissing : State :=
  let missing := s.mcpServers.entries.filter fun entry => s.mcpStacks entry.1 = none
  if (s.calls .missing).isSome ∨ missing = [] then s
  else s.setCall .missing (some ⟨missing, none, []⟩)

def openServer (caller : Caller) : State :=
  match s.calls caller with
  | some ⟨(server, config) :: rest, none, connected⟩ =>
    { s.setConn s.nextConn {
        server := server
        config := config
        tools := []
        resources := []
        prompts := []
        closed := false } with
      nextConn := s.nextConn + 1 }.setCall caller (some ⟨(server, config) :: rest, some s.nextConn, connected⟩)
  | _ => s

/-- There is no connection to the next server. -/
def skipServer (caller : Caller) : State :=
  match s.calls caller with
  | some ⟨_ :: rest, none, connected⟩ => s.setCall caller (some ⟨rest, none, connected⟩)
  | _ => s

/-- The connection fails, or the discovery takes too long. -/
def fail (caller : Caller) : State :=
  match s.calls caller with
  | some ⟨_ :: rest, some session, connected⟩ =>
    (s.setConn session { s.conns session with closed := true }).setCall caller (some ⟨rest, none, connected⟩)
  | _ => s

def discoveredConn (session : ℕ) (catalog : Catalog) : Connection :=
  let conn := s.conns session
  { conn with
    tools := catalog.tools.filter (isEnabled digest conn.config conn.server)
    resources := catalog.resources
    prompts := catalog.prompts }

/-- The server has answered, and is registered. -/
def discover (caller : Caller) (catalog : Catalog) : State :=
  match s.calls caller with
  | some ⟨(server, _) :: rest, some session, connected⟩ =>
    let conn := s.discoveredConn digest session catalog
    { s.setConn session conn with
      registry := registerAll digest server session conn.items s.registry }.setCall caller
        (some ⟨rest, none, connected ++ [(server, session)]⟩)
  | _ => s

/-- `Object.assign(state.mcpStacks, connected)`. -/
def assignStacks (connected : List (String × ℕ)) : State :=
  { s with mcpStacks := connected.foldl (fun table entry => update table entry.1 (some entry.2)) s.mcpStacks }

/-- The end of `reloadServers`, from where it refreshes the plugins. -/
def afterConnect (next : Servers) (toConnectNames : List String) : State :=
  if "plugins" ∈ next.names ∧ "plugins" ∉ toConnectNames then
    match s.mcpStacks "plugins" with
    | some session => { s with reload := some ⟨next, .refreshing session⟩ }
    | none => { s with reload := none }
  else { s with reload := none }

/-- `connectMcpServers` returns. -/
def finish (caller : Caller) : State :=
  match s.calls caller with
  | some ⟨[], none, connected⟩ =>
    let s := (s.assignStacks connected).setCall caller none
    match caller, s.reload with
    | .reload, some ⟨next, .connecting toConnectNames⟩ => s.afterConnect next toConnectNames
    | _, _ => s
  | _ => s

/-- `unregisterServerTools` and `closeServer`, up to its await. -/
def closeServer (server : String) : State :=
  { s with
    registry := fun toolName => if hasPrefix digest server toolName then none else s.registry toolName
    mcpStacks := update s.mcpStacks server none
    conns :=
      match s.mcpStacks server with
      | some session => update s.conns session { s.conns session with closed := true }
      | none => s.conns }

def removed (next : Servers) : List String :=
  sortBy (ascending id) (s.mcpServers.names.filter fun name => name ∉ next.names)

def added (next : Servers) : List String :=
  sortBy (ascending id) (next.names.filter fun name => name ∉ s.mcpServers.names)

def changed (next : Servers) : List String :=
  sortBy (ascending id) (s.mcpServers.names.filter fun name =>
    name ∈ next.names ∧ s.mcpServers.get name ≠ next.get name)

/-- The names that the reload connects. -/
def toConnectNames (next : Servers) : List String :=
  let changedOrAdded := s.added next ++ s.changed next
  let retryMissing := next.names.filter fun name => s.mcpStacks name = none ∧ name ∉ changedOrAdded
  sortBy (ascending id) (changedOrAdded ++ retryMissing).dedup

/-- `reloadServers`, from where the new configuration is in place. -/
def afterClose (next : Servers) : State :=
  let names := s.toConnectNames next
  let s := { s with mcpServers := next }
  if names = [] then s.afterConnect next names
  else
    { s with reload := some ⟨next, .connecting names⟩ }.setCall .reload
      (some ⟨names.filterMap fun name => (next.get name).map (name, ·), none, []⟩)

/-- The loop over the servers to close, up to its next await. -/
def closeNext (next : Servers) : List String → State
  | [] => s.afterClose next
  | server :: rest => { s.closeServer digest server with reload := some ⟨next, .closing rest⟩ }

/-- A reload gets the lock and reads the configuration. -/
def reloadStart (config : Option Servers) : State :=
  if s.reload.isSome ∨ s.waiting = 0 then s
  else
    let s := { s with waiting := s.waiting - 1 }
    match config with
    | none => s
    | some next => s.closeNext digest next (s.removed next ++ s.changed next)

/-- The server that is closed is closed. -/
def closeDone : State :=
  match s.reload with
  | some ⟨next, .closing rest⟩ => s.closeNext digest next rest
  | _ => s

/-- `refreshTools` of the session, with the tools that are listed. -/
def refreshTools (session : ℕ) (tools : List String) : State :=
  let conn := s.conns session
  let enabled := tools.filter (isEnabled digest conn.config conn.server)
  { s.setConn session { conn with tools := enabled } with
    registry := registerAll digest conn.server session (enabled.map .tool)
      (unregisterAll digest conn.server (conn.tools.map .tool) s.registry) }

/-- The refresh of the plugins is over. -/
def refreshed (tools : Option (List String)) : State :=
  match s.reload with
  | some ⟨_, .refreshing session⟩ =>
    let s := { s with reload := none }
    match tools with
    | some tools => s.refreshTools digest session tools
    | none => s
  | _ => s

end State

inductive Event where
  | connectMissing
  | reloadServers
  | reloadStart (config : Option Servers)
  | closeDone
  | openServer (caller : Caller)
  | skipServer (caller : Caller)
  | fail (caller : Caller)
  | discover (caller : Caller) (catalog : Catalog)
  | finish (caller : Caller)
  | refreshed (tools : Option (List String))

def step (s : State) : Event → State
  | .connectMissing => s.connectMissing
  | .reloadServers => { s with waiting := s.waiting + 1 }
  | .reloadStart config => s.reloadStart digest config
  | .closeDone => s.closeDone digest
  | .openServer caller => s.openServer caller
  | .skipServer caller => s.skipServer caller
  | .fail caller => s.fail caller
  | .discover caller catalog => s.discover digest caller catalog
  | .finish caller => s.finish caller
  | .refreshed tools => s.refreshed digest tools

end Steps

/-- An agent that has connected to no server. -/
def start (servers : Servers) : State where
  mcpServers := servers
  mcpStacks _ := none
  conns _ := {
    server := ""
    config := ⟨"", []⟩
    tools := []
    resources := []
    prompts := []
    closed := false }
  nextConn := 0
  registry _ := none
  calls _ := none
  reload := none
  waiting := 0

end Memmy.Mcp
