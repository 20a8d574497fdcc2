/-
  Node priorities on their way to the scheduler: the options of
  `mediaorchard controller start` (`cli/main.py`), the texts
  (`controller/scheduler/policies.py`), the environment that `run_controller`
  prepares (`cli/runtime.py`) and the application that is made from it
  (`controller/main.py`).

  `int()` on a string is a parameter: its value, or none if it raises.
-/
import MediaOrchard.Controller.Api
import MediaOrchard.Shared.Storage

namespace MediaOrchard

/-! ## Texts -/

/-- `s.partition(sep)`, the parts before and after the separator if it occurs -/
def pyPartition (sep : Char) (s : String) : String × Option String :=
  let (before, after) := Text.partition sep s.toList
  (String.ofList before, after.map String.ofList)

/-- The loop body of `parse_node_priorities`; an error is its text. -/
def setPriority (int : String → Option ℤ) (priorities : List (String × ℤ)) (entry : String) :
    Except String (List (String × ℤ)) :=
  let item := pyStrip entry
  if item = "" then .ok priorities
  else
    match pyPartition '=' item with
    | (_, none) => .error "node priority must use key=value"
    | (key, some value) =>
      if pyStrip key = "" then .error "node priority must use key=value"
      else
        match int value with
        | none => .error ("node priority for " ++ pyStrip key ++ " must be an integer")
        | some priority =>
          if priority < 0 then
            .error ("node priority for " ++ pyStrip key ++ " must be non-negative")
          else .ok (dictSet priorities (pyStrip key) priority)

/-- `parse_node_priorities` -/
def parseNodePriorities (int : String → Option ℤ) :
    Option String → Except String (List (String × ℤ))
  | none => .ok []
  | some raw => if raw = "" then .ok [] else (pySplit ',' raw).foldlM (setPriority int) []

/-- `format_node_priorities` -/
def formatNodePriorities (priorities : List (String × ℤ)) : String :=
  ",".intercalate (priorities.map fun kv => kv.1 ++ "=" ++ toString kv.2)

/-! ## The environment -/

/-- `os.environ` -/
abbrev Environ := String → Option String

/-- `os.environ[key] = value` -/
def Environ.set (env : Environ) (key value : String) : Except String Environ :=
  if '\x00' ∈ value.toList then .error "embedded null byte"
  else .ok fun k => if k = key then some value else env k

/-- `os.environ.pop(key, None)` -/
def Environ.pop (env : Environ) (key : String) : Environ := fun k => if k = key then none else env k

/-- `_parse_node_priorities` of the CLI, with the options given -/
def cliNodePriorities (int : String → Option ℤ) (env : Environ) (values : Option (List String)) :
    Except String (List (String × ℤ)) :=
  let raw := ",".intercalate (values.getD [])
  if raw = "" then parseNodePriorities int (some ((env "MEDIAORCHARD_NODE_PRIORITIES").getD ""))
  else parseNodePriorities int (some raw)

/-- `ControllerRuntimeConfig` -/
structure ControllerRuntimeConfig where
  host : String
  port : ℤ
  databaseUrl : String
  apiKeyHash : String
  sharedRoot : String
  nodePriorities : List (String × ℤ) := []
  logLevel : String := "info"
  envFile : Option String := none

/-- What `uvicorn.run` is called with. -/
structure UvicornRun where
  app : String
  host : String
  port : ℤ
  logLevel : String
  envFile : Option String

/-- `run_controller` up to the call of `uvicorn_run`, with the environment it has
    prepared -/
def runController (h : Host) (config : ControllerRuntimeConfig) (env : Environ) :
    Except String (Environ × UvicornRun) := do
  let env ← env.set "MEDIAORCHARD_DATABASE_URL" config.databaseUrl
  let env ← env.set "MEDIAORCHARD_API_KEY_HASH" config.apiKeyHash
  let env ← env.set "MEDIAORCHARD_SHARED_ROOT" (h.resolve config.sharedRoot).str
  let env ←
    if config.nodePriorities ≠ [] then
      env.set "MEDIAORCHARD_NODE_PRIORITIES" (formatNodePriorities config.nodePriorities)
    else .ok (env.pop "MEDIAORCHARD_NODE_PRIORITIES")
  return (env, ⟨"mediaorchard.controller.main:app", config.host, config.port, config.logLevel,
    config.envFile⟩)

/-- `create_app`, but for the engine it opens -/
def createApp (h : Host) (sha256Hex : Sha256) (apiKeyHash sharedRoot : String)
    (nodePriorities : List (String × ℤ)) : App where
  sha256Hex := sha256Hex
  apiKeyHash := apiKeyHash
  sharedRoot := h.resolve sharedRoot
  nodePriorities := nodePriorities

/-- `mediaorchard.controller.main:app`, made when the module is loaded -/
def controllerApp (h : Host) (sha256Hex : Sha256) (int : String → Option ℤ)
    (env : Environ) : Except String App := do
  let nodePriorities ← parseNodePriorities int (env "MEDIAORCHARD_NODE_PRIORITIES")
  return createApp h sha256Hex ((env "MEDIAORCHARD_API_KEY_HASH").getD "__unset__")
    ((env "MEDIAORCHARD_SHARED_ROOT").getD "/Volumes/MediaOrchard") nodePriorities

end MediaOrchard
