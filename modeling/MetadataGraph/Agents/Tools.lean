import MetadataGraph.Session.Json
import MetadataGraph.Lib.Catalogue

namespace MetadataGraph.Agents

/-- A tool with its integration namespace. -/
structure NamespacedTool where
  integrationId : String
  originalName : String
  namespacedName : String
  description : String
  inputSchema : Json
  deriving DecidableEq

/-- A tool as it is described to the language model. -/
structure ToolDefinition where
  name : String
  description : String
  inputSchema : Json

def NamespacedTool.definition (tool : NamespacedTool) : ToolDefinition where
  name := tool.namespacedName
  description := "[" ++ tool.integrationId ++ "] " ++ tool.description
  inputSchema := tool.inputSchema

/-- The loader, with the tools that it has discovered under their namespaced names. -/
structure MCPLoader where
  toolsCache : Catalogue String NamespacedTool NamespacedTool.namespacedName := {}

namespace MCPLoader

def getAllTools (loader : MCPLoader) : List NamespacedTool := loader.toolsCache.values

def getToolsForIntegrations (integrationIds : List String) (loader : MCPLoader) : List NamespacedTool :=
  loader.toolsCache.values.filter fun tool => tool.integrationId ∈ integrationIds

def getTool (namespacedName : String) (loader : MCPLoader) : Option NamespacedTool :=
  loader.toolsCache.get? namespacedName

/-- The tools of some integrations, or of all where none is given. -/
def getToolDefinitions (integrationIds : List String) (loader : MCPLoader) : List ToolDefinition :=
  let tools := if integrationIds ≠ [] then loader.getToolsForIntegrations integrationIds else loader.getAllTools
  tools.map NamespacedTool.definition

end MCPLoader

def errorResult (error : String) : Json := .obj [("error", .str error)]

/-- The executors of the integrations: from the original name of a tool and its arguments, what is
left of the world and what is returned or raised. -/
structure Executors (World : Type) where
  executeGraphTool : String → Dict Json → World → World × Except String Json
  executeFetchTool : String → Dict Json → World → World × Except String Json
  executeFsTool : String → Dict Json → World → World × Except String Json
  executeSearchTool : String → Dict Json → World → World × Except String Json

/-- What a call of the raw executor came to: the tool that an executor ran, if one did, and what was
returned or raised. -/
structure Execution where
  ran : Option NamespacedTool
  result : Except String Json

variable {World : Type}

/-- `execute_tool`. -/
def MCPLoader.executeTool (executors : Executors World) (namespacedName : String) (inputArgs : Dict Json) (world : World)
    (loader : MCPLoader) : World × Execution :=
  match loader.getTool namespacedName with
  | none => (world, { ran := none, result := .ok (errorResult ("Unknown tool: " ++ namespacedName)) })
  | some tool =>
    let route (execute : String → Dict Json → World → World × Except String Json) :=
      let done := execute tool.originalName inputArgs world
      (done.1, { ran := some tool, result := done.2 })
    if tool.integrationId = "GRAPH" then route executors.executeGraphTool
    else if tool.integrationId = "WEB" then route executors.executeFetchTool
    else if tool.integrationId = "FS" then route executors.executeFsTool
    else if tool.integrationId = "SEARCH" then route executors.executeSearchTool
    else (world, { ran := none, result := .ok (errorResult ("No executor for integration: " ++ tool.integrationId)) })

namespace MCPLoader

variable {loader : MCPLoader} {name : String} {tool other : NamespacedTool}

theorem getTool_of_mem (loaded : tool ∈ loader.getAllTools) : loader.getTool tool.namespacedName = some tool :=
  Catalogue.get?_of_mem loaded

theorem mem_of_getTool (found : loader.getTool name = some tool) :
    tool ∈ loader.getAllTools ∧ tool.namespacedName = name :=
  Catalogue.get?_eq_some.mp found

/-- The definitions of two loaded tools differ. -/
theorem definition_inj (first : tool ∈ loader.getAllTools) (second : other ∈ loader.getAllTools)
    (same : tool.definition = other.definition) : tool = other := by
  have found := getTool_of_mem first
  rw [show tool.namespacedName = other.namespacedName from congrArg ToolDefinition.name same,
    getTool_of_mem second] at found
  exact (Option.some.inj found).symm

theorem mem_getToolDefinitions {integrationIds : List String} {definition : ToolDefinition} :
    definition ∈ loader.getToolDefinitions integrationIds ↔ ∃ tool ∈ loader.getAllTools,
      (integrationIds ≠ [] → tool.integrationId ∈ integrationIds) ∧ tool.definition = definition := by
  rw [getToolDefinitions, List.mem_map]
  split
  · rename_i given
    constructor
    · rintro ⟨tool, member, same⟩
      obtain ⟨loaded, own⟩ := List.mem_filter.mp member
      exact ⟨tool, loaded, fun _ => of_decide_eq_true own, same⟩
    · rintro ⟨tool, loaded, own, same⟩
      exact ⟨tool, List.mem_filter.mpr ⟨loaded, decide_eq_true (own given)⟩, same⟩
  · rename_i none
    constructor
    · rintro ⟨tool, loaded, same⟩
      exact ⟨tool, loaded, fun given => absurd given none, same⟩
    · rintro ⟨tool, loaded, -, same⟩
      exact ⟨tool, loaded, same⟩

/-- Only a loaded tool is run, under its name. -/
theorem ran_executeTool {executors : Executors World} {inputArgs : Dict Json} {world : World}
    (ran : (loader.executeTool executors name inputArgs world).2.ran = some tool) : loader.getTool name = some tool := by
  rw [executeTool] at ran
  split at ran
  · cases ran
  · rename_i found
    rw [found]
    dsimp only at ran
    split_ifs at ran <;> exact ran

end MCPLoader

end MetadataGraph.Agents
