import MetadataGraph.Graph.Models
import MetadataGraph.Lib.Runs

namespace MetadataGraph.Chat

open Runs MetadataGraph.Graph

/-- A dict as a value. -/
def ofDict (d : Dict Json) : Json := .obj d.toList

@[simp] theorem readObject_ofDict (d : Dict Json) : readObject (ofDict d) = some d := by
  rw [ofDict, readObject, Dict.of_toList]

/-- A Python function that is called as a tool: its parameters, and from its arguments what is left
of the world and what is returned or raised. -/
structure Tool (World : Type) where
  parameters : List String
  call : Dict Json → World → World × Except String Json

/-- The processor with the overrides of one request, and the texts it makes of values. -/
structure Processor (World : Type) where
  toolDefinitions : List (Dict Json)
  toolsMap : String → Option (Tool World)
  toolsOverride : String → Option (Tool World)
  str : Json → String
  dumps : Json → String
  noItems : Json → String

variable {World : Type}

/-- `{**self.tools_map, **tools_override}`. -/
def Processor.effectiveTools (p : Processor World) (name : String) : Option (Tool World) :=
  (p.toolsOverride name).or (p.toolsMap name)

/-- `_select_tool_definitions`: an empty allowlist counts as none. -/
def Processor.selectToolDefinitions (p : Processor World) : Option (List String) → List (Dict Json)
  | none | some [] => p.toolDefinitions
  | some allowed => p.toolDefinitions.filter fun t => (t.get "name").isIdIn allowed

/-- `_VIEW_CONTENT_ACTIONS`. -/
def viewContentActions : List String :=
  ["add_to_visualization", "replace_visualization", "load_visualization", "clear_visualization", "update_in_visualization"]

/-- The tools that are answered without a function. -/
def helperTools : List String := ["propose_new_node", "clear_visualization", "mark_nodes", "present_form"]

/-- The result of a helper tool, unless the input is not a dict where it has to be one. -/
def helperResult (name : String) (input : Json) : Option (Dict Json) :=
  if name = "clear_visualization" then
    some (.of [("action", .str "clear_visualization"), ("success", .bool true), ("message", .str "Visualization cleared")])
  else (readObject input).map fun input =>
    if name = "propose_new_node" then
      .of [("proposed_node", input.get "node"), ("similar_nodes", input.get "similar_nodes"),
        ("requires_approval", .bool true)]
    else if name = "mark_nodes" then
      .of [("action", .str "mark_nodes"), ("marks", input["marks"]?.getD (.arr []))]
    else
      .of [("action", .str "present_form"), ("form", ofDict (.of [
        ("title", input.get "title"), ("description", input.get "description"),
        ("submit_label", input.get "submit_label"), ("fields", input["fields"]?.getD (.arr []))]))]

def errorResult (text : String) : Json := .obj [("error", .str text)]

/-- What became of a tool use: held back by the allowlist, without a tool to run, or run. -/
inductive Verdict where
  | blocked
  | missing
  | executed
  deriving DecidableEq

structure Call where
  toolUse : Dict Json
  verdict : Verdict
  result : Json

def Call.name (call : Call) : Json := call.toolUse.get "name"

/-- `tool_allowlist is not None and tool_name not in tool_allowlist`. -/
def blocks (allowlist : Option (List String)) (name : Json) : Bool :=
  match allowlist with
  | none => false
  | some allowed => !name.isIdIn allowed

/-- One tool use up to its result. There is none where the request fails. -/
def Processor.runTool (p : Processor World) (allowlist : Option (List String)) (toolUse : Dict Json) (world : World) :
    Option (World × Call) :=
  let name := toolUse.get "name"
  let input := toolUse.get "input"
  if blocks allowlist name then
    some (world, ⟨toolUse, .blocked,
      errorResult ("Tool '" ++ p.str name ++ "' is not in this collection's tool allowlist and was blocked.")⟩)
  else
    let notFound : Call := ⟨toolUse, .missing, errorResult ("Tool " ++ p.str name ++ " not found")⟩
    match name.string? with
    | none => if name.hashable then some (world, notFound) else none
    | some tool =>
      if tool ∈ helperTools then (helperResult tool input).map fun result => (world, ⟨toolUse, .executed, ofDict result⟩)
      else match p.effectiveTools tool with
        | none => some (world, notFound)
        | some f => match readObject input with
          | none => some (world, ⟨toolUse, .missing, errorResult (p.noItems input)⟩)
          | some args =>
            let done := f.call (args.filter fun key _ => decide (key ∈ f.parameters)) world
            some (done.1, ⟨toolUse, .executed, match done.2 with
              | .ok result => result
              | .error text => errorResult text⟩)

/-- What a request has gathered, with the ids of what it holds as the round knows them. -/
structure Turn where
  nodes : List Json := []
  edges : List Json := []
  nodeIds : List Json := []
  edgeIds : List Json := []
  visualizationAction : Option Json := none
  pendingForm : Option (Dict Json) := none
  pendingExtraActions : List (Dict Json) := []

/-- The items with an id that is not there yet are added. An id that cannot be hashed raises. -/
def addUnique : List Json → List Json × List Json → Option (List Json × List Json)
  | [], held => some held
  | item :: items, (held, ids) => match readObject item with
    | none => addUnique items (held, ids)
    | some record =>
      if (record.get "id").hashable = false then none
      else if record.get "id" ∈ ids then addUnique items (held, ids)
      else addUnique items (held ++ [item], ids ++ [record.get "id"])

/-- The items under a key of a result are added, where there is a list. -/
def gather (key : String) (result : Dict Json) (held : List Json × List Json) : Option (List Json × List Json) :=
  match result[key]? with
  | some (.arr items) => addUnique items held
  | _ => some held

/-- What a result adds to the turn. There is no turn where the request fails. -/
def Turn.collect (turn : Turn) (result : Json) : Option Turn :=
  match readObject result with
  | none => some turn
  | some result =>
    (gather "nodes" result (turn.nodes, turn.nodeIds)).bind fun nodes =>
    (gather "edges" result (turn.edges, turn.edgeIds)).bind fun edges =>
    let action := result.get "action"
    if action.hashable = false then none
    else
      let gathered := { turn with
        nodes := nodes.1, nodeIds := nodes.2, edges := edges.1, edgeIds := edges.2
        visualizationAction := if action.isIdIn viewContentActions then some action else turn.visualizationAction }
      if action = .str "present_form" then some { gathered with pendingForm := some result }
      else if action.truthy ∧ "nodes" ∉ result then
        some { gathered with pendingExtraActions := turn.pendingExtraActions ++ [result] }
      else some gathered

/-- The ids that a round starts with: those of the items that have one. -/
def idsOf (items : List Json) : List Json := items.filterMap fun item => (readObject item).bind (·["id"]?)

def Turn.newRound (turn : Turn) : Turn := { turn with nodeIds := idsOf turn.nodes, edgeIds := idsOf turn.edges }

/-- The tool uses of a response, one after the other. -/
def Processor.useTools (p : Processor World) (allowlist : Option (List String)) :
    List (Dict Json) → World → Turn → List Call → World × Option Turn × List Call
  | [], world, turn, calls => (world, some turn, calls)
  | toolUse :: rest, world, turn, calls => match p.runTool allowlist toolUse world with
    | none => (world, none, calls)
    | some (world, call) =>
      match if call.verdict = .blocked then some turn else turn.collect call.result with
      | none => (world, none, calls ++ [call])
      | some turn => p.useTools allowlist rest world turn (calls ++ [call])

/-- `final_tool_result`, from what was gathered and the last result of the last round. -/
def Turn.finalToolResult (turn : Turn) (last : Json) : Json :=
  let nodes : Dict Json := if turn.nodes = [] then {} else Std.ExtTreeMap.insert {} "nodes" (.arr turn.nodes)
  let data := if turn.edges = [] then nodes else nodes.insert "edges" (.arr turn.edges)
  let result :=
    if turn.nodes = [] ∧ turn.edges = [] then last
    else ofDict (data.insert "action" (turn.visualizationAction.getD (.str "add_to_visualization")))
  match turn.pendingForm with
  | none => result
  | some form =>
    let merged := match readObject result with
      | some result => result ∪ form
      | none => form
    ofDict (if turn.pendingExtraActions = [] then merged
      else merged.insert "extra_actions" (.arr (turn.pendingExtraActions.map ofDict)))

/-- The blocks of a type. -/
def blocksOf (type : String) (content : List Json) : List (Dict Json) :=
  (content.filterMap readObject).filter fun block => block.get "type" = .str type

/-- The blocks of a response that use a tool. -/
def toolUses (content : List Json) : List (Dict Json) := blocksOf "tool_use" content

/-- The text of a response, unless a text block holds something else. -/
def textOf (content : List Json) : Option String :=
  ((blocksOf "text" content).mapM fun block => (block["text"]?.getD (Json.str "")).string?).map String.join

/-- What the model provider does when it is asked. -/
inductive Reply where
  | raised
  | response (content : List Json) (stopReason : String)

inductive Message where
  | assistant (content : List Json)
  | toolResults (results : List (Json × String))

/-- How a request ends: with a raised error, without a tool use to handle, with a mere text, or with
the result of its tools. -/
inductive Outcome where
  | failed
  | noToolUse
  | text (content : String)
  | answered (content : String) (toolUsed : Json) (toolResult : Json)

/-- A request is going on, after a last tool use if there was one, or it is over. -/
inductive Phase where
  | active (last : Option Call)
  | ended (outcome : Outcome)

/-- A request, with every tool use that was received and what became of those that were handled. -/
structure State (World : Type) where
  world : World
  phase : Phase := .active none
  messages : List Message := []
  turn : Turn := {}
  asked : List (Dict Json) := []
  calls : List Call := []

/-- `_handle_tool_use`, up to the next call of the provider. -/
def Processor.handleToolUse (p : Processor World) (allowlist : Option (List String)) (content : List Json)
    (s : State World) : State World :=
  if toolUses content = [] then { s with phase := .ended .noToolUse }
  else
    let (world, turn, calls) := p.useTools allowlist (toolUses content) s.world s.turn.newRound []
    let handled := { s with world, asked := s.asked ++ toolUses content, calls := s.calls ++ calls }
    match turn with
    | none => { handled with phase := .ended .failed }
    | some turn => { handled with
        turn
        phase := .active calls.getLast?
        messages := s.messages ++ [.assistant content,
          .toolResults (calls.map fun call => (call.toolUse.get "id", p.dumps call.result))] }

/-- `process_message` with the next reply of the provider. -/
def Processor.receive (p : Processor World) (allowlist : Option (List String)) (s : State World) (reply : Reply) :
    Option (State World × Unit) :=
  match s.phase with
  | .ended _ => none
  | .active last => match reply with
    | .raised => some ({ s with phase := .ended .failed }, ())
    | .response content stopReason =>
      if stopReason = "tool_use" then some (p.handleToolUse allowlist content s, ())
      else match textOf content with
        | none => some ({ s with phase := .ended .failed }, ())
        | some text =>
          let outcome := match last with
            | none => .text (if text = "" then "No text response from AI" else text)
            | some call => .answered text call.name (s.turn.finalToolResult call.result)
          some ({ s with phase := .ended outcome }, ())

end MetadataGraph.Chat
