import MetadataGraph.Chat.Processor

namespace MetadataGraph.Chat

open Runs MetadataGraph.Graph

variable {World : Type}

/-- The names of the tools that are advertised for a request. -/
def Processor.advertised (p : Processor World) (allowlist : Option (List String)) : List Json :=
  (p.selectToolDefinitions allowlist).map fun t => t.get "name"

/-- There is something to run for the name. -/
def Processor.Available (p : Processor World) (name : Json) : Prop :=
  ∃ tool, name = .str tool ∧ (tool ∈ helperTools ∨ (p.effectiveTools tool).isSome = true)

def idOf (item : Json) : Json := ((readObject item).map fun record => record.get "id").getD .null

/-- The value under a key, where there is a dict. -/
def valueOf (key : String) (result : Json) : Option Json := (readObject result).bind (·[key]?)

/-- The items of the list under a key. -/
def itemsOf (key : String) (result : Json) : List Json :=
  match valueOf key result with
  | some (.arr items) => items
  | _ => []

/-- Each id with its first occurrence. -/
def firstById : List Json → List Json
  | [] => []
  | item :: items => item :: (firstById items).filter fun other => idOf other ≠ idOf item

/-- The value under the key is the list, or there is none where the list is empty. -/
def Holds (result : Json) (key : String) (items : List Json) : Prop :=
  valueOf key result = some (.arr items) ∨ valueOf key result = none ∧ items = []

def Outcome.toolResult : Outcome → Json
  | .answered _ _ toolResult => toolResult
  | _ => .null

/-- The items that the executed tools have returned under a key, in their order. -/
def State.returned (key : String) (s : State World) : List Json :=
  (s.calls.filter fun call => call.verdict = .executed).flatMap fun call => itemsOf key call.result

/-- What the tool loop is to keep to. -/
structure WellFormed (p : Processor World) (allowlist : Option (List String)) (s : State World) : Prop where
  executed : ∀ call ∈ s.calls, call.verdict = .executed → call.name ∈ p.advertised allowlist
  handled : s.calls.map Call.toolUse = s.asked
  advertised : ∀ call ∈ s.calls, call.name ∈ p.advertised allowlist → p.Available call.name → call.verdict = .executed
  answered : ∀ before content after, s.messages = before ++ .assistant content :: after → toolUses content ≠ [] →
    ∃ results rest, after = .toolResults results :: rest ∧
      results.map Prod.fst = (toolUses content).map fun toolUse => toolUse.get "id"
  nodes : ∀ outcome, s.phase = .ended outcome → Holds outcome.toolResult "nodes" (firstById (s.returned "nodes"))
  edges : ∀ outcome, s.phase = .ended outcome → Holds outcome.toolResult "edges" (firstById (s.returned "edges"))

/-- The items under a key stand in a list and have ids that can be hashed. -/
def Listed (key : String) (result : Dict Json) : Prop :=
  ∀ value, result[key]? = some value → ∃ items, value = .arr items ∧ ∀ item ∈ items, ∃ record id,
    readObject item = some record ∧ record["id"]? = some id ∧ id.hashable = true

/-- What a tool returns: nodes and edges that can be told apart, an action that can be looked up, and
no nodes or edges beside a form. -/
structure Tidy (result : Dict Json) : Prop where
  nodes : Listed "nodes" result
  edges : Listed "edges" result
  action : (result.get "action").hashable = true
  form : result.get "action" = .str "present_form" → "nodes" ∉ result ∧ "edges" ∉ result

/-- A tool use that names a tool, with a dict as its input. A tool that the gate lets through and that
can be run is advertised, and with an empty allowlist no tool that can be run is. -/
structure Orderly (p : Processor World) (allowlist : Option (List String)) (toolUse : Dict Json) : Prop where
  name : ∃ tool, toolUse.get "name" = .str tool
  input : ∃ args, readObject (toolUse.get "input") = some args
  defined : blocks allowlist (toolUse.get "name") = false → p.Available (toolUse.get "name") →
    toolUse.get "name" ∈ p.advertised allowlist
  restricted : allowlist = some [] → p.Available (toolUse.get "name") → toolUse.get "name" ∉ p.advertised allowlist

/-- Nothing has been gathered yet. -/
def State.Idle (s : State World) : Prop := s.turn.nodes = [] ∧ s.turn.edges = []

/-- A reply that cannot be handled comes before anything is gathered, and every tool use is orderly. -/
def Reply.Orderly (p : Processor World) (allowlist : Option (List String)) (s : State World) : Reply → Prop
  | .raised => s.Idle
  | .response content stopReason =>
    if stopReason = "tool_use" then
      (toolUses content = [] → s.Idle) ∧ ∀ toolUse ∈ toolUses content, Chat.Orderly p allowlist toolUse
    else textOf content = none → s.Idle

/-! ### One tool use -/

section OneToolUse

variable {p : Processor World} {allowlist : Option (List String)} {toolUse : Dict Json}

/-- Whether a tool use is executed. -/
theorem runTool_spec (orderly : Orderly p allowlist toolUse) (world : World) :
    ∃ world' call, p.runTool allowlist toolUse world = some (world', call) ∧ call.toolUse = toolUse ∧
      (call.verdict = .executed ↔ blocks allowlist call.name = false ∧ p.Available call.name) ∧
      (call.verdict ≠ .executed → ∃ text, call.result = errorResult text) := by
  obtain ⟨tool, name⟩ := orderly.name
  obtain ⟨args, input⟩ := orderly.input
  rw [Processor.runTool]
  dsimp only
  by_cases blocked : blocks allowlist (toolUse.get "name") = true
  · rw [if_pos blocked]
    refine ⟨_, _, rfl, rfl, iff_of_false (fun no => (by cases no)) ?_, fun _ => ⟨_, rfl⟩⟩
    rintro ⟨free, -⟩
    exact Bool.false_ne_true (free.symm.trans blocked)
  · have free : blocks allowlist (toolUse.get "name") = false := Bool.eq_false_iff.mpr blocked
    rw [if_neg blocked, name, Json.string?_str]
    dsimp only
    by_cases helper : tool ∈ helperTools
    · rw [if_pos helper]
      obtain ⟨result, answered⟩ : ∃ result, helperResult tool (toolUse.get "input") = some result := by
        rw [helperResult, input]
        split <;> exact ⟨_, rfl⟩
      rw [answered, Option.map_some]
      refine ⟨_, _, rfl, rfl, iff_of_true rfl ⟨free, tool, name, .inl helper⟩, fun no => absurd rfl no⟩
    · rw [if_neg helper]
      cases found : p.effectiveTools tool with
      | none =>
        refine ⟨_, _, rfl, rfl, iff_of_false (fun no => (by cases no)) ?_, fun _ => ⟨_, rfl⟩⟩
        rintro ⟨-, tool', name', available⟩
        have same : tool' = tool := Json.str.inj (name'.symm.trans name)
        rw [same, found] at available
        obtain inHelpers | no := available
        · exact helper inHelpers
        · cases no
      | some f =>
        rw [input]
        dsimp only
        refine ⟨_, _, rfl, rfl, iff_of_true rfl ⟨free, tool, name, .inr (by rw [found]; rfl)⟩, fun no => absurd rfl no⟩

end OneToolUse

/-! ### What is gathered -/

theorem idOf_eq {item : Json} {record : Dict Json} (read : readObject item = some record) : idOf item = record.get "id" := by
  rw [idOf, read]
  rfl

/-- The loop over items keeps those whose ids are not held yet, each with its first occurrence. -/
theorem addUnique_eq {items held : List Json}
    (listed : ∀ item ∈ items, ∃ record id, readObject item = some record ∧ record["id"]? = some id ∧ id.hashable = true) :
    addUnique items (held, held.map idOf) =
      some (held ++ (firstById items).filter (fun item => idOf item ∉ held.map idOf),
        (held ++ (firstById items).filter (fun item => idOf item ∉ held.map idOf)).map idOf) := by
  induction items generalizing held with
  | nil => rw [addUnique, firstById, List.filter_nil, List.append_nil]
  | cons item items ih =>
    obtain ⟨⟨record, id, read, found, hashable⟩, listed⟩ := List.forall_mem_cons.mp listed
    have same : record.get "id" = id := Dict.get_eq_of_getElem? found
    have here : idOf item = id := (idOf_eq read).trans same
    rw [addUnique, read]
    dsimp only
    rw [same, if_neg (by rw [hashable]; exact Bool.noConfusion), firstById, List.filter_cons, here]
    by_cases old : id ∈ held.map idOf
    · rw [if_pos old, ih listed, if_neg (by simp [old]), List.filter_filter]
      have alike : ∀ other ∈ firstById items, (decide (idOf other ∉ held.map idOf) && decide (idOf other ≠ id)) =
          decide (idOf other ∉ held.map idOf) := by
        intro other _
        rw [Bool.eq_iff_iff, Bool.and_eq_true, decide_eq_true_eq, decide_eq_true_eq]
        exact and_iff_left_of_imp fun fresh same => fresh (same ▸ old)
      rw [List.filter_congr alike]
    · have grown : held.map idOf ++ [id] = (held ++ [item]).map idOf := by
        rw [List.map_append, List.map_singleton, here]
      rw [if_neg old, grown, ih listed, if_pos (by simp [old]), List.filter_filter]
      have alike : ∀ other ∈ firstById items, (decide (idOf other ∉ held.map idOf) && decide (idOf other ≠ id)) =
          decide (idOf other ∉ (held ++ [item]).map idOf) := by
        intro other _
        rw [Bool.eq_iff_iff, Bool.and_eq_true, decide_eq_true_eq, decide_eq_true_eq, decide_eq_true_eq, ← grown,
          List.mem_append, List.mem_singleton, not_or]
      rw [List.filter_congr alike, List.append_assoc, List.singleton_append]

theorem firstById_append (a b : List Json) :
    firstById (a ++ b) = firstById a ++ (firstById b).filter fun item => idOf item ∉ (firstById a).map idOf := by
  induction a with
  | nil => simp [firstById]
  | cons item a ih =>
    rw [List.cons_append, firstById, ih, firstById, List.filter_append, List.cons_append, List.filter_filter]
    have alike : ∀ other ∈ firstById b, (decide (idOf other ≠ idOf item) && decide (idOf other ∉ (firstById a).map idOf)) =
        decide (idOf other ∉ (item :: (firstById a).filter fun other => idOf other ≠ idOf item).map idOf) := by
      intro other _
      rw [Bool.eq_iff_iff, Bool.and_eq_true, decide_eq_true_eq, decide_eq_true_eq, decide_eq_true_eq, List.map_cons,
        List.mem_cons, not_or]
      refine and_congr_right fun differ => not_congr ?_
      constructor
      · intro member
        obtain ⟨source, inFirst, equal⟩ := List.mem_map.mp member
        refine List.mem_map.mpr ⟨source, List.mem_filter.mpr ⟨inFirst, ?_⟩, equal⟩
        rw [equal]
        exact decide_eq_true differ
      · intro member
        obtain ⟨source, inFirst, equal⟩ := List.mem_map.mp member
        exact List.mem_map.mpr ⟨source, (List.mem_filter.mp inFirst).1, equal⟩
    rw [List.filter_congr alike]

theorem mem_of_mem_firstById {items : List Json} {item : Json} (member : item ∈ firstById items) : item ∈ items := by
  induction items with
  | nil => exact member
  | cons first items ih =>
    rw [firstById, List.mem_cons] at member
    obtain rfl | later := member
    · exact List.mem_cons_self
    · exact List.mem_cons_of_mem _ (ih (List.mem_filter.mp later).1)

theorem firstById_eq_nil {items : List Json} : firstById items = [] ↔ items = [] := by
  cases items with
  | nil => exact iff_of_true rfl rfl
  | cons item items => exact iff_of_false (List.cons_ne_nil _ _) (List.cons_ne_nil _ _)

theorem valueOf_errorResult {key : String} (other : key ≠ "error") (text : String) : valueOf key (errorResult text) = none := by
  have read : readObject (errorResult text) = some (.of [("error", .str text)]) := rfl
  rw [valueOf, read, Option.bind_some, Dict.getElem?_of_eq_none]
  rw [List.map_singleton, List.mem_singleton]
  exact other

theorem itemsOf_eq_nil {key : String} {result : Json} (none : valueOf key result = .none) : itemsOf key result = [] := by
  rw [itemsOf, none]

/-- The items of a result join those that are held. -/
theorem gather_eq {key : String} {result : Json} {record : Dict Json} {seen : List Json}
    (read : readObject result = some record) (listed : Listed key record) :
    gather key record (firstById seen, (firstById seen).map idOf) =
      some (firstById (seen ++ itemsOf key result), (firstById (seen ++ itemsOf key result)).map idOf) := by
  have value : valueOf key result = record[key]? := by rw [valueOf, read, Option.bind_some]
  rw [gather, itemsOf, value]
  cases found : record[key]? with
  | none => rw [List.append_nil]
  | some given =>
    obtain ⟨items, rfl, identified⟩ := listed given found
    dsimp only
    rw [addUnique_eq identified, firstById_append]

/-- What a turn holds after some items have been returned. -/
structure Gathered (turn : Turn) (seenNodes seenEdges : List Json) : Prop where
  nodes : (turn.nodes, turn.nodeIds) = (firstById seenNodes, (firstById seenNodes).map idOf)
  edges : (turn.edges, turn.edgeIds) = (firstById seenEdges, (firstById seenEdges).map idOf)
  identified : ∀ item ∈ seenNodes ++ seenEdges, ∃ record id, readObject item = some record ∧ record["id"]? = some id
  form : ∀ form, turn.pendingForm = some form → "nodes" ∉ form ∧ "edges" ∉ form

/-- Every result that is a dict is a tidy one. -/
def TidyResult (result : Json) : Prop := ∀ record, readObject result = some record → Tidy record

theorem identified_of_listed {key : String} {result : Json} {record : Dict Json} (read : readObject result = some record)
    (listed : Listed key record) :
    ∀ item ∈ itemsOf key result, ∃ record id, readObject item = some record ∧ record["id"]? = some id := by
  intro item member
  rw [itemsOf, valueOf, read, Option.bind_some] at member
  cases found : record[key]? with
  | none =>
    rw [found] at member
    exact absurd member List.not_mem_nil
  | some given =>
    obtain ⟨items, rfl, identified⟩ := listed given found
    rw [found] at member
    obtain ⟨record, id, read, given, -⟩ := identified item member
    exact ⟨record, id, read, given⟩

theorem Gathered.collect {turn : Turn} {nodes edges : List Json} {result : Json} (gathered : Gathered turn nodes edges)
    (tidy : TidyResult result) : ∃ turn', turn.collect result = some turn' ∧
      Gathered turn' (nodes ++ itemsOf "nodes" result) (edges ++ itemsOf "edges" result) := by
  rw [Turn.collect]
  cases read : readObject result with
  | none =>
    have empty : ∀ key, itemsOf key result = [] := by
      intro key
      rw [itemsOf, valueOf, read, Option.bind_none]
    refine ⟨turn, rfl, ?_⟩
    rw [empty, empty, List.append_nil, List.append_nil]
    exact gathered
  | some record =>
    have tidy := tidy record read
    dsimp only
    rw [gathered.nodes, gather_eq read tidy.nodes, Option.bind_some, gathered.edges, gather_eq read tidy.edges,
      Option.bind_some, if_neg (by rw [tidy.action]; exact Bool.noConfusion)]
    have identified : ∀ item ∈ (nodes ++ itemsOf "nodes" result) ++ (edges ++ itemsOf "edges" result),
        ∃ record id, readObject item = some record ∧ record["id"]? = some id := by
      intro item member
      rw [List.mem_append, List.mem_append, List.mem_append] at member
      obtain (old | new) | old | new := member
      · exact gathered.identified item (List.mem_append_left _ old)
      · exact identified_of_listed read tidy.nodes item new
      · exact gathered.identified item (List.mem_append_right _ old)
      · exact identified_of_listed read tidy.edges item new
    split
    · rename_i form
      refine ⟨_, rfl, rfl, rfl, identified, ?_⟩
      intro form' same
      cases same
      exact tidy.form form
    · split
      · exact ⟨_, rfl, rfl, rfl, identified, gathered.form⟩
      · exact ⟨_, rfl, rfl, rfl, identified, gathered.form⟩

theorem idsOf_eq {items : List Json}
    (identified : ∀ item ∈ items, ∃ record id, readObject item = some record ∧ record["id"]? = some id) :
    idsOf items = items.map idOf := by
  induction items with
  | nil => rfl
  | cons item items ih =>
    obtain ⟨⟨record, id, read, found⟩, rest⟩ := List.forall_mem_cons.mp identified
    have same : idOf item = id := (idOf_eq read).trans (Dict.get_eq_of_getElem? found)
    rw [idsOf, List.filterMap_cons, read, Option.bind_some, found, List.map_cons, same, ← ih rest, idsOf]

theorem Gathered.newRound {turn : Turn} {nodes edges : List Json} (gathered : Gathered turn nodes edges) :
    Gathered turn.newRound nodes edges := by
  have heldNodes : turn.nodes = firstById nodes := congrArg Prod.fst gathered.nodes
  have heldEdges : turn.edges = firstById edges := congrArg Prod.fst gathered.edges
  refine ⟨?_, ?_, gathered.identified, gathered.form⟩
  · have ids : idsOf (firstById nodes) = (firstById nodes).map idOf := idsOf_eq fun item member =>
      gathered.identified item (List.mem_append_left _ (mem_of_mem_firstById member))
    rw [Turn.newRound, heldNodes, ids]
  · have ids : idsOf (firstById edges) = (firstById edges).map idOf := idsOf_eq fun item member =>
      gathered.identified item (List.mem_append_right _ (mem_of_mem_firstById member))
    rw [Turn.newRound, heldEdges, ids]

/-- The tool uses that were handled before stay in front. -/
theorem calls_subset {p : Processor World} {allowlist : Option (List String)} {uses : List (Dict Json)} {world : World}
    {turn : Turn} {calls : List Call} {call : Call} (member : call ∈ calls) :
    call ∈ (p.useTools allowlist uses world turn calls).2.2 := by
  induction uses generalizing world turn calls with
  | nil => exact member
  | cons toolUse uses ih =>
    rw [Processor.useTools]
    split
    · exact member
    · split
      · exact List.mem_append_left _ member
      · exact ih (List.mem_append_left _ member)

/-- Whether a tool use was executed, and that it answers with an error where it was not. -/
def Settled (p : Processor World) (allowlist : Option (List String)) (call : Call) : Prop :=
  (call.verdict = .executed ↔ blocks allowlist call.name = false ∧ p.Available call.name) ∧
    (call.verdict ≠ .executed → ∃ text, call.result = errorResult text)

/-- A round handles its tool uses one after the other and gathers what they return. -/
theorem useTools_spec {p : Processor World} {allowlist : Option (List String)} {uses : List (Dict Json)}
    (orderly : ∀ toolUse ∈ uses, Orderly p allowlist toolUse) {world : World} {turn : Turn} {calls : List Call}
    {nodes edges : List Json} (gathered : Gathered turn nodes edges)
    (tidy : ∀ call ∈ (p.useTools allowlist uses world turn calls).2.2, TidyResult call.result) :
    ∃ turn' new, (p.useTools allowlist uses world turn calls).2 = (some turn', calls ++ new) ∧
      new.map Call.toolUse = uses ∧ (∀ call ∈ new, Settled p allowlist call) ∧
      Gathered turn' (nodes ++ new.flatMap fun call => itemsOf "nodes" call.result)
        (edges ++ new.flatMap fun call => itemsOf "edges" call.result) := by
  induction uses generalizing world turn calls nodes edges with
  | nil =>
    refine ⟨turn, [], by rw [Processor.useTools, List.append_nil], rfl, fun _ no => absurd no List.not_mem_nil, ?_⟩
    rw [List.flatMap_nil, List.flatMap_nil, List.append_nil, List.append_nil]
    exact gathered
  | cons toolUse uses ih =>
    obtain ⟨first, rest⟩ := List.forall_mem_cons.mp orderly
    obtain ⟨world', call, run, used, settled, error⟩ := runTool_spec first world
    obtain ⟨turn', collected, gathered'⟩ : ∃ turn', (if call.verdict = .blocked then some turn else turn.collect call.result) =
        some turn' ∧ Gathered turn' (nodes ++ itemsOf "nodes" call.result) (edges ++ itemsOf "edges" call.result) := by
      by_cases blocked : call.verdict = .blocked
      · obtain ⟨text, result⟩ := error (by rw [blocked]; exact fun no => (by cases no))
        refine ⟨turn, if_pos blocked, ?_⟩
        rw [result, itemsOf_eq_nil (valueOf_errorResult (by decide) text), itemsOf_eq_nil (valueOf_errorResult (by decide) text),
          List.append_nil, List.append_nil]
        exact gathered
      · rw [if_neg blocked]
        refine gathered.collect (tidy call ?_)
        rw [Processor.useTools, run]
        dsimp only
        rw [if_neg blocked]
        cases turn.collect call.result with
        | none => exact List.mem_append_right _ List.mem_cons_self
        | some turn' => exact calls_subset (List.mem_append_right _ List.mem_cons_self)
    rw [Processor.useTools, run] at tidy ⊢
    dsimp only at tidy ⊢
    rw [collected] at tidy ⊢
    obtain ⟨turn'', new, done, news, settledNew, gathered''⟩ := ih rest gathered' tidy
    refine ⟨turn'', call :: new, ?_, ?_, ?_, ?_⟩
    · rw [done, List.append_assoc, List.singleton_append]
    · rw [List.map_cons, used, news]
    · exact List.forall_mem_cons.mpr ⟨⟨settled, error⟩, settledNew⟩
    · rw [List.flatMap_cons, List.flatMap_cons, ← List.append_assoc, ← List.append_assoc]
      exact gathered''

/-! ### The final result -/

@[simp] theorem valueOf_ofDict (key : String) (d : Dict Json) : valueOf key (ofDict d) = d[key]? := by
  rw [valueOf, readObject_ofDict, Option.bind_some]

theorem getElem?_insert_of_ne {d : Dict Json} {key other : String} (differ : key ≠ other) (value : Json) :
    (d.insert key value)[other]? = d[other]? := by
  rw [Std.ExtTreeMap.getElem?_insert, if_neg fun same => differ (Std.LawfulEqCmp.compare_eq_iff_eq.mp same)]

/-- What was gathered stands in the final result, unless nothing was. -/
theorem holds_gathered (turn : Turn) {last : Json}
    (none : turn.nodes = [] → turn.edges = [] → Holds last "nodes" [] ∧ Holds last "edges" []) :
    Holds ({ turn with pendingForm := Option.none }.finalToolResult last) "nodes" turn.nodes ∧
      Holds ({ turn with pendingForm := Option.none }.finalToolResult last) "edges" turn.edges := by
  rw [Turn.finalToolResult]
  dsimp only
  by_cases nodes : turn.nodes = []
  · by_cases edges : turn.edges = []
    · rw [if_pos ⟨nodes, edges⟩, nodes, edges]
      exact none nodes edges
    · rw [if_neg fun both => edges both.2, if_pos nodes, if_neg edges]
      constructor
      · refine .inr ⟨?_, nodes⟩
        rw [valueOf_ofDict, getElem?_insert_of_ne (by decide), getElem?_insert_of_ne (by decide)]
        rfl
      · refine .inl ?_
        rw [valueOf_ofDict, getElem?_insert_of_ne (by decide), Std.ExtTreeMap.getElem?_insert_self]
  · rw [if_neg fun both => nodes both.1, if_neg nodes]
    by_cases edges : turn.edges = []
    · rw [if_pos edges]
      constructor
      · refine .inl ?_
        rw [valueOf_ofDict, getElem?_insert_of_ne (by decide), Std.ExtTreeMap.getElem?_insert_self]
      · refine .inr ⟨?_, edges⟩
        rw [valueOf_ofDict, getElem?_insert_of_ne (by decide), getElem?_insert_of_ne (by decide)]
        rfl
    · rw [if_neg edges]
      constructor
      · refine .inl ?_
        rw [valueOf_ofDict, getElem?_insert_of_ne (by decide), getElem?_insert_of_ne (by decide),
          Std.ExtTreeMap.getElem?_insert_self]
      · refine .inl ?_
        rw [valueOf_ofDict, getElem?_insert_of_ne (by decide), Std.ExtTreeMap.getElem?_insert_self]

/-- A form that has nothing under a key leaves what stands there. -/
theorem valueOf_overlay {result : Json} {form : Dict Json} {key : String} (absent : key ∉ form) :
    (match readObject result with
      | some result => result ∪ form
      | none => form)[key]? = valueOf key result := by
  have missing : form[key]? = none := Std.ExtTreeMap.getElem?_eq_none absent
  rw [valueOf]
  cases readObject result with
  | none => exact missing
  | some record => rw [Std.ExtTreeMap.getElem?_union, missing, Option.none_or, Option.bind_some]

/-- What stands in a form stands in what the form is laid over. -/
theorem getElem?_overlay {result : Json} {form : Dict Json} {key : String} {value : Json} (found : form[key]? = some value) :
    (match readObject result with
      | some result => result ∪ form
      | none => form)[key]? = some value := by
  cases readObject result with
  | none => exact found
  | some record => rw [Std.ExtTreeMap.getElem?_union, found, Option.some_or]

theorem finalToolResult_holds {turn : Turn} {last : Json}
    (none : turn.nodes = [] → turn.edges = [] → Holds last "nodes" [] ∧ Holds last "edges" [])
    (form : ∀ form, turn.pendingForm = some form → "nodes" ∉ form ∧ "edges" ∉ form) :
    Holds (turn.finalToolResult last) "nodes" turn.nodes ∧ Holds (turn.finalToolResult last) "edges" turn.edges := by
  have gathered := holds_gathered turn none
  cases pending : turn.pendingForm with
  | none =>
    have same : { turn with pendingForm := Option.none } = turn := by rw [← pending]
    rw [same] at gathered
    exact gathered
  | some given =>
    obtain ⟨noNodes, noEdges⟩ := form given pending
    have kept : ∀ key, key ∉ given → "extra_actions" ≠ key →
        valueOf key (turn.finalToolResult last) = valueOf key ({ turn with pendingForm := Option.none }.finalToolResult last) := by
      intro key absent other
      rw [Turn.finalToolResult, pending, Turn.finalToolResult]
      dsimp only
      rw [valueOf_ofDict, ← valueOf_overlay absent]
      split
      · rfl
      · exact getElem?_insert_of_ne other _
    rw [Holds, Holds, kept "nodes" noNodes (by decide), kept "edges" noEdges (by decide)]
    exact gathered

/-! ### Whole requests -/

/-- What every reply of an orderly request keeps. -/
structure Lawful (p : Processor World) (allowlist : Option (List String)) (s : State World) : Prop where
  handled : s.calls.map Call.toolUse = s.asked
  settled : ∀ call ∈ s.calls, Settled p allowlist call
  defined : ∀ toolUse ∈ s.asked, Orderly p allowlist toolUse
  answered : ∀ before content after, s.messages = before ++ .assistant content :: after →
    ∃ results rest, after = .toolResults results :: rest ∧
      results.map Prod.fst = (toolUses content).map fun toolUse => toolUse.get "id"
  gathered : Gathered s.turn (s.calls.flatMap fun call => itemsOf "nodes" call.result)
    (s.calls.flatMap fun call => itemsOf "edges" call.result)
  fresh : s.phase = .active none → s.calls = []
  last : ∀ call, s.phase = .active (some call) → call ∈ s.calls
  ended : ∀ outcome, s.phase = .ended outcome →
    Holds outcome.toolResult "nodes" s.turn.nodes ∧ Holds outcome.toolResult "edges" s.turn.edges

def TidyCalls (s : State World) : Prop := ∀ call ∈ s.calls, TidyResult call.result

theorem holds_of_tidy {key : String} {result : Json} (listed : ∀ record, readObject result = some record → Listed key record)
    (empty : itemsOf key result = []) : Holds result key [] := by
  cases read : readObject result with
  | none => exact .inr ⟨by rw [valueOf, read, Option.bind_none], rfl⟩
  | some record =>
    have value : valueOf key result = record[key]? := by rw [valueOf, read, Option.bind_some]
    cases found : record[key]? with
    | none => exact .inr ⟨value.trans found, rfl⟩
    | some given =>
      obtain ⟨items, rfl, -⟩ := listed record read given found
      rw [itemsOf, value, found] at empty
      dsimp only at empty
      subst empty
      exact .inl (value.trans found)

section Requests

variable {p : Processor World} {allowlist : Option (List String)} {s t : State World}

theorem Lawful.nodes (lawful : Lawful p allowlist s) :
    s.turn.nodes = firstById (s.calls.flatMap fun call => itemsOf "nodes" call.result) :=
  congrArg Prod.fst lawful.gathered.nodes

theorem Lawful.edges (lawful : Lawful p allowlist s) :
    s.turn.edges = firstById (s.calls.flatMap fun call => itemsOf "edges" call.result) :=
  congrArg Prod.fst lawful.gathered.edges

/-- The result of a tool use has nothing under a key where nothing was gathered. -/
theorem Lawful.lastHolds (lawful : Lawful p allowlist s) (tidy : TidyCalls s) {call : Call} (member : call ∈ s.calls)
    (nodes : s.turn.nodes = []) (edges : s.turn.edges = []) :
    Holds call.result "nodes" [] ∧ Holds call.result "edges" [] := by
  have noNodes := firstById_eq_nil.mp (lawful.nodes.symm.trans nodes)
  have noEdges := firstById_eq_nil.mp (lawful.edges.symm.trans edges)
  rw [List.flatMap_eq_nil_iff] at noNodes noEdges
  exact ⟨holds_of_tidy (fun record read => (tidy call member record read).nodes) (noNodes call member),
    holds_of_tidy (fun record read => (tidy call member record read).edges) (noEdges call member)⟩

theorem Lawful.handleToolUse (lawful : Lawful p allowlist s) {content : List Json} (some : toolUses content ≠ [])
    (orderly : ∀ toolUse ∈ toolUses content, Orderly p allowlist toolUse)
    (tidy : TidyCalls (p.handleToolUse allowlist content s)) : Lawful p allowlist (p.handleToolUse allowlist content s) := by
  rw [Processor.handleToolUse, if_neg some] at tidy ⊢
  have tidyNew : ∀ call ∈ (p.useTools allowlist (toolUses content) s.world s.turn.newRound []).2.2, TidyResult call.result := by
    intro call member
    refine tidy call ?_
    dsimp only
    split <;> exact List.mem_append_right _ member
  obtain ⟨turn, new, done, news, settled, gathered⟩ := useTools_spec orderly lawful.gathered.newRound tidyNew
  rw [List.nil_append] at done
  generalize p.useTools allowlist (toolUses content) s.world s.turn.newRound [] = out at done
  obtain ⟨world, turn?, calls⟩ := out
  cases done
  dsimp only
  have exists_last : new ≠ [] := fun none => some (news.symm.trans (by rw [none]; rfl))
  refine ⟨?_, ?_, ?_, ?_, ?_, ?_, ?_, fun outcome no => (by cases no)⟩
  · rw [List.map_append, lawful.handled, news]
  · intro call member
    obtain old | new := List.mem_append.mp member
    · exact lawful.settled call old
    · exact settled call new
  · intro toolUse member
    obtain old | new := List.mem_append.mp member
    · exact lawful.defined toolUse old
    · exact orderly toolUse new
  · intro before content' after split
    have twice : (s.messages ++ [.assistant content]) ++ [.toolResults (new.map fun call =>
        (call.toolUse.get "id", p.dumps call.result))] = before ++ .assistant content' :: after := by
      rw [List.append_assoc]
      exact split
    obtain ⟨-, no, -⟩ | ⟨rest, rfl, once⟩ := concat_eq_append_cons twice
    · cases no
    · obtain ⟨-, same, rfl⟩ | ⟨rest', rfl, earlier⟩ := concat_eq_append_cons once
      · cases same
        refine ⟨_, [], rfl, ?_⟩
        rw [List.map_map, ← news, List.map_map]
        rfl
      · obtain ⟨results, others, rfl, ids⟩ := lawful.answered before content' rest' earlier
        exact ⟨results, _, rfl, ids⟩
  · rw [List.flatMap_append, List.flatMap_append]
    exact gathered
  · intro none
    have last : new.getLast? = .none := Phase.active.inj none
    exact absurd (List.getLast?_eq_none_iff.mp last) exists_last
  · intro call last
    have last : new.getLast? = .some call := Phase.active.inj last
    exact List.mem_append_right _ (List.mem_of_getLast? last)

/-- A request that ends without a result has none to lose. -/
theorem Lawful.fail (lawful : Lawful p allowlist s) (idle : s.Idle) {outcome : Outcome} (none : outcome.toolResult = .null) :
    Lawful p allowlist { s with phase := .ended outcome } := by
  refine ⟨lawful.handled, lawful.settled, lawful.defined, lawful.answered, lawful.gathered,
    fun no => (by cases no), fun _ no => (by cases no), ?_⟩
  intro outcome' ended
  cases ended
  rw [none]
  exact ⟨.inr ⟨rfl, idle.1⟩, .inr ⟨rfl, idle.2⟩⟩

theorem Lawful.receive (lawful : Lawful p allowlist s) {reply : Reply} (orderly : reply.Orderly p allowlist s)
    (taken : p.receive allowlist s reply = some (t, ())) (tidy : TidyCalls t) : Lawful p allowlist t := by
  rw [Processor.receive] at taken
  cases phase : s.phase with
  | ended outcome =>
    rw [phase] at taken
    cases taken
  | active last =>
    rw [phase] at taken
    cases reply with
    | raised =>
      cases taken
      exact lawful.fail orderly rfl
    | response content stopReason =>
      rw [Reply.Orderly] at orderly
      dsimp only at taken
      split at taken
      · rename_i chained
        rw [if_pos chained] at orderly
        cases taken
        by_cases none : toolUses content = []
        · rw [Processor.handleToolUse, if_pos none]
          exact lawful.fail (orderly.1 none) rfl
        · exact lawful.handleToolUse none orderly.2 tidy
      · rename_i stopped
        rw [if_neg stopped] at orderly
        split at taken
        · rename_i noText
          cases taken
          exact lawful.fail (orderly noText) rfl
        · cases taken
          refine ⟨lawful.handled, lawful.settled, lawful.defined, lawful.answered, lawful.gathered,
            fun no => (by cases no), fun _ no => (by cases no), ?_⟩
          intro outcome ended
          cases ended
          cases last with
          | none =>
            have calls := lawful.fresh phase
            rw [lawful.nodes, lawful.edges, calls]
            exact ⟨.inr ⟨rfl, rfl⟩, .inr ⟨rfl, rfl⟩⟩
          | some call =>
            have member := lawful.last call phase
            exact finalToolResult_holds (lawful.lastHolds tidy member) lawful.gathered.form

theorem receive_calls {reply : Reply} (taken : p.receive allowlist s reply = some (t, ())) : s.calls ⊆ t.calls := by
  rw [Processor.receive] at taken
  split at taken
  · cases taken
  · split at taken
    · cases taken
      exact List.Subset.refl _
    · split at taken
      · cases taken
        rw [Processor.handleToolUse]
        split
        · exact List.Subset.refl _
        · dsimp only
          split <;> exact List.subset_append_left _ _
      · split at taken <;> cases taken <;> exact List.Subset.refl _

theorem lawful_of_run {world : World} {history : List (Reply × Unit)}
    (run : Run (p.receive allowlist) (fun _ s reply => reply.Orderly p allowlist s) { world } history s) (tidy : TidyCalls s) :
    Lawful p allowlist s := by
  refine run.invariant (fun _ s => TidyCalls s → Lawful p allowlist s) ?_ ?_ tidy
  · intro _
    refine ⟨rfl, fun _ no => absurd no List.not_mem_nil, fun _ no => absurd no List.not_mem_nil, ?_, ⟨rfl, rfl, ?_, ?_⟩,
      fun _ => rfl, fun _ no => (by cases no), fun _ no => (by cases no)⟩
    · intro before content after no
      exact absurd no.symm (List.append_ne_nil_of_right_ne_nil before (List.cons_ne_nil _ _))
    · exact fun _ no => absurd no List.not_mem_nil
    · exact fun _ no => (by cases no)
  · intro history s reply t output lawful orderly taken tidy
    exact (lawful fun call member => tidy call (receive_calls taken member)).receive orderly taken tidy

/-- The executed tools have returned what all tool uses have: the others answer with an error. -/
theorem returned_eq {key : String} (other : key ≠ "error") (settled : ∀ call ∈ s.calls, Settled p allowlist call) :
    s.returned key = s.calls.flatMap fun call => itemsOf key call.result := by
  rw [State.returned]
  generalize s.calls = calls at settled
  induction calls with
  | nil => rfl
  | cons call calls ih =>
    obtain ⟨first, rest⟩ := List.forall_mem_cons.mp settled
    rw [List.filter_cons, List.flatMap_cons]
    split
    · rw [List.flatMap_cons, ih rest]
    · rename_i held
      obtain ⟨text, result⟩ := first.2 fun yes => held (decide_eq_true yes)
      rw [result, itemsOf_eq_nil (valueOf_errorResult other text), List.nil_append, ih rest]

/-- A name that is advertised passes the gate, unless the allowlist is empty. -/
theorem blocks_of_advertised (restricted : allowlist ≠ some []) {name : Json} (advertised : name ∈ p.advertised allowlist) :
    blocks allowlist name = false := by
  cases allowlist with
  | none => rfl
  | some allowed =>
    have given : p.selectToolDefinitions (some allowed) =
        p.toolDefinitions.filter fun t => (t.get "name").isIdIn allowed := by
      cases allowed with
      | nil => exact absurd rfl restricted
      | cons first rest => rfl
    obtain ⟨t, member, rfl⟩ := List.mem_map.mp advertised
    rw [given] at member
    rw [blocks, (List.mem_filter.mp member).2]
    rfl

end Requests

/-! ### Tools that return tidy results -/

section TidyTools

variable {p : Processor World} {allowlist : Option (List String)}

/-- Every function that is called as a tool returns tidy results. -/
def Processor.TidyTools (p : Processor World) : Prop :=
  ∀ name f, p.effectiveTools name = some f → ∀ args world result, (f.call args world).2 = .ok result → TidyResult result

theorem tidy_of_action {record : Dict Json} (nodes : "nodes" ∉ record) (edges : "edges" ∉ record)
    (action : (record.get "action").hashable = true) : Tidy record where
  nodes value found := by
    rw [Std.ExtTreeMap.getElem?_eq_none nodes] at found
    cases found
  edges value found := by
    rw [Std.ExtTreeMap.getElem?_eq_none edges] at found
    cases found
  action := action
  form _ := ⟨nodes, edges⟩

theorem tidy_errorResult (text : String) : TidyResult (errorResult text) := by
  intro record read
  have same : Dict.of [("error", .str text)] = record := Option.some.inj read
  have absent : ∀ key : String, key ≠ "error" → record[key]? = none := by
    intro key other
    rw [← same, Dict.getElem?_of_eq_none]
    rw [List.map_singleton, List.mem_singleton]
    exact other
  have outside : ∀ key : String, key ≠ "error" → key ∉ record := fun key other member => by
    rw [Std.ExtTreeMap.mem_iff_isSome_getElem?, absent key other] at member
    cases member
  refine tidy_of_action (outside _ (by decide)) (outside _ (by decide)) ?_
  rw [Dict.get, absent "action" (by decide)]
  rfl

/-- A dict display of which every key is known. -/
theorem tidy_display {entries : List (String × Json)} (distinct : (entries.map Prod.fst).Nodup)
    (nodes : "nodes" ∉ entries.map Prod.fst) (edges : "edges" ∉ entries.map Prod.fst)
    (here : (∃ action, ("action", action) ∈ entries ∧ action.hashable = true) ∨ "action" ∉ entries.map Prod.fst) :
    Tidy (.of entries) := by
  have outside : ∀ key : String, key ∉ entries.map Prod.fst → key ∉ Dict.of entries := fun key absent member => by
    rw [Std.ExtTreeMap.mem_iff_isSome_getElem?, Dict.getElem?_of_eq_none absent] at member
    cases member
  refine tidy_of_action (outside _ nodes) (outside _ edges) ?_
  rw [Dict.get]
  obtain ⟨action, member, hashable⟩ | absent := here
  · rw [Dict.getElem?_of distinct member]
    exact hashable
  · rw [Dict.getElem?_of_eq_none absent]
    rfl

theorem tidy_helperResult {name : String} {input : Json} {result : Dict Json}
    (answered : helperResult name input = some result) : Tidy result := by
  rw [helperResult] at answered
  split at answered
  · cases answered
    exact tidy_display (by decide) (by decide) (by decide) (.inl ⟨_, List.mem_cons_self, rfl⟩)
  · obtain ⟨record, -, rfl⟩ := Option.map_eq_some_iff.mp answered
    split
    · exact tidy_display (by simp) (by simp) (by simp) (.inr (by simp))
    · split
      · exact tidy_display (by simp) (by simp) (by simp) (.inl ⟨_, List.mem_cons_self, rfl⟩)
      · exact tidy_display (by simp) (by simp) (by simp) (.inl ⟨_, List.mem_cons_self, rfl⟩)

theorem runTool_tidy (tools : p.TidyTools) {toolUse : Dict Json} {world world' : World} {call : Call}
    (run : p.runTool allowlist toolUse world = some (world', call)) : TidyResult call.result := by
  rw [Processor.runTool] at run
  dsimp only at run
  split at run
  · cases run
    exact tidy_errorResult _
  · split at run
    · split at run <;> cases run
      exact tidy_errorResult _
    · split at run
      · obtain ⟨result, answered, same⟩ := Option.map_eq_some_iff.mp run
        cases same
        intro record read
        rw [readObject_ofDict] at read
        cases read
        exact tidy_helperResult answered
      · split at run
        · cases run
          exact tidy_errorResult _
        · rename_i f found
          split at run
          · cases run
            exact tidy_errorResult _
          · cases run
            dsimp only
            split
            · rename_i result returned
              exact tools _ f found _ _ result returned
            · exact tidy_errorResult _

theorem useTools_tidy (tools : p.TidyTools) (uses : List (Dict Json)) (world : World) (turn : Turn) {calls : List Call}
    (tidy : ∀ call ∈ calls, TidyResult call.result) :
    ∀ call ∈ (p.useTools allowlist uses world turn calls).2.2, TidyResult call.result := by
  induction uses generalizing world turn calls with
  | nil => exact tidy
  | cons toolUse uses ih =>
    rw [Processor.useTools]
    split
    · exact tidy
    · rename_i world' call run
      have grown : ∀ other ∈ calls ++ [call], TidyResult other.result := by
        intro other member
        obtain old | new := List.mem_append.mp member
        · exact tidy other old
        · rw [List.mem_singleton.mp new]
          exact runTool_tidy tools run
      split
      · exact grown
      · exact ih _ _ grown

theorem receive_tidy (tools : p.TidyTools) {s t : State World} {reply : Reply} (tidy : TidyCalls s)
    (taken : p.receive allowlist s reply = some (t, ())) : TidyCalls t := by
  rw [Processor.receive] at taken
  split at taken
  · cases taken
  · split at taken
    · cases taken
      exact tidy
    · split at taken
      · cases taken
        rw [Processor.handleToolUse]
        split
        · exact tidy
        · rename_i content _ _ _
          have new : ∀ call ∈ (p.useTools allowlist (toolUses content) s.world s.turn.newRound []).2.2,
              TidyResult call.result :=
            useTools_tidy tools _ _ _ fun _ no => absurd no List.not_mem_nil
          dsimp only
          split
          all_goals
            intro call member
            obtain old | later := List.mem_append.mp member
            · exact tidy call old
            · exact new call later
      · split at taken <;> cases taken <;> exact tidy

/-- Where the tools return tidy results, every result of a run is one. -/
theorem tidyCalls_of_run (tools : p.TidyTools) {allowed : List (Reply × Unit) → State World → Reply → Prop} {world : World}
    {history : List (Reply × Unit)} {s : State World} (run : Run (p.receive allowlist) allowed { world } history s) :
    TidyCalls s := by
  refine run.invariant (fun _ s => TidyCalls s) (fun _ no => absurd no List.not_mem_nil) ?_
  intro history s reply t output tidy _ taken
  exact receive_tidy tools tidy taken

end TidyTools

/-- A processor that knows only how to clear the view. -/
private def sampleProcessor : Processor Unit where
  toolDefinitions := [.of [("name", .str "clear_visualization")]]
  toolsMap _ := none
  toolsOverride _ := none
  str _ := ""
  dumps _ := ""
  noItems _ := ""

private def sampleUse : List (String × Json) :=
  [("type", .str "tool_use"), ("id", .str "1"), ("name", .str "clear_visualization"), ("input", .obj [])]

private def sampleReply : Reply := .response [.obj sampleUse] "tool_use"

private theorem sample_toolUses : toolUses [.obj sampleUse] = [.of sampleUse] := by
  have type : (Dict.of sampleUse).get "type" = .str "tool_use" :=
    Dict.get_eq_of_getElem? (Dict.getElem?_of (by decide) List.mem_cons_self)
  rw [toolUses, blocksOf]
  have read : List.filterMap readObject [.obj sampleUse] = [.of sampleUse] := rfl
  rw [read, List.filter_cons, if_pos (decide_eq_true type), List.filter_nil]

private theorem sampleUse_get {key : String} {value : Json} (member : (key, value) ∈ sampleUse) :
    (Dict.of sampleUse).get key = value :=
  Dict.get_eq_of_getElem? (Dict.getElem?_of (by decide) member)

private theorem sample_advertised (allowed : Option (List String)) (unrestricted : allowed = none ∨ allowed = some []) :
    Json.str "clear_visualization" ∈ sampleProcessor.advertised allowed := by
  have name : (Dict.of [("name", Json.str "clear_visualization")]).get "name" = .str "clear_visualization" :=
    Dict.get_eq_of_getElem? (Dict.getElem?_of (by decide) List.mem_cons_self)
  have all : sampleProcessor.selectToolDefinitions allowed = sampleProcessor.toolDefinitions := by
    obtain rfl | rfl := unrestricted <;> rfl
  rw [Processor.advertised, all, sampleProcessor, List.map_singleton, name]
  exact List.mem_cons_self

end MetadataGraph.Chat
