import MetadataGraph.Chat.Loop

namespace MetadataGraph.Chat

open Runs MetadataGraph.Graph

variable {World : Type}

def actionOf (result : Dict Json) : Json := result.get "action"

/-- The actions that do not place any nodes. -/
def overlayActions : List String := ["mark_nodes", "save_view", "start_guide", "present_form"]

/-- The actions that place nodes in the view. -/
def explicitActions : List String :=
  ["add_to_visualization", "replace_visualization", "load_visualization", "update_in_visualization"]

def isForm (result : Dict Json) : Bool := actionOf result = .str "present_form"

def isClear (result : Dict Json) : Bool := actionOf result = .str "clear_visualization"

/-- The dicts that the tools of some calls have returned, in their order. -/
def returnedDicts (calls : List Call) : List (Dict Json) :=
  (calls.filter fun call => call.verdict = .executed).filterMap fun call => readObject call.result

def State.results (s : State World) : List (Dict Json) := returnedDicts s.calls

def lastExplicit (results : List (Dict Json)) : Option Json :=
  ((results.map actionOf).filter fun action => action.isIdIn explicitActions).getLast?

/-- A result stands in the final one with all that it says, or among the extra actions. -/
def Presents (final : Json) (result : Dict Json) : Prop :=
  ∃ shown, readObject final = some shown ∧
    ((∀ (key : String) (value : Json), result[key]? = some value → shown[key]? = some value) ∨
      ∃ extras, shown["extra_actions"]? = some (.arr extras) ∧ ofDict result ∈ extras)

/-- An action is that of the final result or of an extra one. -/
def Shows (final action : Json) : Prop :=
  ∃ shown, readObject final = some shown ∧ (actionOf shown = action ∨
    ∃ extras, shown["extra_actions"]? = some (.arr extras) ∧ ∃ extra, ofDict extra ∈ extras ∧ actionOf extra = action)

/-- The client adds the nodes of a result to its view, unless the action is one of these. -/
def PlacesAdditively (final : Json) : Prop :=
  ∃ shown, readObject final = some shown ∧ ∀ action ∈ ["save_view", "save_visualization", "clear_visualization",
    "load_visualization", "replace_visualization", "update_in_visualization", "mark_nodes", "start_guide"],
      actionOf shown ≠ .str action

/-- No visual action is lost. -/
structure ActionsKept (s : State World) (final : Json) : Prop where
  overlays : ∀ result ∈ s.results, (actionOf result).isIdIn overlayActions = true → Presents final result
  clear : ∀ result ∈ s.results, isClear result = true → Shows final (.str "clear_visualization")
  explicit : ∀ action, lastExplicit s.results = some action → Shows final action
  additive : (∀ result ∈ s.results, (actionOf result).isIdIn viewContentActions = false) → s.turn.nodes ≠ [] →
    PlacesAdditively final

/-- With a form: there is only one, it brings no extra actions of its own, and each action besides it
came with a result that has no nodes. -/
structure KeptBesideForm (results : List (Dict Json)) : Prop where
  one : ∀ form ∈ results, isForm form = true → ∀ other ∈ results, isForm other = true → other = form
  extras : ∀ form ∈ results, isForm form = true → "extra_actions" ∉ form
  overlays : ∀ result ∈ results, (actionOf result).isIdIn overlayActions = true → isForm result = false → "nodes" ∉ result
  clear : (∃ result ∈ results, isClear result = true) → ∃ result ∈ results, isClear result = true ∧ "nodes" ∉ result
  explicit : ∀ action, lastExplicit results = some action → ∃ result ∈ results, actionOf result = action ∧ "nodes" ∉ result

/-- With nodes or edges: no action but those that place nodes, and not beside one that clears the view. -/
structure KeptBesideItems (results : List (Dict Json)) : Prop where
  overlays : ∀ result ∈ results, (actionOf result).isIdIn overlayActions = false
  clear : (∃ result ∈ results, isClear result = true) → lastExplicit results = none

/-- With neither: the last tool use has all there is. -/
structure KeptByLast (results : List (Dict Json)) (last : Json) : Prop where
  overlays : ∀ result ∈ results, (actionOf result).isIdIn overlayActions = true → Presents last result
  clear : (∃ result ∈ results, isClear result = true) → Shows last (.str "clear_visualization")
  explicit : ∀ action, lastExplicit results = some action → Shows last action

/-- A request that ends without the result of its tools has nothing to show. -/
structure NothingToShow (s : State World) : Prop where
  overlays : ∀ result ∈ s.results, (actionOf result).isIdIn overlayActions = false
  views : ∀ result ∈ s.results, (actionOf result).isIdIn viewContentActions = false
  nodes : s.turn.nodes = []

/-- The tools of a request have returned what its final result has room for. -/
def HasRoom (s : State World) : Outcome → Prop
  | .answered _ _ _ =>
    if s.results.any isForm then KeptBesideForm s.results
    else if s.turn.nodes ≠ [] ∨ s.turn.edges ≠ [] then KeptBesideItems s.results
    else ∀ last, s.calls.getLast? = some last → KeptByLast s.results last.result
  | _ => NothingToShow s

/-! ### What a turn remembers of the results -/

def isExtra (result : Dict Json) : Bool :=
  (actionOf result).truthy && !isForm result && decide ("nodes" ∉ result)

structure Tracks (turn : Turn) (results : List (Dict Json)) : Prop where
  form : turn.pendingForm = (results.filter isForm).getLast?
  extras : turn.pendingExtraActions = results.filter isExtra
  view : turn.visualizationAction =
    ((results.map actionOf).filter fun action => action.isIdIn viewContentActions).getLast?

theorem getLast?_filter_concat {α : Type} (p : α → Bool) (l : List α) (a : α) :
    ((l ++ [a]).filter p).getLast? = if p a = true then some a else (l.filter p).getLast? := by
  rw [List.filter_append, List.filter_cons, List.filter_nil]
  split
  · exact List.getLast?_concat
  · rw [List.append_nil]

theorem Tracks.concat {turn turn' : Turn} {results : List (Dict Json)} {result : Dict Json} (tracks : Tracks turn results)
    (form : turn'.pendingForm = if isForm result = true then some result else turn.pendingForm)
    (extras : turn'.pendingExtraActions = turn.pendingExtraActions ++ if isExtra result = true then [result] else [])
    (view : turn'.visualizationAction =
      if (actionOf result).isIdIn viewContentActions = true then some (actionOf result) else turn.visualizationAction) :
    Tracks turn' (results ++ [result]) where
  form := by rw [form, getLast?_filter_concat, tracks.form]
  extras := by
    rw [extras, List.filter_append, tracks.extras, List.filter_cons, List.filter_nil]
  view := by
    rw [view, List.map_append, List.map_singleton, tracks.view]
    exact (getLast?_filter_concat (fun action : Json => action.isIdIn viewContentActions) _ _).symm

theorem Tracks.collect {turn turn' : Turn} {results : List (Dict Json)} {result : Json} (tracks : Tracks turn results)
    (collected : turn.collect result = some turn') : Tracks turn' (results ++ (readObject result).toList) := by
  rw [Turn.collect] at collected
  cases read : readObject result with
  | none =>
    rw [read] at collected
    cases collected
    rw [Option.toList_none, List.append_nil]
    exact tracks
  | some record =>
    rw [read] at collected
    dsimp only at collected
    obtain ⟨nodes, -, collected⟩ := Option.bind_eq_some_iff.mp collected
    obtain ⟨edges, -, collected⟩ := Option.bind_eq_some_iff.mp collected
    rw [Option.toList_some]
    split at collected
    · cases collected
    · have isForm_iff : isForm record = true ↔ record.get "action" = .str "present_form" := decide_eq_true_iff
      split at collected
      · rename_i form
        cases collected
        have yes := isForm_iff.mpr form
        refine tracks.concat ?_ ?_ rfl
        · rw [if_pos yes]
        · have without : isExtra record = false := by
            rw [isExtra, yes, Bool.not_true, Bool.and_false, Bool.false_and]
          rw [without, if_neg Bool.false_ne_true, List.append_nil]
      · rename_i other
        have no : isForm record = false := Bool.eq_false_iff.mpr fun yes => other (isForm_iff.mp yes)
        split at collected
        · rename_i pure
          cases collected
          refine tracks.concat ?_ ?_ rfl
          · rw [no, if_neg Bool.false_ne_true]
          · have yes : isExtra record = true := by
              rw [isExtra, no, actionOf, pure.1, decide_eq_true pure.2]
              rfl
            rw [if_pos yes]
        · rename_i impure
          cases collected
          refine tracks.concat ?_ ?_ rfl
          · rw [no, if_neg Bool.false_ne_true]
          · have without : ¬ isExtra record = true := by
              intro yes
              rw [isExtra, Bool.and_eq_true, Bool.and_eq_true] at yes
              exact impure ⟨yes.1.1, of_decide_eq_true yes.2⟩
            rw [if_neg without, List.append_nil]

/-- An error has no action. -/
theorem Tracks.skip {turn : Turn} {results : List (Dict Json)} {text : String}
    (tracks : Tracks turn (results ++ (readObject (errorResult text)).toList)) : Tracks turn results := by
  have read : readObject (errorResult text) = some (.of [("error", .str text)]) := rfl
  have action : actionOf (.of [("error", .str text)]) = .null := by
    rw [actionOf, Dict.get, Dict.getElem?_of_eq_none (by simp)]
    rfl
  have noForm : isForm (.of [("error", .str text)]) = false := by
    rw [isForm, action]
    rfl
  obtain ⟨form, extras, view⟩ := tracks
  rw [read, Option.toList_some] at form extras view
  refine ⟨?_, ?_, ?_⟩
  · rw [form, getLast?_filter_concat, noForm, if_neg Bool.false_ne_true]
  · have noExtra : isExtra (.of [("error", .str text)]) = false := by
      rw [isExtra, action]
      rfl
    rw [extras, List.filter_append, List.filter_cons, noExtra, if_neg Bool.false_ne_true, List.filter_nil, List.append_nil]
  · rw [view, List.map_append, List.map_singleton, action,
      getLast?_filter_concat (fun action : Json => action.isIdIn viewContentActions)]
    rfl

section Requests

variable {p : Processor World} {allowlist : Option (List String)}

theorem runTool_error {toolUse : Dict Json} {world world' : World} {call : Call}
    (run : p.runTool allowlist toolUse world = some (world', call)) (held : call.verdict ≠ .executed) :
    ∃ text, call.result = errorResult text := by
  rw [Processor.runTool] at run
  dsimp only at run
  split at run
  · cases run
    exact ⟨_, rfl⟩
  · split at run
    · split at run <;> cases run
      exact ⟨_, rfl⟩
    · split at run
      · obtain ⟨result, -, same⟩ := Option.map_eq_some_iff.mp run
        cases same
        exact absurd rfl held
      · split at run
        · cases run
          exact ⟨_, rfl⟩
        · split at run
          · cases run
            exact ⟨_, rfl⟩
          · cases run
            exact absurd rfl held

theorem returnedDicts_append (a b : List Call) : returnedDicts (a ++ b) = returnedDicts a ++ returnedDicts b := by
  rw [returnedDicts, List.filter_append, List.filterMap_append]
  rfl

theorem returnedDicts_concat (calls : List Call) (call : Call) : returnedDicts (calls ++ [call]) =
    returnedDicts calls ++ if call.verdict = .executed then (readObject call.result).toList else [] := by
  rw [returnedDicts, List.filter_append, List.filterMap_append, List.filter_cons, List.filter_nil]
  by_cases executed : call.verdict = .executed
  · rw [if_pos executed, if_pos (decide_eq_true executed), List.filterMap_cons, List.filterMap_nil]
    cases readObject call.result <;> rfl
  · rw [if_neg executed, if_neg (by simp [executed])]
    rfl

/-- The turn remembers the results of a round, and one call for each of its tool uses. -/
theorem useTools_tracks {uses : List (Dict Json)} {world : World} {turn turn' : Turn} {calls : List Call}
    {seen : List (Dict Json)} (tracks : Tracks turn (seen ++ returnedDicts calls)) (done : (p.useTools allowlist uses world turn calls).2.1 = some turn') :
    Tracks turn' (seen ++ returnedDicts (p.useTools allowlist uses world turn calls).2.2) ∧
      ∃ new, (p.useTools allowlist uses world turn calls).2.2 = calls ++ new ∧ new.length = uses.length := by
  induction uses generalizing world turn calls with
  | nil =>
    rw [Processor.useTools] at done ⊢
    cases done
    exact ⟨tracks, [], (List.append_nil _).symm, rfl⟩
  | cons toolUse uses ih =>
    rw [Processor.useTools] at done ⊢
    split at done
    · cases done
    · rename_i world' call run
      split at done
      · cases done
      · rename_i grown collected
        have kept : Tracks grown (seen ++ returnedDicts (calls ++ [call])) := by
          rw [returnedDicts_concat, ← List.append_assoc]
          by_cases executed : call.verdict = .executed
          · rw [if_pos executed]
            rw [if_neg (by rw [executed]; exact fun no => (by cases no))] at collected
            exact tracks.collect collected
          · rw [if_neg executed, List.append_nil]
            split at collected
            · cases collected
              exact tracks
            · obtain ⟨text, result⟩ := runTool_error run executed
              rw [result] at collected
              exact (tracks.collect collected).skip
        obtain ⟨last, new, all, length⟩ := ih kept done
        refine ⟨last, call :: new, ?_, ?_⟩
        · rw [all, List.append_assoc, List.singleton_append]
        · rw [List.length_cons, length, List.length_cons]

/-- What a request remembers of its results, and what it answers. -/
structure Recorded (s : State World) : Prop where
  active : ∀ last, s.phase = .active last → Tracks s.turn s.results ∧ s.calls.getLast? = last
  answered : ∀ content used final, s.phase = .ended (.answered content used final) → Tracks s.turn s.results ∧
    ∃ last, s.calls.getLast? = some last ∧ final = s.turn.finalToolResult last.result

theorem Recorded.receive {s t : State World} {reply : Reply} (recorded : Recorded s)
    (taken : p.receive allowlist s reply = some (t, ())) : Recorded t := by
  rw [Processor.receive] at taken
  cases phase : s.phase with
  | ended outcome =>
    rw [phase] at taken
    cases taken
  | active last =>
    obtain ⟨tracks, lastCall⟩ := recorded.active last phase
    have failed : ∀ outcome, outcome.toolResult = .null → (∀ content used final, outcome ≠ .answered content used final) →
        Recorded { s with phase := .ended outcome } := by
      intro outcome _ other
      refine ⟨fun _ no => (by cases no), fun content used final ended => ?_⟩
      exact absurd (Phase.ended.inj ended) (other content used final)
    rw [phase] at taken
    cases reply with
    | raised =>
      cases taken
      exact failed .failed rfl fun _ _ _ no => (by cases no)
    | response content stopReason =>
      dsimp only at taken
      split at taken
      · cases taken
        rw [Processor.handleToolUse]
        split
        · exact failed .noToolUse rfl fun _ _ _ no => (by cases no)
        · rename_i some
          have start : Tracks s.turn.newRound (s.results ++ returnedDicts []) := by
            have none : returnedDicts [] = [] := rfl
            rw [none, List.append_nil]
            exact ⟨tracks.form, tracks.extras, tracks.view⟩
          rcases round : p.useTools allowlist (toolUses content) s.world s.turn.newRound [] with ⟨world, turn?, calls⟩
          cases turn? with
          | none => exact ⟨fun _ no => (by cases no), fun _ _ _ no => (by cases no)⟩
          | some turn =>
            obtain ⟨kept, new, all, length⟩ := useTools_tracks start (by rw [round])
            rw [round] at kept all
            dsimp only at kept all
            have more : calls ≠ [] := by
              rintro rfl
              rw [List.nil_append] at all
              rw [← all] at length
              exact some (List.length_eq_zero_iff.mp length.symm)
            refine ⟨fun last active => ?_, fun _ _ _ no => (by cases no)⟩
            have same : calls.getLast? = last := Phase.active.inj active
            rw [← same, State.results, returnedDicts_append, List.getLast?_append_of_ne_nil _ more]
            exact ⟨kept, rfl⟩
      · split at taken
        · cases taken
          exact failed .failed rfl fun _ _ _ no => (by cases no)
        · cases taken
          cases last with
          | none => exact failed _ rfl fun _ _ _ no => (by cases no)
          | some call =>
            refine ⟨fun _ no => (by cases no), fun content used final ended => ?_⟩
            cases ended
            exact ⟨tracks, call, lastCall, rfl⟩

theorem recorded_of_run {allowed : List (Reply × Unit) → State World → Reply → Prop} {world : World}
    {history : List (Reply × Unit)} {s : State World} (run : Run (p.receive allowlist) allowed { world } history s) :
    Recorded s := by
  refine run.invariant (fun _ s => Recorded s) ?_ ?_
  · refine ⟨fun last active => ?_, fun _ _ _ no => (by cases no)⟩
    cases active
    exact ⟨⟨rfl, rfl, rfl⟩, rfl⟩
  · intro history s reply t output recorded _ taken
    exact recorded.receive taken

end Requests

/-! ### The final result -/

section FinalResult

variable {turn : Turn} {results : List (Dict Json)}

theorem isIdIn_iff {value : Json} {ids : List String} : value.isIdIn ids = true ↔ ∃ id ∈ ids, value = .str id := by
  rw [Json.isIdIn]
  cases value with
  | str id => simp [Json.string?]
  | _ =>
    refine iff_of_false (fun no => (by cases no)) ?_
    rintro ⟨_, _, no⟩
    cases no

/-- An action that is no form's stands among the extra actions, if its result has no nodes. -/
theorem isExtra_of_isIdIn {result : Dict Json} {actions : List String} (nonempty : "" ∉ actions)
    (action : (actionOf result).isIdIn actions = true) (noForm : isForm result = false) (nodes : "nodes" ∉ result) :
    isExtra result = true := by
  obtain ⟨id, member, same⟩ := isIdIn_iff.mp action
  have given : id ≠ "" := fun empty => nonempty (empty ▸ member)
  rw [isExtra, same, noForm, decide_eq_true nodes, Json.truthy, decide_eq_true given]
  rfl

/-- The final result with a form: the form, and the extra actions. -/
theorem finalToolResult_form (last : Json) (tracks : Tracks turn results) {form : Dict Json} (pending : turn.pendingForm = some form)
    (none : "extra_actions" ∉ form) : ∃ shown, readObject (turn.finalToolResult last) = some shown ∧
      (∀ (key : String) (value : Json), form[key]? = some value → shown[key]? = some value) ∧
      ∀ result ∈ results, isExtra result = true → ∃ extras, shown["extra_actions"]? = some (.arr extras) ∧
        ofDict result ∈ extras := by
  rw [Turn.finalToolResult, pending]
  dsimp only
  generalize (if turn.nodes = [] ∧ turn.edges = [] then last else _) = base
  refine ⟨_, readObject_ofDict _, ?_, ?_⟩
  · intro key value found
    split
    · exact getElem?_overlay found
    · rw [getElem?_insert_of_ne]
      · exact getElem?_overlay found
      · rintro rfl
        rw [Std.ExtTreeMap.getElem?_eq_none none] at found
        cases found
  · intro result member extra
    have listed : result ∈ turn.pendingExtraActions := by
      rw [tracks.extras]
      exact List.mem_filter.mpr ⟨member, extra⟩
    rw [if_neg (List.ne_nil_of_mem listed), Std.ExtTreeMap.getElem?_insert_self]
    exact ⟨_, rfl, List.mem_map_of_mem listed⟩

/-- The action of the final result without a form, where nodes or edges were gathered. -/
theorem finalToolResult_items (last : Json) (noForm : turn.pendingForm = none) (items : turn.nodes ≠ [] ∨ turn.edges ≠ []) :
    ∃ shown, readObject (turn.finalToolResult last) = some shown ∧
      actionOf shown = turn.visualizationAction.getD (.str "add_to_visualization") ∧ shown["extra_actions"]? = none := by
  rw [Turn.finalToolResult, noForm]
  dsimp only
  have some : ¬ (turn.nodes = [] ∧ turn.edges = []) := fun none => items.elim (fun no => no none.1) fun no => no none.2
  rw [if_neg some]
  refine ⟨_, readObject_ofDict _, ?_, ?_⟩
  · rw [actionOf, Dict.get, Std.ExtTreeMap.getElem?_insert_self, Option.getD_some]
  · rw [getElem?_insert_of_ne (by decide)]
    split <;> split <;> simp

theorem actionOf_of_getElem? {form shown : Dict Json} {action : String} (given : actionOf form = .str action)
    (kept : ∀ (key : String) (value : Json), form[key]? = some value → shown[key]? = some value) :
    actionOf shown = .str action := by
  have found : form["action"]? = some (form.get "action") := Dict.getElem?_of_get_ne_null (by
    rw [← actionOf, given]
    exact fun no => (by cases no))
  rw [actionOf, Dict.get_eq_of_getElem? (kept _ _ found), ← actionOf, given]

/-- The last form that was presented is there. -/
theorem Tracks.pending (tracks : Tracks turn results) (presented : results.any isForm = true) :
    ∃ form ∈ results, isForm form = true ∧ turn.pendingForm = some form := by
  obtain ⟨result, member, form⟩ := List.any_eq_true.mp presented
  have nonempty : results.filter isForm ≠ [] := List.ne_nil_of_mem (List.mem_filter.mpr ⟨member, form⟩)
  cases found : (results.filter isForm).getLast? with
  | none => exact absurd (List.getLast?_eq_none_iff.mp found) nonempty
  | some last =>
    have inside := List.mem_filter.mp (List.mem_of_getLast? found)
    exact ⟨last, inside.1, inside.2, tracks.form.trans found⟩

theorem isView_of_isClear {result : Dict Json} (clear : isClear result = true) :
    (actionOf result).isIdIn viewContentActions = true :=
  isIdIn_iff.mpr ⟨"clear_visualization", by decide, of_decide_eq_true clear⟩

/-- The last explicit action is that of a result, and one that places nodes. -/
theorem lastExplicit_mem {action : Json} (found : lastExplicit results = some action) :
    ∃ result ∈ results, actionOf result = action ∧ action.isIdIn explicitActions = true := by
  obtain ⟨member, explicit⟩ := List.mem_filter.mp (List.mem_of_getLast? found)
  obtain ⟨result, inside, same⟩ := List.mem_map.mp member
  exact ⟨result, inside, same, explicit⟩

theorem isView_of_isExplicit {action : Json} (explicit : action.isIdIn explicitActions = true) :
    action.isIdIn viewContentActions = true := by
  obtain ⟨id, member, same⟩ := isIdIn_iff.mp explicit
  have all : ∀ id ∈ explicitActions, id ∈ viewContentActions := by decide
  exact isIdIn_iff.mpr ⟨id, all id member, same⟩

theorem explicit_or_clear {action : Json} (view : action.isIdIn viewContentActions = true) :
    action.isIdIn explicitActions = true ∨ action = .str "clear_visualization" := by
  obtain ⟨id, member, same⟩ := isIdIn_iff.mp view
  have all : ∀ id ∈ viewContentActions, id ∈ explicitActions ∨ id = "clear_visualization" := by decide
  obtain explicit | rfl := all id member
  · exact .inl (isIdIn_iff.mpr ⟨id, explicit, same⟩)
  · exact .inr same

/-- The last view action is the last explicit one where nothing clears the view. -/
theorem lastView_of_noClear (noClear : ¬ ∃ result ∈ results, isClear result = true) :
    ((results.map actionOf).filter fun action => action.isIdIn viewContentActions).getLast? = lastExplicit results := by
  rw [lastExplicit]
  congr 1
  refine List.filter_congr fun action member => ?_
  rw [Bool.eq_iff_iff]
  constructor
  · intro view
    obtain explicit | clear := explicit_or_clear view
    · exact explicit
    · obtain ⟨result, inside, rfl⟩ := List.mem_map.mp member
      exact absurd ⟨result, inside, decide_eq_true clear⟩ noClear
  · exact isView_of_isExplicit

/-- The last view action is to clear the view where none is explicit. -/
theorem lastView_of_clear (none : lastExplicit results = none) (clear : ∃ result ∈ results, isClear result = true) :
    ((results.map actionOf).filter fun action => action.isIdIn viewContentActions).getLast? =
      some (.str "clear_visualization") := by
  obtain ⟨result, member, isClear⟩ := clear
  have nonempty : ((results.map actionOf).filter fun action => action.isIdIn viewContentActions) ≠ [] :=
    List.ne_nil_of_mem (List.mem_filter.mpr ⟨List.mem_map_of_mem member, isView_of_isClear isClear⟩)
  cases found : ((results.map actionOf).filter fun action => action.isIdIn viewContentActions).getLast? with
  | none => exact absurd (List.getLast?_eq_none_iff.mp found) nonempty
  | some action =>
    obtain ⟨inside, view⟩ := List.mem_filter.mp (List.mem_of_getLast? found)
    obtain explicit | rfl := explicit_or_clear view
    · have empty := List.filter_eq_nil_iff.mp (List.getLast?_eq_none_iff.mp none) action inside
      exact absurd explicit empty
    · rfl

theorem placesAdditively_of {final : Json} {shown : Dict Json} {action : String} (read : readObject final = some shown)
    (given : actionOf shown = .str action) (additive : action ∉ ["save_view", "save_visualization", "clear_visualization",
      "load_visualization", "replace_visualization", "update_in_visualization", "mark_nodes", "start_guide"]) :
    PlacesAdditively final := by
  refine ⟨shown, read, fun other member same => additive ?_⟩
  have equal : action = other := Json.str.inj (given.symm.trans same)
  rw [equal]
  exact member

end FinalResult

section Kept

variable {s : State World} {last : Json}

theorem kept_of_nothing {final : Json} (nothing : NothingToShow s) : ActionsKept s final where
  overlays result member overlay := absurd overlay (by rw [nothing.overlays result member]; exact Bool.false_ne_true)
  clear result member clear :=
    absurd (isView_of_isClear clear) (by rw [nothing.views result member]; exact Bool.false_ne_true)
  explicit action found := by
    obtain ⟨result, member, rfl, explicit⟩ := lastExplicit_mem found
    have view := isView_of_isExplicit explicit
    rw [nothing.views result member] at view
    cases view
  additive _ some := absurd nothing.nodes some

theorem kept_beside_form (tracks : Tracks s.turn s.results) (presented : s.results.any isForm = true)
    (kept : KeptBesideForm s.results) : ActionsKept s (s.turn.finalToolResult last) := by
  obtain ⟨form, member, isForm, pending⟩ := tracks.pending presented
  obtain ⟨shown, read, whole, extras⟩ := finalToolResult_form last tracks pending (kept.extras form member isForm)
  have shows : ∀ result ∈ s.results, isExtra result = true → Shows (s.turn.finalToolResult last) (actionOf result) := by
    intro result member extra
    obtain ⟨listed, found, inside⟩ := extras result member extra
    exact ⟨shown, read, .inr ⟨listed, found, result, inside, rfl⟩⟩
  refine ⟨?_, ?_, ?_, ?_⟩
  · intro result member' overlay
    cases other : Chat.isForm result with
    | true =>
      rw [kept.one form member isForm result member' other]
      exact ⟨shown, read, .inl whole⟩
    | false =>
      have extra := isExtra_of_isIdIn (by decide) overlay other (kept.overlays result member' overlay other)
      obtain ⟨listed, found, inside⟩ := extras result member' extra
      exact ⟨shown, read, .inr ⟨listed, found, inside⟩⟩
  · intro result member' clear
    obtain ⟨bare, inside, isClear, nodes⟩ := kept.clear ⟨result, member', clear⟩
    have action : actionOf bare = .str "clear_visualization" := of_decide_eq_true isClear
    have noForm : Chat.isForm bare = false := by
      rw [Chat.isForm, action]
      decide
    rw [← action]
    exact shows bare inside (isExtra_of_isIdIn (by decide) (isView_of_isClear isClear) noForm nodes)
  · intro action found
    obtain ⟨result, inside, same, explicit⟩ := lastExplicit_mem found
    obtain ⟨bare, inside, rfl, nodes⟩ := kept.explicit action found
    have noForm : Chat.isForm bare = false := by
      obtain ⟨id, member, same⟩ := isIdIn_iff.mp explicit
      have all : ∀ id ∈ explicitActions, id ≠ "present_form" := by decide
      rw [Chat.isForm, same]
      exact decide_eq_false fun no => all id member (Json.str.inj no)
    exact shows bare inside (isExtra_of_isIdIn (by decide) explicit noForm nodes)
  · intro _ _
    exact placesAdditively_of read (actionOf_of_getElem? (of_decide_eq_true isForm) whole) (by decide)

theorem kept_beside_items (tracks : Tracks s.turn s.results) (noForm : s.results.any isForm = false)
    (items : s.turn.nodes ≠ [] ∨ s.turn.edges ≠ []) (kept : KeptBesideItems s.results) :
    ActionsKept s (s.turn.finalToolResult last) := by
  have none : s.turn.pendingForm = none := by
    rw [tracks.form, List.getLast?_eq_none_iff, List.filter_eq_nil_iff]
    exact List.any_eq_false.mp noForm
  obtain ⟨shown, read, action, -⟩ := finalToolResult_items last none items
  rw [tracks.view] at action
  refine ⟨?_, ?_, ?_, ?_⟩
  · intro result member overlay
    rw [kept.overlays result member] at overlay
    cases overlay
  · intro result member clear
    rw [lastView_of_clear (kept.clear ⟨result, member, clear⟩) ⟨result, member, clear⟩, Option.getD_some] at action
    exact ⟨shown, read, .inl action⟩
  · intro explicit found
    have noClear : ¬ ∃ result ∈ s.results, isClear result = true := by
      intro clear
      rw [kept.clear clear] at found
      cases found
    rw [lastView_of_noClear noClear, found, Option.getD_some] at action
    exact ⟨shown, read, .inl action⟩
  · intro noView _
    have empty : ((s.results.map actionOf).filter fun action => action.isIdIn viewContentActions).getLast? = Option.none := by
      rw [List.getLast?_eq_none_iff, List.filter_eq_nil_iff]
      intro action member
      obtain ⟨result, inside, rfl⟩ := List.mem_map.mp member
      rw [noView result inside]
      exact Bool.false_ne_true
    rw [empty, Option.getD_none] at action
    exact placesAdditively_of read action (by decide)

/-- An overlay is lost beside nodes or edges. -/
theorem not_kept_of_overlay (tracks : Tracks s.turn s.results) (noForm : s.results.any isForm = false)
    (items : s.turn.nodes ≠ [] ∨ s.turn.edges ≠ []) {result : Dict Json} (member : result ∈ s.results)
    (overlay : (actionOf result).isIdIn overlayActions = true) : ¬ ActionsKept s (s.turn.finalToolResult last) := by
  intro kept
  have none : s.turn.pendingForm = none := by
    rw [tracks.form, List.getLast?_eq_none_iff, List.filter_eq_nil_iff]
    exact List.any_eq_false.mp noForm
  obtain ⟨shown, read, action, noExtras⟩ := finalToolResult_items last none items
  obtain ⟨shown', read', presented⟩ := kept.overlays result member overlay
  rw [read] at read'
  cases read'
  obtain whole | ⟨extras, found, -⟩ := presented
  · obtain ⟨id, inside, same⟩ := isIdIn_iff.mp overlay
    have shows := actionOf_of_getElem? same whole
    rw [tracks.view] at action
    have view : (actionOf shown).isIdIn viewContentActions = true := by
      rw [action]
      cases last : ((s.results.map actionOf).filter fun action => action.isIdIn viewContentActions).getLast? with
      | none => decide
      | some action => exact (List.mem_filter.mp (List.mem_of_getLast? last)).2
    obtain ⟨viewId, inViews, sameView⟩ := isIdIn_iff.mp view
    have apart : ∀ id ∈ overlayActions, id ∉ viewContentActions := by decide
    rw [shows] at sameView
    exact apart id inside (by rw [Json.str.inj sameView]; exact inViews)
  · rw [noExtras] at found
    cases found

theorem kept_by_last (noForm : s.results.any isForm = false) (tracks : Tracks s.turn s.results)
    (bare : ¬ (s.turn.nodes ≠ [] ∨ s.turn.edges ≠ [])) (kept : KeptByLast s.results last) :
    ActionsKept s (s.turn.finalToolResult last) := by
  rw [not_or, not_not, not_not] at bare
  have none : s.turn.pendingForm = none := by
    rw [tracks.form, List.getLast?_eq_none_iff, List.filter_eq_nil_iff]
    exact List.any_eq_false.mp noForm
  have same : s.turn.finalToolResult last = last := by
    rw [Turn.finalToolResult, none]
    exact if_pos bare
  rw [same]
  exact ⟨kept.overlays, fun result member clear => kept.clear ⟨result, member, clear⟩, kept.explicit,
    fun _ some => absurd bare.1 some⟩

end Kept

/-- A processor with a search that finds a node. -/
private def searching : Processor Unit where
  toolDefinitions := []
  toolsMap name :=
    if name = "search_graph" then
      some ⟨[], fun _ world => (world, .ok (.obj [("nodes", .arr [.obj [("id", .str "n")]])]))⟩
    else none
  toolsOverride _ := none
  str _ := ""
  dumps _ := ""
  noItems _ := ""

private def use (name : String) : Json :=
  .obj [("type", .str "tool_use"), ("id", .str name), ("name", .str name), ("input", .obj [])]

/-- Some tools at once, then an answer. -/
private def replies (names : List String) : List Reply := [.response (names.map use) "tool_use", .response [] "end_turn"]

private def answers (test : State Unit → Bool) (s : State Unit) : Bool :=
  match s.phase with
  | .ended (.answered _ _ _) => test s
  | _ => false

private theorem replies_run (names : List String) (test : State Unit → Bool)
    (leads : (leadsTo (searching.receive none) { world := () } (replies names)).any (answers test) = true) :
    ∃ history s content used final, Run (searching.receive none) (fun _ _ _ => True) { world := () } history s ∧
      s.phase = .ended (.answered content used final) ∧ test s = true := by
  obtain ⟨s, reached, answered⟩ := (Option.any_eq_true _ _).mp leads
  obtain ⟨history, run⟩ := Run.of_leadsTo reached
  rw [answers] at answered
  split at answered
  · rename_i content used final ended
    exact ⟨history, s, content, used, final, run, ended, answered⟩
  · cases answered

end MetadataGraph.Chat
