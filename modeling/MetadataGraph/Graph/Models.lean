import MetadataGraph.Session.Json

namespace MetadataGraph

theorem Dict.of_toList {β : Type} (d : Dict β) : Dict.of d.toList = d := by
  apply Std.ExtTreeMap.ext_getElem?
  intro key
  rw [Dict.of]
  cases atKey : d[key]? with
  | none =>
    rw [Std.ExtTreeMap.getElem?_ofList_of_contains_eq_false]
    rw [List.contains_eq_mem, decide_eq_false_iff_not, List.mem_map]
    rintro ⟨⟨k, v⟩, member, rfl⟩
    rw [Std.ExtTreeMap.mem_toList_iff_getElem?_eq_some, atKey] at member
    cases member
  | some v =>
    exact Std.ExtTreeMap.getElem?_ofList_of_mem Std.ReflCmp.compare_self Std.ExtTreeMap.distinct_keys_toList
      (Std.ExtTreeMap.mem_toList_iff_getElem?_eq_some.mpr atKey)

/-- An entry of a dict display whose keys are distinct is found under its key. -/
theorem Dict.getElem?_of {β : Type} {entries : List (String × β)} (distinct : (entries.map Prod.fst).Nodup)
    {key : String} {value : β} (member : (key, value) ∈ entries) : (Dict.of entries)[key]? = some value := by
  have apart : entries.Pairwise fun a b => ¬ compare a.1 b.1 = .eq :=
    (List.pairwise_map.mp distinct).imp fun differ same => differ (Std.LawfulEqCmp.eq_of_compare same)
  exact Std.ExtTreeMap.getElem?_ofList_of_mem Std.ReflCmp.compare_self apart member

theorem Dict.getElem?_of_eq_none {β : Type} {entries : List (String × β)} {key : String}
    (absent : key ∉ entries.map Prod.fst) : (Dict.of entries)[key]? = none := by
  rw [Dict.of, Std.ExtTreeMap.getElem?_ofList_of_contains_eq_false]
  rw [List.contains_eq_mem, decide_eq_false_iff_not]
  exact absent

theorem Dict.getElem?_of_eq_lookup {β : Type} {entries : List (String × β)} (distinct : (entries.map Prod.fst).Nodup) (key : String) :
    (Dict.of entries)[key]? = entries.lookup key := by
  cases found : entries.lookup key with
  | none =>
    refine Dict.getElem?_of_eq_none fun member => ?_
    obtain ⟨entry, listed, same⟩ := List.mem_map.mp member
    exact List.lookup_eq_none_iff.mp found entry listed |> fun differ => by simp [same] at differ
  | some value =>
    obtain ⟨front, back, rfl, -⟩ := List.lookup_eq_some_iff.mp found
    exact Dict.getElem?_of distinct (by simp)

/-- A dict display reads a key from its first entries unless the last ones have it. -/
theorem Dict.getElem?_of_append {β : Type} {front back : List (String × β)}
    (distinct : ((front ++ back).map Prod.fst).Nodup) {key : String} (absent : key ∉ back.map Prod.fst) :
    (Dict.of (front ++ back))[key]? = (Dict.of front)[key]? := by
  have distinct' : (front.map Prod.fst).Nodup := by
    rw [List.map_append] at distinct
    exact distinct.of_append_left
  by_cases present : key ∈ front.map Prod.fst
  · obtain ⟨entry, member, rfl⟩ := List.mem_map.mp present
    rw [Dict.getElem?_of distinct (List.mem_append_left back member), Dict.getElem?_of distinct' member]
  · rw [Dict.getElem?_of_eq_none present, Dict.getElem?_of_eq_none]
    rw [List.map_append, List.mem_append]
    exact fun either => either.elim present absent

namespace Graph

/-- A datetime, as the text that `isoformat` gives for it; the offset is never written as `Z`. -/
structure Datetime where
  isoformat : String
  spelled : isoformat.endsWith "Z" = false := by decide +kernel

/-- What the models use of `datetime` and `pydantic`: how a text becomes a datetime, and how a
value that does not have a field's type yet is coerced. A value of the type itself is kept. -/
structure Readers where
  fromisoformat : String → Option Datetime
  replaceNaive : Datetime → Datetime
  coerceDatetime : Json → Option Datetime
  coerceBool : Json → Option Bool
  coerceFloat : Json → Option ℚ
  isoformat_read : ∀ d : Datetime, (fromisoformat d.isoformat).isSome = true
  bool_kept : ∀ b, coerceBool (.bool b) = some b
  num_kept : ∀ q, coerceFloat (.num q) = some q

/-- `_parse_datetime` of a text: the suffix `Z` is an offset, and a naive datetime counts as UTC. -/
def Readers.parseDatetime (r : Readers) (text : String) : Option Datetime :=
  let normalized := if text.endsWith "Z" then (text.dropEnd 1).toString ++ "+00:00" else text
  (r.fromisoformat normalized).map r.replaceNaive

/-- A type as the models hold it: a member of the legacy enumeration, or any other name. -/
inductive TypeLabel (κ : Type) where
  | known (t : κ)
  | other (name : String)
  deriving DecidableEq

inductive NodeType where
  | actor | initiative | capability | resource | legislation | theme | goal | event | savedView | visualizationView
  deriving DecidableEq

def NodeType.all : List NodeType :=
  [.actor, .initiative, .capability, .resource, .legislation, .theme, .goal, .event, .savedView, .visualizationView]

def NodeType.value : NodeType → String
  | .actor => "Actor"
  | .initiative => "Initiative"
  | .capability => "Capability"
  | .resource => "Resource"
  | .legislation => "Legislation"
  | .theme => "Theme"
  | .goal => "Goal"
  | .event => "Event"
  | .savedView => "SavedView"
  | .visualizationView => "VisualizationView"

/-- `str(member)`, which names the member and not its value. -/
def NodeType.member : NodeType → String
  | .actor => "NodeType.ACTOR"
  | .initiative => "NodeType.INITIATIVE"
  | .capability => "NodeType.CAPABILITY"
  | .resource => "NodeType.RESOURCE"
  | .legislation => "NodeType.LEGISLATION"
  | .theme => "NodeType.THEME"
  | .goal => "NodeType.GOAL"
  | .event => "NodeType.EVENT"
  | .savedView => "NodeType.SAVED_VIEW"
  | .visualizationView => "NodeType.VISUALIZATION_VIEW"

namespace TypeLabel

variable {κ : Type}

/-- `type_str`. -/
def typeStr (value : κ → String) : TypeLabel κ → String
  | known t => value t
  | other name => name

/-- A name becomes the member that has it as its value, if there is one. -/
def ofName (all : List κ) (value : κ → String) (name : String) : TypeLabel κ :=
  match all.find? fun t => value t = name with
  | some t => known t
  | none => other name

theorem typeStr_ofName (all : List κ) (value : κ → String) (name : String) :
    (ofName all value name).typeStr value = name := by
  rw [ofName]
  split
  · rename_i t found
    have same := List.find?_some found
    simp only [decide_eq_true_eq] at same
    exact same
  · rfl

end TypeLabel

/-- `validate_type` of a node. -/
def NodeType.validate (name : String) : TypeLabel NodeType := .ofName all value name

/-- The type of an edge. A member of the legacy enumeration counts as its value, which is all
that is read of it. -/
abbrev RelationshipType := { name : String // name ≠ "" }

def relatesTo : RelationshipType := ⟨"RELATES_TO", by decide⟩

/-- `validate_type` of an edge: no type is the general connection. -/
def RelationshipType.validate : Json → Option RelationshipType
  | .null => some relatesTo
  | .str name => some (if given : name = "" then relatesTo else ⟨name, given⟩)
  | _ => none

def fieldLimitName : Nat := 200
def fieldLimitDescription : Nat := 2000
def fieldLimitSummary : Nat := 300
def listFieldTotalLimit : Nat := 2000
def listFieldItemLimit : Nat := 200

/-- `_limit_list_text`. -/
def LimitedText (items : List String) : Prop :=
  (items.map String.length).sum ≤ listFieldTotalLimit ∧ ∀ item ∈ items, item.length ≤ listFieldItemLimit

instance (items : List String) : Decidable (LimitedText items) := inferInstanceAs (Decidable (_ ∧ _))

/-- The limits that the model checks when a node is built. -/
def FieldLimits (name description summary : String) (tags aliases : List String) : Prop :=
  (1 ≤ name.length ∧ name.length ≤ fieldLimitName) ∧ description.length ≤ fieldLimitDescription ∧
    summary.length ≤ fieldLimitSummary ∧ LimitedText tags ∧ LimitedText aliases

instance (name description summary : String) (tags aliases : List String) :
    Decidable (FieldLimits name description summary tags aliases) := inferInstanceAs (Decidable (_ ∧ _))

/-- A node of the graph. Every node was built by the model, so it is within the limits. -/
structure Node where
  id : String
  typeName : String
  name : String
  description : String := ""
  summary : String := ""
  tags : List String := []
  subtypes : List String := []
  aliases : List String := []
  metadata : Dict Json := {}
  archived : Bool := false
  embedding : Option (List ℚ) := none
  createdAt : Datetime
  updatedAt : Datetime
  limits : FieldLimits name description summary tags aliases := by decide +kernel

/-- The type, with a name of the legacy enumeration turned into its member. -/
def Node.type (node : Node) : TypeLabel NodeType := NodeType.validate node.typeName

def Node.typeStr (node : Node) : String := node.type.typeStr NodeType.value

/-- `str(node.type)`. -/
def Node.typeText (node : Node) : String := node.type.typeStr NodeType.member

def epoch : Datetime := { isoformat := "1970-01-01T00:00:00+00:00" }

instance : Inhabited Node := ⟨{ id := "", typeName := "Actor", name := "node", createdAt := epoch, updatedAt := epoch }⟩

structure Edge where
  id : String
  source : String
  target : String
  type : RelationshipType := relatesTo
  label : String := ""
  metadata : Dict Json := {}
  archived : Bool := false
  createdAt : Datetime

instance : Inhabited Edge := ⟨{ id := "", source := "", target := "", createdAt := epoch }⟩

def Json.ofEmbedding : Option (List ℚ) → Json
  | none => .null
  | some vector => .arr (vector.map .num)

def Node.entries (node : Node) : List (String × Json) := [
  ("id", .str node.id), ("type", .str node.typeStr), ("name", .str node.name),
  ("description", .str node.description), ("summary", .str node.summary),
  ("tags", .ofStrings node.tags), ("subtypes", .ofStrings node.subtypes), ("aliases", .ofStrings node.aliases),
  ("metadata", .obj node.metadata.toList), ("archived", .bool node.archived),
  ("embedding", Json.ofEmbedding node.embedding),
  ("created_at", .str node.createdAt.isoformat), ("updated_at", .str node.updatedAt.isoformat)]

def Node.toDict (node : Node) : Dict Json := .of node.entries

def Edge.entries (edge : Edge) : List (String × Json) := [
  ("id", .str edge.id), ("source", .str edge.source), ("target", .str edge.target), ("type", .str edge.type.1),
  ("label", .str edge.label), ("metadata", .obj edge.metadata.toList), ("archived", .bool edge.archived),
  ("created_at", .str edge.createdAt.isoformat)]

def Edge.toDict (edge : Edge) : Dict Json := .of edge.entries

/-- What the default factories give a record that has no id or no datetimes of its own. -/
structure Fresh where
  id : String
  now : Datetime

/-- A field of a model: its default when the dict lacks it, else the value as read. -/
def fieldOr {α : Type} (data : Dict Json) (key : String) (default : α) (read : Json → Option α) : Option α :=
  match data[key]? with
  | none => some default
  | some value => read value

/-- A datetime field: `from_dict` parses a text, the model coerces anything else. -/
def Readers.datetime (r : Readers) : Json → Option Datetime
  | .str text => r.parseDatetime text
  | value => r.coerceDatetime value

def Readers.embedding (r : Readers) : Json → Option (Option (List ℚ))
  | .null => some none
  | .arr items => (items.mapM r.coerceFloat).map some
  | _ => none

def readObject : Json → Option (Dict Json)
  | .obj entries => some (.of entries)
  | _ => none

/-- `Node.from_dict`, with no node where the model raises. -/
def Node.fromDict (r : Readers) (fresh : Fresh) (data : Dict Json) : Option Node := do
  let createdAt ← fieldOr data "created_at" fresh.now r.datetime
  let updatedAt ← fieldOr data "updated_at" fresh.now r.datetime
  let archived ← fieldOr data "archived" false r.coerceBool
  let id ← fieldOr data "id" fresh.id Json.string?
  let typeName ← data["type"]?.bind Json.string?
  let name ← data["name"]?.bind Json.string?
  let description ← fieldOr data "description" "" Json.string?
  let summary ← fieldOr data "summary" "" Json.string?
  let tags ← fieldOr data "tags" [] Json.strings?
  let subtypes ← fieldOr data "subtypes" [] Json.strings?
  let aliases ← fieldOr data "aliases" [] Json.strings?
  let metadata ← fieldOr data "metadata" {} readObject
  let embedding ← fieldOr data "embedding" none r.embedding
  if limits : FieldLimits name description summary tags aliases then
    some { id, typeName, name, description, summary, tags, subtypes, aliases, metadata, archived, embedding, createdAt,
           updatedAt, limits }
  else none

/-- `Edge.from_dict`, with no edge where the model raises. -/
def Edge.fromDict (r : Readers) (fresh : Fresh) (data : Dict Json) : Option Edge := do
  let createdAt ← fieldOr data "created_at" fresh.now r.datetime
  let label ← fieldOr data "label" "" Json.string?
  let archived ← fieldOr data "archived" false r.coerceBool
  let id ← fieldOr data "id" fresh.id Json.string?
  let source ← data["source"]?.bind Json.string?
  let target ← data["target"]?.bind Json.string?
  let type ← fieldOr data "type" relatesTo RelationshipType.validate
  let metadata ← fieldOr data "metadata" {} readObject
  some { id, source, target, type, label, metadata, archived, createdAt }

theorem fieldOr_of_getElem? {α : Type} {data : Dict Json} {key : String} {value : Json}
    (present : data[key]? = some value) (default : α) (read : Json → Option α) :
    fieldOr data key default read = read value := by
  rw [fieldOr, present]

theorem Readers.parseDatetime_isoformat (r : Readers) (d : Datetime) :
    ∃ parsed, r.parseDatetime d.isoformat = some parsed := by
  obtain ⟨naive, read⟩ := Option.isSome_iff_exists.mp (r.isoformat_read d)
  exact ⟨r.replaceNaive naive, by simp only [parseDatetime, d.spelled, Bool.false_eq_true, if_false, read, Option.map_some]⟩

theorem Readers.embedding_ofEmbedding (r : Readers) (vector : Option (List ℚ)) :
    r.embedding (Json.ofEmbedding vector) = some vector := by
  cases vector with
  | none => rfl
  | some vector =>
    have kept : (vector.map Json.num).mapM r.coerceFloat = some vector := by
      induction vector with
      | nil => rfl
      | cons q vector ih => simp only [List.map_cons, List.mapM_cons, r.num_kept, ih, Option.pure_def,
          Option.bind_eq_bind, Option.bind_some]
    rw [Json.ofEmbedding, embedding, kept, Option.map_some]

/-- A node's own dict is read back as the node, its datetimes as they are parsed. -/
theorem Node.fromDict_of_parsed {r : Readers} (fresh : Fresh) {node : Node} {created updated : Datetime}
    (readCreated : r.parseDatetime node.createdAt.isoformat = some created)
    (readUpdated : r.parseDatetime node.updatedAt.isoformat = some updated) :
    Node.fromDict r fresh node.toDict = some { node with createdAt := created, updatedAt := updated } := by
  have entry : ∀ pair ∈ node.entries, node.toDict[pair.1]? = some pair.2 := fun pair member =>
    Dict.getElem?_of (by simp [entries]) member
  simp only [entries, List.forall_mem_cons] at entry
  obtain ⟨id, type, name, description, summary, tags, subtypes, aliases, metadata, archived, embedding, createdAt,
    updatedAt, -⟩ := entry
  have named : node.typeStr = node.typeName := TypeLabel.typeStr_ofName NodeType.all NodeType.value node.typeName
  rw [fromDict, fieldOr_of_getElem? createdAt, fieldOr_of_getElem? updatedAt, fieldOr_of_getElem? archived,
    fieldOr_of_getElem? id, type, name, fieldOr_of_getElem? description, fieldOr_of_getElem? summary,
    fieldOr_of_getElem? tags, fieldOr_of_getElem? subtypes, fieldOr_of_getElem? aliases,
    fieldOr_of_getElem? metadata, fieldOr_of_getElem? embedding]
  simp only [Readers.datetime, readCreated, readUpdated, r.bool_kept, r.embedding_ofEmbedding, Json.string?_str,
    Json.strings?_ofStrings, readObject, Dict.of_toList, Option.bind_eq_bind, Option.bind_some, named,
    dif_pos node.limits]

theorem Node.fromDict_toDict (r : Readers) (fresh : Fresh) (node : Node) :
    ∃ created updated, Node.fromDict r fresh node.toDict =
      some { node with createdAt := created, updatedAt := updated } := by
  obtain ⟨created, readCreated⟩ := r.parseDatetime_isoformat node.createdAt
  obtain ⟨updated, readUpdated⟩ := r.parseDatetime_isoformat node.updatedAt
  exact ⟨created, updated, Node.fromDict_of_parsed fresh readCreated readUpdated⟩

theorem RelationshipType.validate_self (type : RelationshipType) : validate (.str type.1) = some type := by
  rw [validate, dif_neg type.2]

/-- An edge's own dict is read back as the edge, its datetime as it is parsed. -/
theorem Edge.fromDict_of_parsed {r : Readers} (fresh : Fresh) {edge : Edge} {created : Datetime}
    (readCreated : r.parseDatetime edge.createdAt.isoformat = some created) :
    Edge.fromDict r fresh edge.toDict = some { edge with createdAt := created } := by
  have entry : ∀ pair ∈ edge.entries, edge.toDict[pair.1]? = some pair.2 := fun pair member =>
    Dict.getElem?_of (by simp [entries]) member
  simp only [entries, List.forall_mem_cons] at entry
  obtain ⟨id, source, target, type, label, metadata, archived, createdAt, -⟩ := entry
  rw [fromDict, fieldOr_of_getElem? createdAt, fieldOr_of_getElem? label, fieldOr_of_getElem? archived,
    fieldOr_of_getElem? id, source, target, fieldOr_of_getElem? type, fieldOr_of_getElem? metadata]
  simp only [Readers.datetime, readCreated, r.bool_kept, Json.string?_str, RelationshipType.validate_self, readObject,
    Dict.of_toList, Option.bind_eq_bind, Option.bind_some]

theorem Edge.fromDict_toDict (r : Readers) (fresh : Fresh) (edge : Edge) :
    ∃ created, Edge.fromDict r fresh edge.toDict = some { edge with createdAt := created } := by
  obtain ⟨created, readCreated⟩ := r.parseDatetime_isoformat edge.createdAt
  exact ⟨created, Edge.fromDict_of_parsed fresh readCreated⟩

end Graph

end MetadataGraph
