import Mathlib.Algebra.GroupWithZero.Nat
import Mathlib.Algebra.Order.Ring.Rat
import Mathlib.Data.List.Sort
import Mathlib.Data.List.Dedup

namespace MetadataGraph

/-- A JSON value as the server holds it after parsing. Numbers are exact rationals.
The keys of an object stand in ascending order, so that equality is equality of dicts. -/
inductive Json where
  | null
  | bool (b : Bool)
  | num (q : ℚ)
  | str (s : String)
  | arr (items : List Json)
  | obj (entries : List (String × Json))

mutual

def Json.decEq : (a b : Json) → Decidable (a = b)
  | .null, .null => isTrue rfl
  | .bool a, .bool b => decidable_of_iff (a = b) (by simp)
  | .num a, .num b => decidable_of_iff (a = b) (by simp)
  | .str a, .str b => decidable_of_iff (a = b) (by simp)
  | .arr a, .arr b => match Json.decEqItems a b with
    | isTrue same => isTrue (same ▸ rfl)
    | isFalse differ => isFalse fun same => differ (by injection same)
  | .obj a, .obj b => match Json.decEqEntries a b with
    | isTrue same => isTrue (same ▸ rfl)
    | isFalse differ => isFalse fun same => differ (by injection same)
  | .null, .bool _ | .null, .num _ | .null, .str _ | .null, .arr _ | .null, .obj _
  | .bool _, .null | .bool _, .num _ | .bool _, .str _ | .bool _, .arr _ | .bool _, .obj _
  | .num _, .null | .num _, .bool _ | .num _, .str _ | .num _, .arr _ | .num _, .obj _
  | .str _, .null | .str _, .bool _ | .str _, .num _ | .str _, .arr _ | .str _, .obj _
  | .arr _, .null | .arr _, .bool _ | .arr _, .num _ | .arr _, .str _ | .arr _, .obj _
  | .obj _, .null | .obj _, .bool _ | .obj _, .num _ | .obj _, .str _ | .obj _, .arr _ =>
    isFalse (by simp)

def Json.decEqItems : (a b : List Json) → Decidable (a = b)
  | [], [] => isTrue rfl
  | [], _ :: _ | _ :: _, [] => isFalse (by simp)
  | a :: as, b :: bs => match Json.decEq a b, Json.decEqItems as bs with
    | isTrue head, isTrue tail => isTrue (head ▸ tail ▸ rfl)
    | isFalse differ, _ => isFalse fun same => differ (List.cons.inj same).1
    | _, isFalse differ => isFalse fun same => differ (List.cons.inj same).2

def Json.decEqEntries : (a b : List (String × Json)) → Decidable (a = b)
  | [], [] => isTrue rfl
  | [], _ :: _ | _ :: _, [] => isFalse (by simp)
  | (k, a) :: as, (l, b) :: bs =>
    match (inferInstance : Decidable (k = l)), Json.decEq a b, Json.decEqEntries as bs with
    | isTrue key, isTrue head, isTrue tail => isTrue (key ▸ head ▸ tail ▸ rfl)
    | isFalse differ, _, _ => isFalse fun same => differ (Prod.mk.inj (List.cons.inj same).1).1
    | _, isFalse differ, _ => isFalse fun same => differ (Prod.mk.inj (List.cons.inj same).1).2
    | _, _, isFalse differ => isFalse fun same => differ (List.cons.inj same).2

end

instance : DecidableEq Json := Json.decEq

/-- A dict with string keys. `d₁ ∪ d₂` is `d₁.update(d₂)`. -/
abbrev Dict (β : Type) := Std.ExtTreeMap String β

/-- `d.get(key)`, with `None` for an absent key. -/
def Dict.get (d : Dict Json) (key : String) : Json := d[key]?.getD .null

/-- A dict display; of two entries with one key the later counts. -/
def Dict.of {β : Type} (entries : List (String × β)) : Dict β := Std.ExtTreeMap.ofList entries

namespace Json

/-- Python truthiness. -/
def truthy : Json → Bool
  | .null => false
  | .bool b => b
  | .num q => q ≠ 0
  | .str s => s ≠ ""
  | .arr items => items ≠ []
  | .obj entries => entries ≠ []

/-- `a or b`. -/
def orElse (a b : Json) : Json := if a.truthy then a else b

/-- `isinstance(value, (int, float))` with the value as a float. A bool is an int. -/
def number? : Json → Option ℚ
  | .num q => some q
  | .bool b => some (if b then 1 else 0)
  | _ => none

/-- `isinstance(value, int) and not isinstance(value, bool)`. -/
def integer? : Json → Option Int
  | .num q => if q.den = 1 then some q.num else none
  | _ => none

def string? : Json → Option String
  | .str s => some s
  | _ => none

@[simp] theorem string?_eq_some {value : Json} {s : String} :
    value.string? = some s ↔ value = .str s := by
  cases value <;> simp [string?]

@[simp] theorem string?_str (s : String) : (Json.str s).string? = some s := rfl

/-- `isinstance(value, list) and all(isinstance(v, str) for v in value)`. -/
def strings? : Json → Option (List String)
  | .arr items => items.mapM string?
  | _ => none

/-- Whether the value can be looked up in a set; a list or a dict raises `TypeError` there. -/
def hashable : Json → Bool
  | .arr _ | .obj _ => false
  | _ => true

/-- `value.get(key)` where the value is known to be a dict. -/
def field (value : Json) (key : String) : Json :=
  match value with
  | .obj entries => ((entries.find? (·.1 = key)).map (·.2)).getD .null
  | _ => .null

/-- `value in ids` for a hashable value. -/
def isIdIn (value : Json) (ids : List String) : Bool := value.string?.any (· ∈ ids)

def isObject : Json → Bool
  | .obj _ => true
  | _ => false

def ofStrings (l : List String) : Json := .arr (l.map .str)

theorem strings?_ofStrings (l : List String) : (ofStrings l).strings? = some l := by
  simp only [ofStrings, strings?]
  induction l with
  | nil => rfl
  | cons s l ih => simp only [List.map_cons, List.mapM_cons, string?, ih, Option.pure_def,
      Option.bind_eq_bind, Option.bind_some]

end Json

/-- A canvas position. -/
structure Position where
  x : ℚ
  y : ℚ
  deriving DecidableEq

/-- The origin, which the server substitutes for a position it does not have. -/
def Position.origin : Position := ⟨0, 0⟩

def Position.toJson (p : Position) : Json := .obj [("x", .num p.x), ("y", .num p.y)]

/-- The value as a position when it is an object with numeric `x` and `y`. -/
def Json.position? (value : Json) : Option Position :=
  if value.isObject then
    match (value.field "x").number?, (value.field "y").number? with
    | some x, some y => some ⟨x, y⟩
    | _, _ => none
  else none

@[simp] theorem Position.position?_toJson (p : Position) : p.toJson.position? = some p := rfl

theorem Dict.get_eq_of_getElem? {d : Dict Json} {key : String} {value : Json}
    (present : d[key]? = some value) : d.get key = value := by
  simp only [Dict.get, present, Option.getD_some]

theorem Dict.insert_eq_self {β : Type} {d : Dict β} {key : String} {value : β}
    (present : d[key]? = some value) : d.insert key value = d := by
  apply Std.ExtTreeMap.ext_getElem?
  intro other
  rw [Std.ExtTreeMap.getElem?_insert]
  split
  · rename_i same
    rw [← Std.LawfulEqCmp.compare_eq_iff_eq.mp same, present]
  · rfl

theorem Dict.getElem?_of_get_ne_null {d : Dict Json} {key : String} (present : d.get key ≠ .null) :
    d[key]? = some (d.get key) := by
  cases atKey : d[key]? with
  | none => exact absurd (by simp only [Dict.get, atKey, Option.getD_none]) present
  | some value => rw [Dict.get_eq_of_getElem? atKey]

theorem Dict.get_insert (d : Dict Json) (key other : String) (value : Json) :
    Dict.get (d.insert key value) other = if key = other then value else d.get other := by
  simp only [Dict.get, Std.ExtTreeMap.getElem?_insert, Std.LawfulEqCmp.compare_eq_iff_eq]
  split <;> rfl

theorem Dict.get_erase (d : Dict Json) (key other : String) :
    Dict.get (d.erase key) other = if key = other then .null else d.get other := by
  simp only [Dict.get, Std.ExtTreeMap.getElem?_erase, Std.LawfulEqCmp.compare_eq_iff_eq]
  split <;> rfl

theorem Dict.get_union (d e : Dict Json) (key : String) :
    (d ∪ e).get key = if key ∈ e then e.get key else d.get key := by
  simp only [Dict.get, Std.ExtTreeMap.getElem?_union]
  split
  · rename_i present
    obtain ⟨value, atKey⟩ : ∃ value, e[key]? = some value :=
      Option.isSome_iff_exists.mp (Std.ExtTreeMap.mem_iff_isSome_getElem?.mp present)
    simp only [atKey, Option.some_or]
  · rename_i absent
    simp only [Std.ExtTreeMap.getElem?_eq_none absent, Option.none_or]

end MetadataGraph
