import MetadataGraph.Session.Json

namespace MetadataGraph.Client

/-- The lengths that an encoder gives to the parts of a JSON text. -/
structure JsonEncoder where
  char : Char → Nat
  number : ℚ → Nat
  comma : Nat
  colon : Nat

namespace JsonEncoder

def string (e : JsonEncoder) (s : String) : Nat := 2 + (s.toList.map e.char).sum

mutual

/-- The length of a value's text. -/
def size (e : JsonEncoder) : Json → Nat
  | .null => 4
  | .bool b => if b then 4 else 5
  | .num q => e.number q
  | .str s => e.string s
  | .arr items => 2 + e.items items
  | .obj entries => 2 + e.entries entries

def items (e : JsonEncoder) : List Json → Nat
  | [] => 0
  | [value] => e.size value
  | value :: rest => e.size value + e.comma + e.items rest

def entries (e : JsonEncoder) : List (String × Json) → Nat
  | [] => 0
  | [(key, value)] => e.string key + e.colon + e.size value
  | (key, value) :: rest => e.string key + e.colon + e.size value + e.comma + e.entries rest

end

end JsonEncoder

/-- The UTF-16 code units of a character. -/
def utf16Units (c : Char) : Nat := if c.toNat < 0x10000 then 1 else 2

/-- The characters that both encoders write as a backslash and one more character. -/
def isShortEscape (c : Char) : Bool :=
  c = '"' || c = '\\' || c.toNat = 8 || c.toNat = 9 || c.toNat = 10 || c.toNat = 12 || c.toNat = 13

/-- `JSON.stringify(value).length`, for a given length of number texts. -/
def stringify (number : ℚ → Nat) : JsonEncoder where
  char c := if isShortEscape c then 2 else if c.toNat < 0x20 then 6 else utf16Units c
  number := number
  comma := 1
  colon := 1

/-- `len(json.dumps(value))`, for a given length of number texts: whatever is not printable
ASCII becomes an escape of six characters for each UTF-16 unit. -/
def dumps (number : ℚ → Nat) : JsonEncoder where
  char c := if isShortEscape c then 2 else if 0x20 ≤ c.toNat ∧ c.toNat ≤ 0x7e then 1 else 6 * utf16Units c
  number := number
  comma := 2
  colon := 2

/-! ### How much longer the server's text is -/

/-- Five for each UTF-16 unit that only the server escapes. -/
def charGrowth (c : Char) : Nat := if c.toNat ≤ 0x7e then 0 else 5 * utf16Units c

def stringGrowth (s : String) : Nat := (s.toList.map charGrowth).sum

mutual

/-- One for each separator, and the growth of the strings. -/
def growth : Json → Nat
  | .str s => stringGrowth s
  | .arr items => growthItems items
  | .obj entries => growthEntries entries
  | _ => 0

def growthItems : List Json → Nat
  | [] => 0
  | [value] => growth value
  | value :: rest => growth value + 1 + growthItems rest

def growthEntries : List (String × Json) → Nat
  | [] => 0
  | [(key, value)] => stringGrowth key + 1 + growth value
  | (key, value) :: rest => stringGrowth key + 1 + growth value + 1 + growthEntries rest

end

theorem char_dumps (number : ℚ → Nat) (c : Char) :
    (dumps number).char c = (stringify number).char c + charGrowth c := by
  simp only [dumps, stringify, charGrowth, isShortEscape]
  by_cases quote : c = '"'
  · simp [quote]
  by_cases backslash : c = '\\'
  · simp [backslash]
  unfold utf16Units
  simp only [quote, backslash]
  grind

theorem sum_char_dumps (number : ℚ → Nat) (cs : List Char) :
    (cs.map (dumps number).char).sum = (cs.map (stringify number).char).sum + (cs.map charGrowth).sum := by
  induction cs with
  | nil => rfl
  | cons c cs ih =>
    simp only [List.map_cons, List.sum_cons, ih, char_dumps]
    omega

theorem string_dumps (number : ℚ → Nat) (s : String) :
    (dumps number).string s = (stringify number).string s + stringGrowth s := by
  simp only [JsonEncoder.string, stringGrowth, sum_char_dumps]
  omega

namespace JsonEncoder

theorem items_cons (e : JsonEncoder) (value next : Json) (rest : List Json) :
    e.items (value :: next :: rest) = e.size value + e.comma + e.items (next :: rest) := rfl

theorem entries_cons (e : JsonEncoder) (key : String) (value : Json) (next : String × Json)
    (rest : List (String × Json)) : e.entries ((key, value) :: next :: rest) =
      e.string key + e.colon + e.size value + e.comma + e.entries (next :: rest) := rfl

end JsonEncoder

theorem growthItems_cons (value next : Json) (rest : List Json) :
    growthItems (value :: next :: rest) = growth value + 1 + growthItems (next :: rest) := rfl

theorem growthEntries_cons (key : String) (value : Json) (next : String × Json) (rest : List (String × Json)) :
    growthEntries ((key, value) :: next :: rest) =
      stringGrowth key + 1 + growth value + 1 + growthEntries (next :: rest) := rfl

mutual

/-- With the same number texts, separators and escapes are the whole difference. -/
theorem size_dumps (number : ℚ → Nat) : (value : Json) →
    (dumps number).size value = (stringify number).size value + growth value
  | .null | .bool _ | .num _ => rfl
  | .str s => string_dumps number s
  | .arr items => by
    rw [JsonEncoder.size, JsonEncoder.size, growth, items_dumps number items]
    omega
  | .obj entries => by
    rw [JsonEncoder.size, JsonEncoder.size, growth, entries_dumps number entries]
    omega

theorem items_dumps (number : ℚ → Nat) : (values : List Json) →
    (dumps number).items values = (stringify number).items values + growthItems values
  | [] => rfl
  | [value] => size_dumps number value
  | value :: next :: rest => by
    have tail := items_dumps number (next :: rest)
    rw [JsonEncoder.items_cons, JsonEncoder.items_cons, growthItems_cons, size_dumps number value, tail]
    simp only [dumps, stringify]
    omega

theorem entries_dumps (number : ℚ → Nat) : (entries : List (String × Json)) →
    (dumps number).entries entries = (stringify number).entries entries + growthEntries entries
  | [] => rfl
  | [(key, value)] => by
    rw [JsonEncoder.entries, JsonEncoder.entries, growthEntries, string_dumps, size_dumps number value]
    simp only [dumps, stringify]
    omega
  | (key, value) :: next :: rest => by
    have tail := entries_dumps number (next :: rest)
    rw [JsonEncoder.entries_cons, JsonEncoder.entries_cons, growthEntries_cons, string_dumps,
      size_dumps number value, tail]
    simp only [dumps, stringify]
    omega

end

end MetadataGraph.Client
