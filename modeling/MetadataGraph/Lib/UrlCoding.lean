import Mathlib.Data.List.TakeWhile
import Mathlib.Data.Nat.Notation

namespace UrlCoding

/-- A UTF-8 sequence that has begun: the bits it has given so far, how many bytes come after the
next one, and the byte that has just been read. -/
structure Pending where
  code : ℕ
  after : ℕ
  read : ℕ

/-- The least byte that may come next. -/
def Pending.lower (p : Pending) : ℕ := if p.read = 0xE0 then 0xA0 else if p.read = 0xF0 then 0x90 else 0x80

/-- The greatest byte that may come next. -/
def Pending.upper (p : Pending) : ℕ := if p.read = 0xED then 0x9F else if p.read = 0xF4 then 0x8F else 0xBF

/-- The character that stands for bytes that are no UTF-8. -/
def replacement : Char := '\uFFFD'

/-- The first byte of a sequence. -/
def first (b : UInt8) : List Char × Option Pending :=
  let v := b.toNat
  if v < 0x80 then ([.ofNat v], none)
  else if v < 0xC2 ∨ 0xF5 ≤ v then ([replacement], none)
  else if v < 0xE0 then ([], some { code := v - 0xC0, after := 0, read := v })
  else if v < 0xF0 then ([], some { code := v - 0xE0, after := 1, read := v })
  else ([], some { code := v - 0xF0, after := 2, read := v })

/-- `bytes.decode("utf-8", "replace")` in the middle of a sequence or outside of one. -/
def decodeFrom : Option Pending → List UInt8 → List Char
  | none, [] => []
  | some _, [] => [replacement]
  | none, b :: bytes => (first b).1 ++ decodeFrom (first b).2 bytes
  | some p, b :: bytes =>
    if p.lower ≤ b.toNat ∧ b.toNat ≤ p.upper then
      let code := p.code * 64 + (b.toNat - 0x80)
      match p.after with
      | 0 => .ofNat code :: decodeFrom none bytes
      | after + 1 => decodeFrom (some { code := code, after := after, read := b.toNat }) bytes
    else replacement :: ((first b).1 ++ decodeFrom (first b).2 bytes)

/-- `text.encode("utf-8")`. -/
def utf8 (text : List Char) : List UInt8 := text.flatMap String.utf8EncodeChar

theorem decodeFrom_cons (b : UInt8) (bytes : List UInt8) :
    decodeFrom none (b :: bytes) = (first b).1 ++ decodeFrom (first b).2 bytes := rfl

theorem decodeFrom_outside {p : Pending} {b : UInt8} {bytes : List UInt8}
    (outside : ¬ (p.lower ≤ b.toNat ∧ b.toNat ≤ p.upper)) :
    decodeFrom (some p) (b :: bytes) = replacement :: decodeFrom none (b :: bytes) := by
  rw [decodeFrom_cons, decodeFrom]
  exact if_neg outside

theorem decodeFrom_within {p : Pending} {b : UInt8} {bytes : List UInt8}
    (within : p.lower ≤ b.toNat ∧ b.toNat ≤ p.upper) : decodeFrom (some p) (b :: bytes) =
      match p.after with
      | 0 => .ofNat (p.code * 64 + (b.toNat - 0x80)) :: decodeFrom none bytes
      | after + 1 => decodeFrom (some { code := p.code * 64 + (b.toNat - 0x80), after := after
                                        read := b.toNat }) bytes := by
  rw [decodeFrom, if_pos within]

theorem Pending.bounds (p : Pending) : 0x80 ≤ p.lower ∧ p.upper < 0xC0 := by
  constructor
  · rw [lower]
    split
    · decide
    · split <;> decide
  · rw [upper]
    split
    · decide
    · split <;> decide

theorem Pending.lower_le {code after read v : ℕ} (afterE0 : read = 0xE0 → 0xA0 ≤ v)
    (afterF0 : read = 0xF0 → 0x90 ≤ v) (tail : 0x80 ≤ v) : (Pending.mk code after read).lower ≤ v := by
  rw [lower]
  split
  · exact afterE0 ‹_›
  · split
    · exact afterF0 ‹_›
    · exact tail

theorem Pending.le_upper {code after read v : ℕ} (afterED : read = 0xED → v ≤ 0x9F)
    (afterF4 : read = 0xF4 → v ≤ 0x8F) (tail : v ≤ 0xBF) : v ≤ (Pending.mk code after read).upper := by
  rw [upper]
  split
  · exact afterED ‹_›
  · split
    · exact afterF4 ‹_›
    · exact tail

theorem toNat_ofNat {v : ℕ} (small : v < 256) : (UInt8.ofNat v).toNat = v := by
  rw [UInt8.toNat_ofNat', Nat.mod_eq_of_lt small]

theorem first_one {v : ℕ} (one : v < 0x80) : first (.ofNat v) = ([.ofNat v], none) := by
  rw [first, toNat_ofNat (by omega), if_pos one]

/-- The lead of a longer sequence. -/
theorem first_lead {v : ℕ} (lower : 0xC2 ≤ v) (upper : v < 0xF5) : first (.ofNat v) =
    ([], some { code := v - if v < 0xE0 then 0xC0 else if v < 0xF0 then 0xE0 else 0xF0
                after := if v < 0xE0 then 0 else if v < 0xF0 then 1 else 2, read := v }) := by
  rw [first, toNat_ofNat (by omega), if_neg (by omega), if_neg (by omega)]
  split
  · rfl
  · split <;> rfl

theorem decodeFrom_next {p : Pending} {v : ℕ} {bytes : List UInt8} (lower : p.lower ≤ v % 0x40 + 0x80)
    (upper : v % 0x40 + 0x80 ≤ p.upper) : decodeFrom (some p) (.ofNat (v % 0x40 + 0x80) :: bytes) =
      match p.after with
      | 0 => .ofNat (p.code * 64 + v % 0x40) :: decodeFrom none bytes
      | after + 1 => decodeFrom (some { code := p.code * 64 + v % 0x40, after := after
                                        read := v % 0x40 + 0x80 }) bytes := by
  have byte : (UInt8.ofNat (v % 0x40 + 0x80)).toNat = v % 0x40 + 0x80 := toNat_ofNat (by omega)
  rw [decodeFrom_within (by rw [byte]; exact ⟨lower, upper⟩), byte, Nat.add_sub_cancel]

/-- A byte in the middle, of whose range nothing is cut off. -/
theorem decodeFrom_tail {p : Pending} {v : ℕ} {bytes : List UInt8} (tail : p.read < 0xC0) :
    decodeFrom (some p) (.ofNat (v % 0x40 + 0x80) :: bytes) =
      match p.after with
      | 0 => .ofNat (p.code * 64 + v % 0x40) :: decodeFrom none bytes
      | after + 1 => decodeFrom (some { code := p.code * 64 + v % 0x40, after := after
                                        read := v % 0x40 + 0x80 }) bytes := by
  apply decodeFrom_next
  · apply Pending.lower_le <;> omega
  · apply Pending.le_upper <;> omega

/-- What is encoded is read back, whatever comes after it. -/
theorem decodeFrom_encodeChar (c : Char) (bytes : List UInt8) :
    decodeFrom none (String.utf8EncodeChar c ++ bytes) = c :: decodeFrom none bytes := by
  have valid : c.val.toNat < 0xD800 ∨ 0xDFFF < c.val.toNat ∧ c.val.toNat < 0x110000 := c.valid
  have spelled : Char.ofNat c.val.toNat = c := Char.ofNat_toNat c
  rw [String.utf8EncodeChar]
  generalize c.val.toNat = v at valid spelled ⊢
  by_cases one : v ≤ 0x7f
  · rw [if_pos one, List.cons_append, decodeFrom_cons, first_one (by omega), spelled]
    rfl
  by_cases two : v ≤ 0x7ff
  · rw [if_neg one, if_pos two, List.cons_append, decodeFrom_cons, first_lead (by omega) (by omega),
      if_pos (by omega), if_pos (by omega)]
    dsimp only [List.cons_append, List.nil_append]
    rw [decodeFrom_next (Pending.lower_le (by omega) (by omega) (by omega))
      (Pending.le_upper (by omega) (by omega) (by omega))]
    dsimp only
    rw [show (v / 64 % 32 + 192 - 192) * 64 + v % 64 = v by omega, spelled]
  by_cases three : v ≤ 0xffff
  · rw [if_neg one, if_neg two, if_pos three, List.cons_append, decodeFrom_cons,
      first_lead (by omega) (by omega), if_neg (by omega), if_pos (by omega), if_neg (by omega), if_pos (by omega)]
    dsimp only [List.cons_append, List.nil_append]
    rw [decodeFrom_next (Pending.lower_le (by omega) (by omega) (by omega))
      (Pending.le_upper (by omega) (by omega) (by omega))]
    dsimp only
    rw [decodeFrom_tail (by dsimp only; omega)]
    dsimp only
    rw [show ((v / 4096 % 16 + 224 - 224) * 64 + v / 64 % 64) * 64 + v % 64 = v by omega, spelled]
  · rw [if_neg one, if_neg two, if_neg three, List.cons_append, decodeFrom_cons,
      first_lead (by omega) (by omega), if_neg (by omega), if_neg (by omega), if_neg (by omega), if_neg (by omega)]
    dsimp only [List.cons_append, List.nil_append]
    rw [decodeFrom_next (Pending.lower_le (by omega) (by omega) (by omega))
      (Pending.le_upper (by omega) (by omega) (by omega))]
    dsimp only
    rw [decodeFrom_tail (by dsimp only; omega)]
    dsimp only
    rw [decodeFrom_tail (by dsimp only; omega)]
    dsimp only
    rw [show (((v / 262144 % 8 + 240 - 240) * 64 + v / 4096 % 64) * 64 + v / 64 % 64) * 64 + v % 64 = v by omega,
      spelled]

theorem decodeFrom_utf8 (text : List Char) (bytes : List UInt8) :
    decodeFrom none (utf8 text ++ bytes) = text ++ decodeFrom none bytes := by
  induction text with
  | nil => rfl
  | cons c text ih =>
    rw [utf8, List.flatMap_cons, List.append_assoc, decodeFrom_encodeChar]
    exact congrArg (c :: ·) ih

/-- A byte that belongs in the middle of a sequence stands for no character of its own. -/
theorem decodeFrom_stray {b : UInt8} {bytes : List UInt8} (lower : 0x80 ≤ b.toNat) (upper : b.toNat < 0xC0) :
    decodeFrom none (b :: bytes) = replacement :: decodeFrom none bytes := by
  rw [decodeFrom_cons, first, if_neg (by omega), if_pos (.inl (by omega))]
  rfl

theorem length_decodeFrom_pending (p : Pending) (bytes : List UInt8) :
    (decodeFrom (some p) bytes).length ≤ (decodeFrom none bytes).length + 1 := by
  induction bytes generalizing p with
  | nil => exact Nat.le_add_left ..
  | cons b bytes ih =>
    by_cases within : p.lower ≤ b.toNat ∧ b.toNat ≤ p.upper
    · obtain ⟨low, high⟩ := p.bounds
      rw [decodeFrom_within within, decodeFrom_stray (by omega) (by omega), List.length_cons]
      cases p.after with
      | zero => simp only [List.length_cons, Nat.le_add_right]
      | succ after => exact (ih _).trans (Nat.le_add_right ..)
    · rw [decodeFrom_outside within, List.length_cons]

/-- A byte gives at most one character more. -/
theorem length_decodeFrom_cons (b : UInt8) (bytes : List UInt8) :
    (decodeFrom none (b :: bytes)).length ≤ (decodeFrom none bytes).length + 1 := by
  rw [decodeFrom_cons, List.length_append]
  have begun : (first b).2 = none ∧ (first b).1.length = 1 ∨ ∃ p, (first b).2 = some p ∧ (first b).1.length = 0 := by
    rw [first]
    split
    · exact .inl ⟨rfl, rfl⟩
    split
    · exact .inl ⟨rfl, rfl⟩
    split
    · exact .inr ⟨_, rfl, rfl⟩
    split <;> exact .inr ⟨_, rfl, rfl⟩
  rcases begun with ⟨ended, length⟩ | ⟨p, begun, length⟩
  · rw [ended, length, Nat.add_comm]
  · rw [begun, length, Nat.zero_add]
    exact length_decodeFrom_pending p bytes

def hexDigit (n : ℕ) : Char := .ofNat (if n < 10 then n + 48 else n + 55)

def hexValue (c : Char) : Option ℕ :=
  let v := c.toNat
  if 48 ≤ v ∧ v < 58 then some (v - 48)
  else if 65 ≤ v ∧ v < 71 then some (v - 55)
  else if 97 ≤ v ∧ v < 103 then some (v - 87)
  else none

/-- The byte that a percent sign and the two characters after it stand for. -/
def escaped (a b : Char) : Option UInt8 :=
  match hexValue a, hexValue b with
  | some high, some low => some (.ofNat (high * 16 + low))
  | _, _ => none

/-- `unquote_to_bytes`. -/
def unquoteToBytes : List Char → List UInt8
  | '%' :: a :: b :: rest => match escaped a b with
    | some byte => byte :: unquoteToBytes rest
    | none => String.utf8EncodeChar '%' ++ unquoteToBytes (a :: b :: rest)
  | c :: rest => String.utf8EncodeChar c ++ unquoteToBytes rest
  | [] => []

/-- `unquote`. A character that is no escape never continues a sequence of escaped bytes, so the
text can be decoded as a whole. -/
def unquote (text : List Char) : List Char := decodeFrom none (unquoteToBytes text)

/-- Some percent sign of the text stands before two hexadecimal digits. -/
def hasEscape : List Char → Bool
  | '%' :: a :: b :: rest => (escaped a b).isSome || hasEscape (a :: b :: rest)
  | _ :: rest => hasEscape rest
  | [] => false

/-- The characters that are never quoted. -/
def unreserved (c : Char) : Bool := c.isAlphanum || c ∈ ['_', '.', '-', '~']

def quoteByte (safe : List Char) (b : UInt8) : List Char :=
  let c := Char.ofNat b.toNat
  if b.toNat < 0x80 ∧ (unreserved c = true ∨ c ∈ safe) then [c]
  else ['%', hexDigit (b.toNat / 16), hexDigit (b.toNat % 16)]

/-- `quote(text, safe)`. -/
def quote (safe text : List Char) : List Char := (utf8 text).flatMap (quoteByte safe)

/-- `quote_plus(text)`. -/
def quotePlus (text : List Char) : List Char := (quote [' '] text).map fun c => if c = ' ' then '+' else c

/-- `urlencode(pairs)`. -/
def urlencode (pairs : List (List Char × List Char)) : List Char :=
  ['&'].intercalate (pairs.map fun pair => quotePlus pair.1 ++ '=' :: quotePlus pair.2)

/-- The query of a URL. -/
def query (url : List Char) : List Char := ((url.takeWhile (· ≠ '#')).dropWhile (· ≠ '?')).tail

/-- A name or a value of a query, where a plus stands for a space. -/
def decodeComponent (text : List Char) : List Char := unquote (text.map fun c => if c = '+' then ' ' else c)

def parsePair (piece : List Char) : List Char × List Char :=
  (decodeComponent (piece.takeWhile (· ≠ '=')), decodeComponent (piece.dropWhile (· ≠ '=')).tail)

/-- The names and values of a query, as a reader of forms decodes them. -/
def parseQuery (text : List Char) : List (List Char × List Char) :=
  ((text.splitOn '&').filter (· ≠ [])).map parsePair

theorem unquoteToBytes_of_ne {c : Char} (differs : c ≠ '%') (rest : List Char) :
    unquoteToBytes (c :: rest) = String.utf8EncodeChar c ++ unquoteToBytes rest := by
  rw [unquoteToBytes]
  exact fun _ _ _ no => absurd no differs

theorem unquote_nil : unquote [] = [] := rfl

/-- A character that begins no triple stands for itself. -/
theorem unquote_cons {c : Char} {rest : List Char} (other : ∀ a b after, c = '%' → rest = a :: b :: after → False) :
    unquote (c :: rest) = c :: unquote rest := by
  rw [unquote, unquoteToBytes]
  · exact decodeFrom_encodeChar c _
  · exact other

theorem hasEscape_cons {c : Char} {rest : List Char} (other : ∀ a b after, c = '%' → rest = a :: b :: after → False) :
    hasEscape (c :: rest) = hasEscape rest := by
  rw [hasEscape]
  exact other

theorem unquote_of_ne {c : Char} (differs : c ≠ '%') (rest : List Char) : unquote (c :: rest) = c :: unquote rest :=
  unquote_cons fun _ _ _ no => absurd no differs

theorem unquote_append_of_notMem {text : List Char} (plain : '%' ∉ text) (rest : List Char) :
    unquote (text ++ rest) = text ++ unquote rest := by
  induction text with
  | nil => rfl
  | cons c text ih =>
    rw [List.mem_cons, not_or] at plain
    rw [List.cons_append, unquote_of_ne (Ne.symm plain.1), ih plain.2, List.cons_append]

theorem unquote_of_notMem {text : List Char} (plain : '%' ∉ text) : unquote text = text := by
  simpa only [List.append_nil, unquote_nil] using unquote_append_of_notMem plain []

theorem unquoteToBytes_escaped {a b : Char} {byte : UInt8} (digits : escaped a b = some byte) (rest : List Char) :
    unquoteToBytes ('%' :: a :: b :: rest) = byte :: unquoteToBytes rest := by
  rw [unquoteToBytes, digits]

theorem unquote_unescaped {a b : Char} (none : escaped a b = none) (rest : List Char) :
    unquote ('%' :: a :: b :: rest) = '%' :: unquote (a :: b :: rest) := by
  rw [unquote, unquoteToBytes, none]
  exact decodeFrom_encodeChar '%' _

theorem length_unquote_escaped {a b : Char} {byte : UInt8} (digits : escaped a b = some byte) (rest : List Char) :
    (unquote ('%' :: a :: b :: rest)).length ≤ (unquote rest).length + 1 := by
  rw [unquote, unquoteToBytes_escaped digits]
  exact length_decodeFrom_cons byte _

/-- No text gets longer by being unquoted. -/
theorem length_unquote_le (text : List Char) : (unquote text).length ≤ text.length := by
  induction text using unquoteToBytes.induct with
  | case1 a b rest byte digits ih =>
    have one := length_unquote_escaped digits rest
    simp only [List.length_cons]
    omega
  | case2 a b rest digits ih =>
    rw [unquote_unescaped digits, List.length_cons, List.length_cons]
    exact Nat.succ_le_succ ih
  | case3 c rest other ih =>
    rw [unquote_cons other, List.length_cons, List.length_cons]
    exact Nat.succ_le_succ ih
  | case4 => exact Nat.zero_le _

/-- A text survives being unquoted if and only if nothing in it is an escape. -/
theorem unquote_eq_self_iff {text : List Char} : unquote text = text ↔ hasEscape text = false := by
  induction text using unquoteToBytes.induct with
  | case1 a b rest byte digits ih =>
    refine iff_of_false (fun same => ?_) (by simp [hasEscape, digits])
    have one := length_unquote_escaped digits rest
    have most := length_unquote_le rest
    rw [same] at one
    simp only [List.length_cons] at one
    omega
  | case2 a b rest digits ih =>
    rw [unquote_unescaped digits, List.cons.injEq, hasEscape, digits, Option.isSome_none, Bool.false_or]
    exact (and_iff_right rfl).trans ih
  | case3 c rest other ih =>
    rw [unquote_cons other, hasEscape_cons other, List.cons.injEq]
    exact (and_iff_right rfl).trans ih
  | case4 => exact iff_of_true rfl rfl

theorem hexValue_hexDigit {n : ℕ} (small : n < 16) : hexValue (hexDigit n) = some n := by
  have all : ∀ n : Fin 16, hexValue (hexDigit n) = some n.val := by decide
  exact all ⟨n, small⟩

theorem escaped_hexDigit (b : UInt8) : escaped (hexDigit (b.toNat / 16)) (hexDigit (b.toNat % 16)) = some b := by
  have small := UInt8.toNat_lt_size b
  have size : UInt8.size = 256 := rfl
  rw [escaped, hexValue_hexDigit (by omega), hexValue_hexDigit (by omega)]
  dsimp only
  rw [show b.toNat / 16 * 16 + b.toNat % 16 = b.toNat by omega, UInt8.ofNat_toNat]

theorem utf8EncodeChar_ascii {c : Char} (ascii : c.toNat < 0x80) : String.utf8EncodeChar c = [.ofNat c.toNat] := by
  rw [String.utf8EncodeChar]
  exact if_pos (Nat.le_of_lt_succ ascii)

/-- The character that an ASCII byte encodes. -/
theorem utf8EncodeChar_ofNat {b : UInt8} (ascii : b.toNat < 0x80) : String.utf8EncodeChar (.ofNat b.toNat) = [b] := by
  have value : (Char.ofNat b.toNat).toNat = b.toNat := by
    rw [Char.ofNat, dif_pos (.inl (by omega))]
    rfl
  rw [utf8EncodeChar_ascii (by omega), value, UInt8.ofNat_toNat]

theorem unquoteToBytes_quoteByte {safe : List Char} (plain : '%' ∉ safe) (b : UInt8) (rest : List Char) :
    unquoteToBytes (quoteByte safe b ++ rest) = b :: unquoteToBytes rest := by
  rw [quoteByte]
  split
  · rename_i kept
    have differs : Char.ofNat b.toNat ≠ '%' := by
      intro same
      rw [same] at kept
      exact kept.2.elim (by decide) plain
    rw [List.singleton_append, unquoteToBytes_of_ne differs, utf8EncodeChar_ofNat kept.1, List.singleton_append]
  · exact unquoteToBytes_escaped (escaped_hexDigit b) rest

/-- What is quoted is read back, whatever comes after it. -/
theorem unquote_quote_append {safe : List Char} (plain : '%' ∉ safe) (text rest : List Char) :
    unquote (quote safe text ++ rest) = text ++ unquote rest := by
  have bytes : ∀ bytes, unquoteToBytes (bytes.flatMap (quoteByte safe) ++ rest) = bytes ++ unquoteToBytes rest := by
    intro bytes
    induction bytes with
    | nil => rfl
    | cons b bytes ih => rw [List.flatMap_cons, List.append_assoc, unquoteToBytes_quoteByte plain, ih, List.cons_append]
  rw [unquote, quote, bytes, decodeFrom_utf8, unquote]

theorem unquote_quote {safe : List Char} (plain : '%' ∉ safe) (text : List Char) : unquote (quote safe text) = text := by
  simpa only [List.append_nil, unquote_nil] using unquote_quote_append plain text []

theorem quote_append (safe a b : List Char) : quote safe (a ++ b) = quote safe a ++ quote safe b := by
  rw [quote, utf8, List.flatMap_append, List.flatMap_append]
  rfl

theorem hexDigit_unreserved {n : ℕ} (small : n < 16) : unreserved (hexDigit n) = true := by
  have all : ∀ n : Fin 16, unreserved (hexDigit n) = true := by decide
  exact all ⟨n, small⟩

/-- The bytes of a character are itself, if it is ASCII, and none of them is ASCII otherwise. -/
theorem mem_utf8EncodeChar {c : Char} {b : UInt8} (member : b ∈ String.utf8EncodeChar c) (ascii : b.toNat < 0x80) :
    c = .ofNat b.toNat := by
  have valid : c.val.toNat < 0xD800 ∨ 0xDFFF < c.val.toNat ∧ c.val.toNat < 0x110000 := c.valid
  have spelled : Char.ofNat c.val.toNat = c := Char.ofNat_toNat c
  rw [String.utf8EncodeChar] at member
  generalize c.val.toNat = v at valid spelled member
  split at member
  · rw [List.mem_singleton] at member
    rw [member, toNat_ofNat (by omega), spelled]
  · have large : ∀ w, 0x80 ≤ w → w < 256 → b ≠ .ofNat w := by
      rintro w lower upper rfl
      rw [toNat_ofNat upper] at ascii
      omega
    split at member
    · simp only [List.mem_cons, List.not_mem_nil, or_false] at member
      rcases member with byte | byte <;> exact absurd byte (large _ (by omega) (by omega))
    split at member
    · simp only [List.mem_cons, List.not_mem_nil, or_false] at member
      rcases member with byte | byte | byte <;> exact absurd byte (large _ (by omega) (by omega))
    · simp only [List.mem_cons, List.not_mem_nil, or_false] at member
      rcases member with byte | byte | byte | byte <;> exact absurd byte (large _ (by omega) (by omega))

theorem utf8EncodeChar_ne_nil (c : Char) : String.utf8EncodeChar c ≠ [] := by
  rw [String.utf8EncodeChar]
  split
  · exact List.cons_ne_nil _ _
  split
  · exact List.cons_ne_nil _ _
  split <;> exact List.cons_ne_nil _ _

/-- A quoted text consists of unreserved characters, percent signs and what of the text is safe. -/
theorem mem_quote {safe text : List Char} {c : Char} (member : c ∈ quote safe text) :
    unreserved c = true ∨ c = '%' ∨ c ∈ text ∧ c ∈ safe := by
  obtain ⟨b, byte, spelled⟩ := List.mem_flatMap.mp member
  obtain ⟨d, source, encoded⟩ := List.mem_flatMap.mp byte
  have small := UInt8.toNat_lt_size b
  have size : UInt8.size = 256 := rfl
  rw [quoteByte] at spelled
  split at spelled
  · rename_i kept
    rw [List.mem_singleton] at spelled
    have same := mem_utf8EncodeChar encoded kept.1
    rw [← spelled] at kept same
    rw [same] at source
    exact kept.2.imp_right fun safe => .inr ⟨source, safe⟩
  · simp only [List.mem_cons, List.not_mem_nil, or_false] at spelled
    rcases spelled with percent | high | low
    · exact .inr (.inl percent)
    · exact .inl (high ▸ hexDigit_unreserved (by omega))
    · exact .inl (low ▸ hexDigit_unreserved (by omega))

theorem notMem_quote {safe text : List Char} {c : Char} (absent : c ∉ text) (special : unreserved c = false)
    (differs : c ≠ '%') : c ∉ quote safe text := by
  intro member
  rcases mem_quote member with plain | percent | ⟨source, -⟩
  · exact absurd (special.symm.trans plain) Bool.false_ne_true
  · exact differs percent
  · exact absent source

/-- What stands for a character that is not kept begins with a percent sign. -/
theorem quote_singleton_of_not {safe : List Char} {c : Char} (special : unreserved c = false) (escapes : c ∉ safe) :
    ∃ more, quote safe [c] = '%' :: more := by
  have coded : ∀ b ∈ String.utf8EncodeChar c, quoteByte safe b = ['%', hexDigit (b.toNat / 16), hexDigit (b.toNat % 16)] := by
    intro b member
    rw [quoteByte]
    refine if_neg ?_
    rintro ⟨ascii, kept⟩
    rw [← mem_utf8EncodeChar member ascii] at kept
    exact kept.elim (fun plain => Bool.false_ne_true (special.symm.trans plain)) escapes
  rw [quote, utf8, List.flatMap_singleton]
  cases bytes : String.utf8EncodeChar c with
  | nil => exact absurd bytes (utf8EncodeChar_ne_nil c)
  | cons b rest =>
    rw [List.flatMap_cons, coded b (bytes ▸ List.mem_cons_self)]
    exact ⟨_, rfl⟩

theorem quote_singleton_ascii {safe : List Char} {c : Char} (ascii : c.toNat < 0x80)
    (escapes : ¬ (unreserved c = true ∨ c ∈ safe)) :
    quote safe [c] = ['%', hexDigit (c.toNat / 16), hexDigit (c.toNat % 16)] := by
  have value : (UInt8.ofNat c.toNat).toNat = c.toNat := toNat_ofNat (by omega)
  rw [quote, utf8, List.flatMap_singleton, utf8EncodeChar_ascii ascii, List.flatMap_singleton, quoteByte, value,
    Char.ofNat_toNat]
  exact if_neg fun kept => escapes kept.2

/-- A text of safe characters is not changed by being quoted. -/
theorem quote_eq_self {safe text : List Char}
    (kept : ∀ c ∈ text, c.toNat < 0x80 ∧ (unreserved c = true ∨ c ∈ safe)) : quote safe text = text := by
  induction text with
  | nil => rfl
  | cons c text ih =>
    rw [List.forall_mem_cons] at kept
    obtain ⟨⟨ascii, passes⟩, kept⟩ := kept
    have value : (UInt8.ofNat c.toNat).toNat = c.toNat := toNat_ofNat (by omega)
    have spelled : quote safe [c] = [c] := by
      rw [quote, utf8, List.flatMap_singleton, utf8EncodeChar_ascii ascii, List.flatMap_singleton, quoteByte, value,
        Char.ofNat_toNat, if_pos ⟨ascii, passes⟩]
    rw [← List.singleton_append, quote_append, spelled, ih kept]

theorem unreserved_ascii {c : Char} (plain : unreserved c = true) : c.toNat < 0x80 := by
  rw [unreserved, Bool.or_eq_true] at plain
  rcases plain with letter | mark
  · have cases : (decide (c.val ≥ 65 ∧ c.val ≤ 90) || (c.val ≥ 97 && c.val ≤ 122) || (c.val ≥ 48 && c.val ≤ 57)) = true :=
      letter
    simp only [Bool.or_eq_true, Bool.and_eq_true, decide_eq_true_eq, UInt32.le_iff_toNat_le, ge_iff_le] at cases
    change c.val.toNat < 0x80
    rcases cases with (⟨-, upper⟩ | ⟨-, upper⟩) | ⟨-, upper⟩
    · exact Nat.lt_of_le_of_lt upper (by decide)
    · exact Nat.lt_of_le_of_lt upper (by decide)
    · exact Nat.lt_of_le_of_lt upper (by decide)
  · have all : ['_', '.', '-', '~'].all (·.toNat < 0x80) = true := by decide
    exact of_decide_eq_true (List.all_eq_true.mp all c (of_decide_eq_true mark))

/-- What has been quoted is not quoted again where percent signs are safe. -/
theorem quote_quote {safe wider : List Char} (percent : '%' ∈ wider) (ascii : ∀ c ∈ safe, c.toNat < 0x80)
    (wide : safe ⊆ wider) (text : List Char) : quote wider (quote safe text) = quote safe text := by
  refine quote_eq_self fun c member => ?_
  rcases mem_quote member with plain | rfl | ⟨-, passes⟩
  · exact ⟨unreserved_ascii plain, .inl plain⟩
  · exact ⟨by decide, .inr percent⟩
  · exact ⟨ascii c passes, .inr (wide passes)⟩

theorem quote_intercalate {safe : List Char} {separator : Char} (kept : quote safe [separator] = [separator])
    (pieces : List (List Char)) :
    quote safe ([separator].intercalate pieces) = [separator].intercalate (pieces.map (quote safe)) := by
  induction pieces with
  | nil => rfl
  | cons piece rest ih =>
    cases rest with
    | nil => simp [List.intercalate]
    | cons next rest =>
      rw [List.intercalate_cons_cons, quote_append, quote_append, kept, ih, List.map_cons, List.map_cons,
        List.map_cons, List.intercalate_cons_cons]

theorem map_replace_of_notMem {a b : Char} {text : List Char} (absent : a ∉ text) :
    text.map (fun c => if c = a then b else c) = text := by
  refine (List.map_congr_left fun c member => ?_).trans (List.map_id text)
  exact if_neg fun same : c = a => absent (same ▸ member)

/-- A component without a plus is decoded like any text. -/
theorem decodeComponent_of_notMem {text : List Char} (plain : '+' ∉ text) : decodeComponent text = unquote text := by
  rw [decodeComponent, map_replace_of_notMem plain]

theorem decodeComponent_quotePlus (text : List Char) : decodeComponent (quotePlus text) = text := by
  have noPlus : '+' ∉ quote [' '] text := by
    intro member
    rcases mem_quote member with plain | percent | ⟨-, passes⟩
    · exact absurd plain (by decide)
    · exact absurd percent (by decide)
    · exact absurd passes (by decide)
  have back : (quotePlus text).map (fun c => if c = '+' then ' ' else c) = quote [' '] text := by
    rw [quotePlus, List.map_map]
    refine (List.map_congr_left fun c member => ?_).trans (List.map_id _)
    rw [Function.comp_apply]
    split
    · rename_i space
      exact (if_pos rfl).trans space.symm
    · exact if_neg fun same : c = '+' => noPlus (same ▸ member)
  rw [decodeComponent, back, unquote_quote (by decide)]

/-- A query whose pieces are not empty and hold no ampersand is read piece by piece. -/
theorem parseQuery_intercalate {pieces : List (List Char)} (apart : ∀ piece ∈ pieces, '&' ∉ piece)
    (filled : ∀ piece ∈ pieces, piece ≠ []) (some : pieces ≠ []) :
    parseQuery (['&'].intercalate pieces) = pieces.map parsePair := by
  rw [parseQuery, List.splitOn_intercalate '&' apart some,
    List.filter_eq_self.mpr fun piece member => decide_eq_true (filled piece member)]

theorem parsePair_append {name : List Char} (plain : '=' ∉ name) (value : List Char) :
    parsePair (name ++ '=' :: value) = (decodeComponent name, decodeComponent value) := by
  have before : ∀ c ∈ name, decide (c ≠ '=') = true := fun c member => decide_eq_true fun same => plain (same ▸ member)
  rw [parsePair, List.takeWhile_append_of_pos before, List.dropWhile_append_of_pos before,
    List.takeWhile_cons_of_neg (by simp), List.dropWhile_cons_of_neg (by simp), List.append_nil, List.tail_cons]

/-- The query of a URL that was put together of an address, a question mark and the query. -/
theorem query_append {address text : List Char} (address_plain : '?' ∉ address ∧ '#' ∉ address) (plain : '#' ∉ text) :
    query (address ++ '?' :: text) = text := by
  have whole : ∀ c ∈ address ++ '?' :: text, decide (c ≠ '#') = true := by
    intro c member
    refine decide_eq_true ?_
    rintro rfl
    rcases List.mem_append.mp member with inAddress | inText
    · exact address_plain.2 inAddress
    · exact plain ((List.mem_cons.mp inText).resolve_left (by decide))
  have before : ∀ c ∈ address, decide (c ≠ '?') = true := fun c member =>
    decide_eq_true fun same => address_plain.1 (same ▸ member)
  rw [query, List.takeWhile_eq_self_iff.mpr whole, List.dropWhile_append_of_pos before,
    List.dropWhile_cons_of_neg (by simp), List.tail_cons]

theorem parseQuery_append (a b : List Char) : parseQuery (a ++ '&' :: b) = parseQuery a ++ parseQuery b := by
  rw [parseQuery, List.splitOn_append_cons_self, List.filter_append, List.map_append, ← parseQuery, ← parseQuery]

theorem parseQuery_single {piece : List Char} (apart : '&' ∉ piece) (filled : piece ≠ []) :
    parseQuery piece = [parsePair piece] := by
  rw [parseQuery, List.splitOn_eq_singleton apart, List.filter_eq_self.mpr (by simpa using filled), List.map_singleton]

theorem notMem_quotePlus {text : List Char} {c : Char} (special : unreserved c = false) (differs : c ≠ '%' ∧ c ≠ '+') :
    c ∉ quotePlus text := by
  intro member
  obtain ⟨d, source, rfl⟩ := List.mem_map.mp member
  split at special
  · exact differs.2 (if_pos ‹_›)
  · rename_i other
    rw [if_neg other] at differs
    rcases mem_quote source with plain | percent | ⟨-, space⟩
    · exact absurd (special.symm.trans plain) Bool.false_ne_true
    · exact differs.1 percent
    · exact other (List.mem_singleton.mp space)

/-- The piece of a query that one name and its value give. -/
def encodePair (pair : List Char × List Char) : List Char := quotePlus pair.1 ++ '=' :: quotePlus pair.2

theorem urlencode_pair (first second : List Char × List Char) :
    urlencode [first, second] = encodePair first ++ '&' :: encodePair second := by
  rw [urlencode, List.map_cons, List.map_singleton, List.intercalate_cons_cons, List.append_assoc, List.singleton_append]
  simp [List.intercalate, encodePair]

theorem parsePair_encodePair (pair : List Char × List Char) : parsePair (encodePair pair) = pair := by
  rw [encodePair, parsePair_append (notMem_quotePlus (by decide) (by decide)), decodeComponent_quotePlus,
    decodeComponent_quotePlus]

theorem notMem_encodePair {pair : List Char × List Char} {c : Char} (special : unreserved c = false)
    (differs : c ≠ '%' ∧ c ≠ '+' ∧ c ≠ '=') : c ∉ encodePair pair := by
  rw [encodePair, List.mem_append, List.mem_cons, not_or, not_or]
  exact ⟨notMem_quotePlus special ⟨differs.1, differs.2.1⟩, differs.2.2, notMem_quotePlus special ⟨differs.1, differs.2.1⟩⟩

theorem encodePair_ne_nil (pair : List Char × List Char) : encodePair pair ≠ [] :=
  List.append_ne_nil_of_right_ne_nil _ (List.cons_ne_nil _ _)

/-- A reader of forms gets back what was encoded. -/
theorem parseQuery_urlencode (pairs : List (List Char × List Char)) : parseQuery (urlencode pairs) = pairs := by
  have pieces : urlencode pairs = ['&'].intercalate (pairs.map encodePair) := rfl
  cases pairs with
  | nil => rfl
  | cons pair rest =>
    rw [pieces, parseQuery_intercalate, List.map_map]
    · exact (List.map_congr_left fun pair _ => parsePair_encodePair pair).trans (List.map_id _)
    · intro piece member
      obtain ⟨pair, -, rfl⟩ := List.mem_map.mp member
      exact notMem_encodePair (by decide) (by decide)
    · intro piece member
      obtain ⟨pair, -, rfl⟩ := List.mem_map.mp member
      exact encodePair_ne_nil pair
    · exact List.cons_ne_nil _ _

/-- What has been encoded is not quoted again where its signs are safe. -/
theorem quote_encodePair {safe : List Char} (signs : '%' ∈ safe ∧ '+' ∈ safe ∧ '=' ∈ safe) (pair : List Char × List Char) :
    quote safe (encodePair pair) = encodePair pair := by
  have plus : ∀ text, ∀ c ∈ quotePlus text, c.toNat < 0x80 ∧ (unreserved c = true ∨ c ∈ safe) := by
    intro text c member
    cases plain : unreserved c with
    | true => exact ⟨unreserved_ascii plain, .inl rfl⟩
    | false =>
      have sign : c = '%' ∨ c = '+' := by
        by_contra no
        exact notMem_quotePlus plain (not_or.mp no) member
      rcases sign with rfl | rfl
      · exact ⟨by decide, .inr signs.1⟩
      · exact ⟨by decide, .inr signs.2.1⟩
  refine quote_eq_self fun c member => ?_
  rcases List.mem_append.mp member with name | rest
  · exact plus _ c name
  rcases List.mem_cons.mp rest with rfl | value
  · exact ⟨by decide, .inr signs.2.2⟩
  · exact plus _ c value

/-- An escaped ASCII character. -/
theorem unquote_escaped_ascii {a b c : Char} (ascii : c.toNat < 0x80) (digits : escaped a b = some (.ofNat c.toNat))
    (rest : List Char) : unquote ('%' :: a :: b :: rest) = c :: unquote rest := by
  have encoded := decodeFrom_encodeChar c (unquoteToBytes rest)
  rw [utf8EncodeChar_ascii ascii, List.singleton_append] at encoded
  rw [unquote, unquoteToBytes_escaped digits, encoded, unquote]

/-- A whole query that has been encoded is not quoted again either. -/
theorem quote_urlencode {safe : List Char} (signs : '%' ∈ safe ∧ '+' ∈ safe ∧ '=' ∈ safe) (joint : '&' ∈ safe)
    (pairs : List (List Char × List Char)) : quote safe (urlencode pairs) = urlencode pairs := by
  have ampersand : quote safe ['&'] = ['&'] := by
    refine quote_eq_self fun c member => ?_
    rw [List.mem_singleton.mp member]
    exact ⟨by decide, .inr joint⟩
  have pieces : urlencode pairs = ['&'].intercalate (pairs.map encodePair) := rfl
  rw [pieces, quote_intercalate ampersand, List.map_map]
  exact congrArg _ (List.map_congr_left fun pair _ => quote_encodePair signs pair)

theorem mem_quote_of_mem {safe text : List Char} {c : Char} (ascii : c.toNat < 0x80) (passes : c ∈ safe)
    (member : c ∈ text) : c ∈ quote safe text := by
  have kept : quote safe [c] = [c] := by
    refine quote_eq_self fun d single => ?_
    rw [List.mem_singleton.mp single]
    exact ⟨ascii, .inr passes⟩
  obtain ⟨before, after, rfl⟩ := List.append_of_mem member
  rw [quote_append, ← List.singleton_append, quote_append, kept]
  simp

/-- Quoted parts that are joined by a character that is then quoted itself are read back at once. -/
theorem unquote_quote_intercalate {wider : List Char} {a b separator : Char} (percent : '%' ∈ wider)
    (ascii : separator.toNat < 0x80) (digits : escaped a b = some (.ofNat separator.toNat))
    (spelled : quote wider [separator] = ['%', a, b]) (parts : List (List Char)) :
    unquote (quote wider ([separator].intercalate (parts.map (quote [])))) = [separator].intercalate parts := by
  have again : ∀ part, quote wider (quote [] part) = quote [] part := fun part =>
    quote_quote percent (fun _ no => absurd no List.not_mem_nil) (List.nil_subset _) part
  induction parts with
  | nil => rfl
  | cons part rest ih =>
    cases rest with
    | nil => simpa [List.intercalate, again] using unquote_quote List.not_mem_nil part
    | cons next rest =>
      rw [List.map_cons, List.map_cons, List.intercalate_cons_cons, quote_append, quote_append, again, spelled,
        List.append_assoc, unquote_quote_append List.not_mem_nil, List.cons_append, List.cons_append, List.cons_append,
        List.nil_append, unquote_escaped_ascii ascii digits, ← List.map_cons, ih, List.intercalate_cons_cons,
        List.append_assoc, List.singleton_append]

theorem notMem_intercalate {separator c : Char} {parts : List (List Char)} (differs : c ≠ separator)
    (absent : ∀ part ∈ parts, c ∉ part) : c ∉ [separator].intercalate parts := by
  induction parts with
  | nil => exact List.not_mem_nil
  | cons part rest ih =>
    rw [List.forall_mem_cons] at absent
    cases rest with
    | nil => simpa [List.intercalate] using absent.1
    | cons next rest =>
      rw [List.intercalate_cons_cons, List.mem_append, List.mem_append, List.mem_singleton, not_or, not_or]
      exact ⟨⟨absent.1, differs⟩, ih absent.2⟩

/-- A query that is put together of raw names and values, and quoted as a whole. -/
theorem parseQuery_quote_join {safe : List Char} (ampersand : quote safe ['&'] = ['&']) (equals : quote safe ['='] = ['='])
    {params : List (List Char × List Char)} (apart : ∀ param ∈ params, '&' ∉ param.1 ++ param.2)
    (names : ∀ param ∈ params, '=' ∉ param.1) (some : params ≠ []) :
    parseQuery (quote safe (['&'].intercalate (params.map fun param => param.1 ++ '=' :: param.2))) =
      params.map fun param => (decodeComponent (quote safe param.1), decodeComponent (quote safe param.2)) := by
  have joined : ∀ name value, quote safe (name ++ '=' :: value) = quote safe name ++ '=' :: quote safe value := by
    intro name value
    rw [quote_append, ← List.singleton_append, quote_append, equals, List.singleton_append]
  rw [quote_intercalate ampersand, List.map_map, parseQuery_intercalate, List.map_map]
  · refine List.map_congr_left fun param member => ?_
    rw [Function.comp_apply, Function.comp_apply, joined,
      parsePair_append (notMem_quote (names param member) (by decide) (by decide))]
  · intro piece member
    obtain ⟨param, given, rfl⟩ := List.mem_map.mp member
    have plain := apart param given
    rw [List.mem_append, not_or] at plain
    refine notMem_quote ?_ (by decide) (by decide)
    rw [List.mem_append, List.mem_cons, not_or, not_or]
    exact ⟨plain.1, by decide, plain.2⟩
  · intro piece member
    obtain ⟨param, -, rfl⟩ := List.mem_map.mp member
    rw [Function.comp_apply, joined]
    exact List.append_ne_nil_of_right_ne_nil _ (List.cons_ne_nil _ _)
  · exact fun no => some (List.map_eq_nil_iff.mp no)

/-- The fragment of a URL is no part of its query. -/
theorem query_append_of_mem {url : List Char} (fragment : '#' ∈ url) (rest : List Char) : query (url ++ rest) = query url := by
  obtain ⟨before, after, rfl, plain⟩ := List.eq_append_cons_of_mem fragment
  have whole : ∀ c ∈ before, decide (c ≠ '#') = true := fun c member =>
    decide_eq_true fun same : c = '#' => plain (same ▸ member)
  rw [query, query, List.append_assoc, List.takeWhile_append_of_pos whole, List.takeWhile_append_of_pos whole,
    List.cons_append, List.takeWhile_cons_of_neg (by simp), List.takeWhile_cons_of_neg (by simp)]

theorem query_of_notMem {url : List Char} (plain : '?' ∉ url) : query url = [] := by
  have none : ∀ c ∈ url.takeWhile (· ≠ '#'), decide (c ≠ '?') = true := fun c member =>
    decide_eq_true fun same : c = '?' => plain (same ▸ List.takeWhile_subset _ member)
  rw [query, List.dropWhile_eq_nil_iff.mpr none]
  rfl

theorem parsePair_question (pair : List Char × List Char) :
    parsePair ('?' :: encodePair pair) = ('?' :: pair.1, pair.2) := by
  have plain : '=' ∉ '?' :: quotePlus pair.1 := by
    rw [List.mem_cons, not_or]
    exact ⟨by decide, notMem_quotePlus (by decide) (by decide)⟩
  have name : decodeComponent ('?' :: quotePlus pair.1) = '?' :: decodeComponent (quotePlus pair.1) := by
    rw [decodeComponent, List.map_cons, if_neg (by decide), unquote_of_ne (by decide), decodeComponent]
  rw [encodePair, ← List.cons_append, parsePair_append plain, name, decodeComponent_quotePlus, decodeComponent_quotePlus]

/-- Behind a second question mark a piece is not read as itself. -/
theorem parseQuery_question (pair : List Char × List Char) (query rest : List Char) {others : List (List Char × List Char)}
    (length : others.length = (parseQuery rest).length) :
    parseQuery (query ++ '?' :: (encodePair pair ++ '&' :: rest)) ≠ parseQuery query ++ pair :: others := by
  induction size : query.length using Nat.strong_induction_on generalizing query with
  | _ n ih =>
    subst size
    by_cases several : '&' ∈ query
    · obtain ⟨piece, later, rfl⟩ := List.append_of_mem several
      rw [List.append_assoc, List.cons_append, parseQuery_append, parseQuery_append, List.append_assoc]
      intro same
      refine ih later.length ?_ later rfl (List.append_cancel_left same)
      rw [List.length_append, List.length_cons]
      omega
    · have apart : '&' ∉ query ++ '?' :: encodePair pair := by
        rw [List.mem_append, List.mem_cons, not_or, not_or]
        exact ⟨several, by decide, notMem_encodePair (by decide) (by decide)⟩
      rw [← List.cons_append, ← List.append_assoc, parseQuery_append,
        parseQuery_single apart (List.append_ne_nil_of_right_ne_nil _ (List.cons_ne_nil _ _)), List.singleton_append]
      by_cases empty : query = []
      · rw [empty, List.nil_append, parsePair_question]
        intro same
        have names := congrArg List.length (Prod.mk.inj (List.cons.inj same).1).1
        rw [List.length_cons] at names
        exact Nat.succ_ne_self _ names
      · rw [parseQuery_single several empty]
        intro same
        have lengths := congrArg List.length same
        simp only [List.length_append, List.length_cons, List.length_nil] at lengths
        omega

end UrlCoding
