import MetadataGraph.Lib.UrlCoding

namespace Urls

open UrlCoding

/-- The characters of a scheme. -/
def schemeChar (c : Char) : Bool := c.isAlphanum || c ∈ ['+', '-', '.']

def asciiLower (c : Char) : Char := if 65 ≤ c.toNat ∧ c.toNat ≤ 90 then .ofNat (c.toNat + 32) else c

/-- The scheme of a URL in lower case, and what comes after its colon. -/
def splitScheme (url : List Char) : Option (List Char × List Char) :=
  let name := url.takeWhile schemeChar
  match url.dropWhile schemeChar with
  | ':' :: rest => if name.head?.any Char.isAlpha then some (name.map asciiLower, rest) else none
  | _ => none

/-- What comes after the last mark, or the whole text where there is none. -/
def afterLast (mark : Char) : List Char → List Char
  | [] => []
  | c :: rest => if mark ∈ rest then afterLast mark rest else if c = mark then rest else c :: rest

def controlOrSpace (c : Char) : Bool := c.toNat ≤ 0x20

/-- The characters that are taken out of a URL before it is read. -/
def lineChar (c : Char) : Bool := c ∈ ['\t', '\n', '\r']

/-! ### The server's reading -/

/-- The names under which a machine is reached from itself. -/
def loopbackNames : List (List Char) := ["127.0.0.1".toList, "::1".toList, "localhost".toList]

/-- What the reading of a host name rests on: `str.lower`, which texts are addresses in brackets, and
which authorities have no delimiter under NFKC. Only ASCII letters have those of the loopback names
as their lower case. -/
structure Texts where
  lower : List Char → List Char
  address : List Char → Bool
  normal : List Char → Bool
  lower_loopback : ∀ {text name}, name ∈ loopbackNames → lower text = name → text.map asciiLower = name

/-- A URL without what it cannot begin with and without the characters that are taken out. -/
def cleaned (url : List Char) : List Char := (url.dropWhile controlOrSpace).filter (!lineChar ·)

def afterScheme (url : List Char) : List Char :=
  match splitScheme url with
  | some (_, rest) => rest
  | none => url

/-- `urlsplit(url).netloc`, where nothing is raised. -/
def netloc (p : Texts) (url : List Char) : Option (List Char) :=
  match afterScheme (cleaned url) with
  | '/' :: '/' :: rest =>
    let netloc := rest.takeWhile (· ∉ ['/', '?', '#'])
    if netloc.contains '[' ≠ netloc.contains ']' then none
    else if netloc.contains '[' && !p.address ((netloc.dropWhile (· ≠ '[')).tail.takeWhile (· ≠ ']')) then none
    else if !p.normal netloc then none
    else some netloc
  | _ => some []

/-- `_hostinfo`, without the port. -/
def hostOf (netloc : List Char) : List Char :=
  let info := afterLast '@' netloc
  if '[' ∈ info then (info.dropWhile (· ≠ '[')).tail.takeWhile (· ≠ ']') else info.takeWhile (· ≠ ':')

/-- `urlparse(url).hostname or ""`, where nothing is raised. -/
def hostname (p : Texts) (url : List Char) : Option (List Char) :=
  (netloc p url).map fun netloc =>
    let host := hostOf netloc
    p.lower (host.takeWhile (· ≠ '%')) ++ host.dropWhile (· ≠ '%')

/-! ### The browser's reading -/

/-- Where a browser connects to. -/
structure Target where
  scheme : List Char
  host : List Char
  port : ℕ
  deriving DecidableEq

def loopbackHosts : List (List Char) := ["127.0.0.1".toList, "[::1]".toList, "localhost".toList]

/-- The special schemes that are reached over a network, with their ports. -/
def defaultPort (scheme : List Char) : Option ℕ :=
  [("ftp".toList, 21), ("http".toList, 80), ("https".toList, 443), ("ws".toList, 80), ("wss".toList, 443)].lookup scheme

/-- The host parser of a browser for special schemes. A bracket stands at the ends of a host or
nowhere, no control character is in one, and the loopback names stand for themselves. -/
structure Browser where
  host : List Char → Option (List Char)
  bracket_first : ∀ {before after : List Char} {h}, host (before ++ '[' :: after) = some h → before = []
  bracket_closed : ∀ {inner : List Char} {h}, host ('[' :: inner) = some h → ']' ∈ inner
  bracket_last : ∀ {inner after : List Char} {h}, host ('[' :: (inner ++ ']' :: after)) = some h → after = []
  noControl : ∀ {before after : List Char} {a b byte h},
    host (before ++ '%' :: a :: b :: after) = some h → escaped a b = some byte → 0x20 ≤ byte.toNat
  loopback : ∀ {text name h}, name ∈ loopbackNames →
    text.map asciiLower = name ∨ text.map asciiLower = '[' :: (name ++ [']']) → host text = some h → h ∈ loopbackHosts

/-- The text of a host and the text of its port. A colon inside brackets begins no port. -/
def splitPort : Bool → List Char → List Char × Option (List Char)
  | _, [] => ([], none)
  | inside, c :: rest =>
    if c = ':' ∧ inside = false then ([], some rest)
    else
      let after := splitPort (if c = '[' then true else if c = ']' then false else inside) rest
      (c :: after.1, after.2)

def portOf (scheme : List Char) : Option (List Char) → Option ℕ
  | none | some [] => defaultPort scheme
  | some digits =>
    let port := digits.foldl (fun n c => n * 10 + (c.toNat - 48)) 0
    if digits.all Char.isDigit && port ≤ 65535 then some port else none

def slash (c : Char) : Bool := c ∈ ['/', '\\']

/-- The authority state and those after it, for a special scheme. -/
def Browser.authority (b : Browser) (scheme rest : List Char) : Option Target :=
  let parts := splitPort false (afterLast '@' (rest.takeWhile (· ∉ ['/', '\\', '?', '#'])))
  if parts.1 = [] then none
  else (b.host parts.1).bind fun host => (portOf scheme parts.2).map fun port => ⟨scheme, host, port⟩

/-- The relative state and those after it, for a base with a special scheme. -/
def Browser.relative (b : Browser) (base : Target) : List Char → Option Target
  | first :: second :: rest =>
    if slash first && slash second then b.authority base.scheme (rest.dropWhile slash) else some base
  | _ => some base

def tidy (url : List Char) : List Char :=
  ((url.dropWhile controlOrSpace).reverse.dropWhile controlOrSpace).reverse.filter (!lineChar ·)

/-- Where a browser connects to when it follows a link from a page. It connects nowhere for a scheme
that is not special, for `file`, and where the URL cannot be read. -/
def Browser.resolve (b : Browser) (base : Target) (url : List Char) : Option Target :=
  match splitScheme (tidy url) with
  | none => b.relative base (tidy url)
  | some (scheme, rest) =>
    if defaultPort scheme = none then none
    else if scheme = base.scheme ∧ ¬ "//".toList.isPrefixOf rest = true then b.relative base rest
    else b.authority scheme (rest.dropWhile slash)

/-! ### Splitting -/

theorem splitScheme_of_colon {url rest : List Char} (colon : url.dropWhile schemeChar = ':' :: rest) :
    splitScheme url = if (url.takeWhile schemeChar).head?.any Char.isAlpha then
      some ((url.takeWhile schemeChar).map asciiLower, rest) else none := by
  simp only [splitScheme, colon]

theorem splitScheme_eq_none {url : List Char} (noColon : ∀ rest, url.dropWhile schemeChar ≠ ':' :: rest) :
    splitScheme url = none := by
  rw [splitScheme]
  split
  · exact absurd ‹_› (noColon _)
  · rfl

theorem takeWhile_append_stop {q : Char → Bool} {stop : Char} (stops : q stop = false) (text rest : List Char) :
    (text ++ stop :: rest).takeWhile q = text.takeWhile q := by
  induction text with
  | nil => exact List.takeWhile_cons_of_neg (Bool.eq_false_iff.mp stops)
  | cons c text ih =>
    rw [List.cons_append, List.takeWhile_cons, List.takeWhile_cons, ih]

/-- A scheme is a name that begins with a letter and stands before the first colon. -/
theorem splitScheme_eq_some {url scheme rest : List Char} : splitScheme url = some (scheme, rest) ↔
    ∃ name, url = name ++ ':' :: rest ∧ (∀ c ∈ name, schemeChar c = true) ∧ name.head?.any Char.isAlpha = true ∧
      scheme = name.map asciiLower := by
  constructor
  · intro given
    rw [splitScheme] at given
    split at given
    · rename_i rest' colon
      split at given
      · rename_i letter
        obtain ⟨rfl, rfl⟩ := Prod.mk.inj (Option.some.inj given)
        refine ⟨url.takeWhile schemeChar, ?_, fun c member => List.mem_takeWhile_imp member, letter, rfl⟩
        rw [← colon, List.takeWhile_append_dropWhile]
      · cases given
    · cases given
  · rintro ⟨name, rfl, plain, letter, rfl⟩
    have taken : (name ++ ':' :: rest).takeWhile schemeChar = name := by
      rw [List.takeWhile_append_of_pos plain, List.takeWhile_cons_of_neg (by decide), List.append_nil]
    have dropped : (name ++ ':' :: rest).dropWhile schemeChar = ':' :: rest := by
      rw [List.dropWhile_append_of_pos plain, List.dropWhile_cons_of_neg (by decide)]
    rw [splitScheme_of_colon dropped, taken, if_pos letter]

/-- What stands behind a character that is in no scheme does not matter to the scheme. -/
theorem splitScheme_append {stop : Char} (other : schemeChar stop = false) (differs : stop ≠ ':') (url more : List Char) :
    splitScheme (url ++ stop :: more) = (splitScheme url).map fun parts => (parts.1, parts.2 ++ stop :: more) := by
  rcases given : splitScheme url with _ | ⟨scheme, rest⟩
  · rw [Option.map_none, Option.eq_none_iff_forall_ne_some]
    rintro ⟨scheme, rest⟩ longer
    obtain ⟨name, whole, plain, letter, -⟩ := splitScheme_eq_some.mp longer
    rcases List.append_eq_append_iff.mp whole with ⟨later, rfl, split⟩ | ⟨later, rfl, split⟩
    · cases later with
      | nil => exact differs (List.cons.inj split).1
      | cons c later =>
        have same := (List.cons.inj split).1
        have inName := plain c (List.mem_append_right _ List.mem_cons_self)
        exact Bool.false_ne_true (other.symm.trans (same ▸ inName))
    · cases later with
      | nil => exact differs (List.cons.inj split).1.symm
      | cons c later =>
        rw [← (List.cons.inj split).1] at given
        rw [splitScheme_eq_some.mpr ⟨name, rfl, plain, letter, rfl⟩] at given
        cases given
  · obtain ⟨name, rfl, plain, letter, lower⟩ := splitScheme_eq_some.mp given
    rw [Option.map_some]
    exact splitScheme_eq_some.mpr ⟨name, by rw [List.append_assoc, List.cons_append], plain, letter, lower⟩

theorem afterLast_of_notMem {mark : Char} {text : List Char} (absent : mark ∉ text) : afterLast mark text = text := by
  cases text with
  | nil => rfl
  | cons c rest =>
    rw [List.mem_cons, not_or] at absent
    rw [afterLast, if_neg absent.2, if_neg (Ne.symm absent.1)]

theorem afterLast_append {mark : Char} {text : List Char} (member : mark ∈ text) (before : List Char) :
    afterLast mark (before ++ text) = afterLast mark text := by
  induction before with
  | nil => rfl
  | cons c before ih => rw [List.cons_append, afterLast, if_pos (List.mem_append_right before member), ih]

theorem splitPort_append {before : List Char} (plain : ∀ c ∈ before, c ≠ ':' ∧ c ≠ '[' ∧ c ≠ ']') (inside : Bool)
    (text : List Char) : splitPort inside (before ++ text) = (before ++ (splitPort inside text).1, (splitPort inside text).2) := by
  induction before with
  | nil => rfl
  | cons c before ih =>
    rw [List.forall_mem_cons] at plain
    obtain ⟨⟨noColon, noOpen, noClose⟩, plain⟩ := plain
    rw [List.cons_append, splitPort, if_neg (fun no => noColon no.1), if_neg noOpen, if_neg noClose, ih plain]
    rfl

theorem splitPort_spec (inside : Bool) (text : List Char) :
    (splitPort inside text).2 = none ∧ text = (splitPort inside text).1 ∨
      ∃ port, (splitPort inside text).2 = some port ∧ text = (splitPort inside text).1 ++ ':' :: port := by
  induction text generalizing inside with
  | nil => exact .inl ⟨rfl, rfl⟩
  | cons c text ih =>
    rw [splitPort]
    split
    · rename_i colon
      exact .inr ⟨text, rfl, by rw [colon.1, List.nil_append]⟩
    · rcases ih (if c = '[' then true else if c = ']' then false else inside) with ⟨port, whole⟩ | ⟨port, given, whole⟩
      · exact .inl ⟨port, congrArg (c :: ·) whole⟩
      · exact .inr ⟨port, given, congrArg (c :: ·) whole⟩

/-- Where no bracket opens, the host ends at the first colon. -/
theorem splitPort_of_notMem {text : List Char} (absent : '[' ∉ text) : (splitPort false text).1 = text.takeWhile (· ≠ ':') := by
  induction text with
  | nil => rfl
  | cons c text ih =>
    rw [List.mem_cons, not_or] at absent
    by_cases colon : c = ':'
    · rw [splitPort, if_pos ⟨colon, rfl⟩, List.takeWhile_cons_of_neg (by simp [colon])]
    · have outside : (if c = '[' then true else if c = ']' then false else false) = false := by
        rw [if_neg (Ne.symm absent.1), ite_self]
      rw [splitPort, if_neg (fun no => colon no.1), List.takeWhile_cons_of_pos (by simp [colon]), outside]
      exact congrArg (c :: ·) (ih absent.2)

theorem notMem_of_portOf {scheme digits : List Char} {port : ℕ} {c : Char} (read : portOf scheme (some digits) = some port)
    (other : c.isDigit = false) : c ∉ digits := by
  intro member
  rw [portOf] at read
  · split at read
    · rename_i accepted
      rw [Bool.and_eq_true] at accepted
      exact Bool.false_ne_true (other.symm.trans (List.all_eq_true.mp accepted.1 c member))
    · cases read
  · rintro rfl
    cases member

/-! ### What is taken out -/

theorem takeWhile_filter_line {q : Char → Bool} (passes : ∀ c, lineChar c = true → q c = true) (text : List Char) :
    (text.filter (!lineChar ·)).takeWhile q = (text.takeWhile q).filter (!lineChar ·) := by
  have same : (fun c => !!lineChar c || q c) = q := by
    funext c
    rw [Bool.not_not]
    cases line : lineChar c with
    | false => rfl
    | true => rw [passes c line, Bool.or_true]
  rw [List.takeWhile_filter, same]

theorem passes_line (c : Char) (line : lineChar c = true) : decide (c ∉ ['/', '?', '#']) = true := by
  have all : ['\t', '\n', '\r'].all (· ∉ ['/', '?', '#']) = true := by decide
  exact List.all_eq_true.mp all c (of_decide_eq_true line)

theorem mem_filter_line {c : Char} (shown : lineChar c = false) {text : List Char} :
    c ∈ text.filter (!lineChar ·) ↔ c ∈ text := by
  rw [List.mem_filter, shown]
  exact and_iff_left rfl

theorem afterLast_filter_line (text : List Char) :
    afterLast '@' (text.filter (!lineChar ·)) = (afterLast '@' text).filter (!lineChar ·) := by
  induction text with
  | nil => rfl
  | cons c text ih =>
    cases line : lineChar c with
    | true =>
      have differs : c ≠ '@' := by
        rintro rfl
        exact absurd line (by decide)
      rw [List.filter_cons_of_neg (by simp [line]), afterLast, ih, if_neg differs]
      split
      · rfl
      · rw [afterLast_of_notMem ‹_›, List.filter_cons_of_neg (by simp [line])]
    | false =>
      rw [List.filter_cons_of_pos (by simp [line]), afterLast, afterLast, ih,
        if_congr (mem_filter_line (by decide)) rfl rfl]
      split
      · rfl
      split
      · rfl
      · rw [List.filter_cons_of_pos (by simp [line])]

/-! ### What has been quoted -/

/-- What a redirect keeps as it is: the signs of a URL, but no backslash, space or control character. -/
structure KeepsSigns (safe : List Char) : Prop where
  ascii : ∀ c ∈ safe, c.toNat < 0x80
  signs : ∀ c ∈ [':', '/', '?', '#', '@', '[', ']', '+'], c ∈ safe
  visible : ∀ c ∈ safe, controlOrSpace c = false
  backslash : '\\' ∉ safe

/-- No sign of a URL stands in what is put for a character that is not kept. -/
theorem ne_sign {c d : Char} (sign : c ∈ [':', '/', '\\', '?', '#', '@', '[', ']', '+']) (kind : unreserved d = true ∨ d = '%') :
    d ≠ c := by
  have special : [':', '/', '\\', '?', '#', '@', '[', ']', '+'].all (fun c => unreserved c = false ∧ c ≠ '%') = true := by
    decide
  rintro rfl
  obtain ⟨escapes, differs⟩ := of_decide_eq_true (List.all_eq_true.mp special d sign)
  exact kind.elim (fun plain => Bool.false_ne_true (escapes.symm.trans plain)) differs

theorem controlOrSpace_of_unreserved {c : Char} (plain : unreserved c = true) : controlOrSpace c = false := by
  have all : ∀ n : Fin 33, unreserved (Char.ofNat n) = false := by decide
  rw [controlOrSpace, decide_eq_false_iff_not]
  intro small
  have special := all ⟨c.toNat, Nat.lt_succ_of_le small⟩
  rw [Char.ofNat_toNat] at special
  exact Bool.false_ne_true (special.symm.trans plain)

theorem controlOrSpace_of_lineChar {c : Char} (line : lineChar c = true) : controlOrSpace c = true := by
  have all : ['\t', '\n', '\r'].all controlOrSpace = true := by decide
  exact List.all_eq_true.mp all c (of_decide_eq_true line)

theorem toNat_lt_of_lineChar {c : Char} (line : lineChar c = true) : c.toNat < 0x20 := by
  have all : ['\t', '\n', '\r'].all (·.toNat < 0x20) = true := by decide
  exact of_decide_eq_true (List.all_eq_true.mp all c (of_decide_eq_true line))

theorem unreserved_or_plus {c : Char} (name : schemeChar c = true) : unreserved c = true ∨ c = '+' := by
  rw [schemeChar, Bool.or_eq_true] at name
  rcases name with letter | mark
  · exact .inl (by rw [unreserved, letter, Bool.true_or])
  · have all : ['+', '-', '.'].all (fun c => unreserved c || c = '+') = true := by decide
    have kind := List.all_eq_true.mp all c (of_decide_eq_true mark)
    rw [Bool.or_eq_true, decide_eq_true_eq] at kind
    exact kind

/-- The host and the port of an authority, as they stand in the text. -/
def hostAndPort (text : List Char) : List Char × Option (List Char) :=
  splitPort false (afterLast '@' (text.takeWhile (· ∉ ['/', '?', '#'])))

section Quoted

variable {safe : List Char} (keeps : KeepsSigns safe)

include keeps

theorem KeepsSigns.quote_kept {c : Char} (kept : unreserved c = true ∨ c ∈ safe) (text : List Char) :
    quote safe (c :: text) = c :: quote safe text := by
  have self : quote safe [c] = [c] := quote_eq_self fun d single => by
    rw [List.mem_singleton.mp single]
    exact ⟨kept.elim unreserved_ascii (keeps.ascii c), kept⟩
  rw [← List.singleton_append, quote_append, self, List.singleton_append]

theorem KeepsSigns.sign {c : Char} (sign : c ∈ [':', '/', '?', '#', '@', '[', ']', '+']) (text : List Char) :
    quote safe (c :: text) = c :: quote safe text := keeps.quote_kept (.inr (keeps.signs c sign)) text

omit keeps in
/-- What stands for any other character. -/
theorem quote_escaped {c : Char} (special : ¬ (unreserved c = true ∨ c ∈ safe)) :
    ∃ more, (∀ text, quote safe (c :: text) = '%' :: more ++ quote safe text) ∧
      ∀ d ∈ '%' :: more, unreserved d = true ∨ d = '%' := by
  rw [not_or, Bool.not_eq_true] at special
  obtain ⟨more, spelled⟩ := quote_singleton_of_not special.1 special.2
  refine ⟨more, fun text => ?_, fun d member => ?_⟩
  · rw [← List.singleton_append, quote_append, spelled]
  · rcases mem_quote (spelled ▸ member) with plain | percent | ⟨single, passes⟩
    · exact .inl plain
    · exact .inr percent
    · exact absurd (List.mem_singleton.mp single ▸ passes) special.2

theorem KeepsSigns.quote_eq_nil {text : List Char} : quote safe text = [] ↔ text = [] := by
  cases text with
  | nil => exact iff_of_true rfl rfl
  | cons c rest =>
    refine iff_of_false (fun no => ?_) (List.cons_ne_nil _ _)
    by_cases kept : unreserved c = true ∨ c ∈ safe
    · rw [keeps.quote_kept kept] at no
      cases no
    · obtain ⟨more, coded, -⟩ := quote_escaped kept
      rw [coded] at no
      cases no

theorem KeepsSigns.takeWhile_quote {p q : Char → Bool} (same : ∀ c, unreserved c = true ∨ c ∈ safe → p c = q c)
    (free : ∀ c, c ∉ safe → q c = true) (escape : ∀ c, unreserved c = true ∨ c = '%' → p c = true) (text : List Char) :
    (quote safe text).takeWhile p = quote safe (text.takeWhile q) := by
  induction text with
  | nil => rfl
  | cons c text ih =>
    by_cases kept : unreserved c = true ∨ c ∈ safe
    · rw [keeps.quote_kept kept, List.takeWhile_cons, List.takeWhile_cons, same c kept]
      cases q c with
      | false => rfl
      | true => rw [if_pos rfl, if_pos rfl, ih, keeps.quote_kept kept]
    · obtain ⟨more, coded, escaped⟩ := quote_escaped kept
      rw [coded, List.takeWhile_append_of_pos (fun d member => escape d (escaped d member)), ih,
        List.takeWhile_cons_of_pos (free c (not_or.mp kept).2), coded]

/-- The text of an authority ends at the same sign. -/
theorem KeepsSigns.authority_quote (text : List Char) :
    (quote safe text).takeWhile (· ∉ ['/', '\\', '?', '#']) = quote safe (text.takeWhile (· ∉ ['/', '?', '#'])) := by
  have narrower : ['/', '?', '#'] ⊆ [':', '/', '?', '#', '@', '[', ']', '+'] := by decide
  have wider : ['/', '\\', '?', '#'] ⊆ [':', '/', '\\', '?', '#', '@', '[', ']', '+'] := by decide
  refine keeps.takeWhile_quote ?_ ?_ ?_ text
  · intro c kept
    have differs : c ≠ '\\' := by
      rintro rfl
      exact kept.elim (by decide) keeps.backslash
    simp [differs]
  · intro c escapes
    exact decide_eq_true fun sign => escapes (keeps.signs c (narrower sign))
  · intro c kind
    exact decide_eq_true fun sign => ne_sign (wider sign) kind rfl

theorem KeepsSigns.mem_quote_iff {c : Char} (sign : c ∈ [':', '/', '?', '#', '@', '[', ']', '+']) {text : List Char} :
    c ∈ quote safe text ↔ c ∈ text := by
  have wider : [':', '/', '?', '#', '@', '[', ']', '+'] ⊆ [':', '/', '\\', '?', '#', '@', '[', ']', '+'] := by decide
  refine ⟨fun member => ?_, mem_quote_of_mem (keeps.ascii c (keeps.signs c sign)) (keeps.signs c sign)⟩
  rcases mem_quote member with plain | percent | ⟨source, -⟩
  · exact absurd rfl (ne_sign (wider sign) (.inl plain))
  · exact absurd rfl (ne_sign (wider sign) (.inr percent))
  · exact source

theorem KeepsSigns.afterLast_quote (text : List Char) : afterLast '@' (quote safe text) = quote safe (afterLast '@' text) := by
  have sign : '@' ∈ [':', '/', '?', '#', '@', '[', ']', '+'] := by decide
  induction text with
  | nil => rfl
  | cons c text ih =>
    by_cases kept : unreserved c = true ∨ c ∈ safe
    · rw [keeps.quote_kept kept, afterLast, afterLast, ih, if_congr (keeps.mem_quote_iff sign) rfl rfl]
      split
      · rfl
      split
      · rfl
      · rw [keeps.quote_kept kept]
    · obtain ⟨more, coded, escaped⟩ := quote_escaped kept
      have differs : c ≠ '@' := by
        rintro rfl
        exact kept (.inr (keeps.signs '@' sign))
      rw [coded, afterLast, if_neg differs]
      by_cases later : '@' ∈ text
      · rw [if_pos later, afterLast_append ((keeps.mem_quote_iff sign).mpr later), ih]
      · rw [if_neg later, ← coded, afterLast_of_notMem]
        rw [keeps.mem_quote_iff sign, List.mem_cons, not_or]
        exact ⟨Ne.symm differs, later⟩

theorem KeepsSigns.splitPort_quote (inside : Bool) (text : List Char) : splitPort inside (quote safe text) =
    (quote safe (splitPort inside text).1, (splitPort inside text).2.map (quote safe)) := by
  induction text generalizing inside with
  | nil => rfl
  | cons c text ih =>
    by_cases kept : unreserved c = true ∨ c ∈ safe
    · rw [keeps.quote_kept kept, splitPort, splitPort]
      split
      · rfl
      · rw [ih, keeps.quote_kept kept]
    · obtain ⟨more, coded, escaped⟩ := quote_escaped kept
      have differs : c ≠ ':' ∧ c ≠ '[' ∧ c ≠ ']' := by
        refine ⟨?_, ?_, ?_⟩ <;> rintro rfl <;> exact kept (.inr (keeps.signs _ (by decide)))
      rw [coded, splitPort_append (fun d member => ⟨ne_sign (by decide) (escaped d member),
        ne_sign (by decide) (escaped d member), ne_sign (by decide) (escaped d member)⟩), ih, splitPort,
        if_neg (fun no => differs.1 no.1), if_neg differs.2.1, if_neg differs.2.2, coded]

theorem KeepsSigns.visible_quote {text : List Char} {c : Char} (member : c ∈ quote safe text) : controlOrSpace c = false := by
  rcases mem_quote member with plain | rfl | ⟨-, passes⟩
  · exact controlOrSpace_of_unreserved plain
  · rfl
  · exact keeps.visible c passes

theorem KeepsSigns.tidy_quote (text : List Char) : tidy (quote safe text) = quote safe text := by
  have keepsAll : ∀ text : List Char, (∀ c ∈ text, controlOrSpace c = false) → text.dropWhile controlOrSpace = text := by
    intro text visible
    cases text with
    | nil => rfl
    | cons c rest => exact List.dropWhile_cons_of_neg (Bool.eq_false_iff.mp (visible c List.mem_cons_self))
  have whole : ∀ c ∈ quote safe text, controlOrSpace c = false := fun c member => keeps.visible_quote member
  rw [tidy, keepsAll _ whole, keepsAll _ (fun c member => whole c (List.mem_reverse.mp member)), List.reverse_reverse,
    List.filter_eq_self]
  intro c member
  rw [Bool.not_eq_true', Bool.eq_false_iff]
  exact fun line => Bool.false_ne_true ((whole c member).symm.trans (controlOrSpace_of_lineChar line))

/-- The scheme of a URL is not changed, and what comes after it is quoted by itself. -/
theorem KeepsSigns.splitScheme_quote (text : List Char) : splitScheme (quote safe text) =
    (splitScheme text).map fun parts => (parts.1, quote safe parts.2) := by
  have keptName : ∀ c, schemeChar c = true → unreserved c = true ∨ c ∈ safe := by
    intro c name
    rcases unreserved_or_plus name with plain | rfl
    · exact .inl plain
    · exact .inr (keeps.signs '+' (by decide))
  have split : ∀ text : List Char, (quote safe text).takeWhile schemeChar = text.takeWhile schemeChar ∧
      (quote safe text).dropWhile schemeChar = quote safe (text.dropWhile schemeChar) := by
    intro text
    induction text with
    | nil => exact ⟨rfl, rfl⟩
    | cons c text ih =>
      by_cases name : schemeChar c = true
      · rw [keeps.quote_kept (keptName c name), List.takeWhile_cons_of_pos name, List.takeWhile_cons_of_pos name,
          List.dropWhile_cons_of_pos name, List.dropWhile_cons_of_pos name, ih.1]
        exact ⟨rfl, ih.2⟩
      · have head : ∃ d more, quote safe (c :: text) = d :: more ∧ schemeChar d = false := by
          by_cases kept : unreserved c = true ∨ c ∈ safe
          · exact ⟨c, _, keeps.quote_kept kept text, Bool.eq_false_iff.mpr name⟩
          · obtain ⟨more, coded, -⟩ := quote_escaped kept
            exact ⟨'%', _, coded text, by decide⟩
        obtain ⟨d, more, coded, stop⟩ := head
        have stops := Bool.eq_false_iff.mp stop
        rw [List.takeWhile_cons_of_neg name, List.dropWhile_cons_of_neg name, coded, List.takeWhile_cons_of_neg stops,
          List.dropWhile_cons_of_neg stops]
        exact ⟨rfl, rfl⟩
  obtain ⟨names, rests⟩ := split text
  cases rest : text.dropWhile schemeChar with
  | nil =>
    rw [rest] at rests
    rw [splitScheme_eq_none (by rw [rests]; exact fun _ no => (by cases no)),
      splitScheme_eq_none (by rw [rest]; exact fun _ no => (by cases no)), Option.map_none]
  | cons c after =>
    by_cases colon : c = ':'
    · rw [rest, colon, keeps.sign (by decide)] at rests
      rw [colon] at rest
      rw [splitScheme_of_colon rests, splitScheme_of_colon rest, names]
      split <;> rfl
    · rw [rest] at rests
      have other : ∀ more, quote safe (c :: after) ≠ ':' :: more := by
        intro more same
        by_cases kept : unreserved c = true ∨ c ∈ safe
        · rw [keeps.quote_kept kept] at same
          exact colon (List.cons.inj same).1
        · obtain ⟨coded, spelled, -⟩ := quote_escaped kept
          rw [spelled] at same
          exact absurd (List.cons.inj same).1 (by decide)
      rw [splitScheme_eq_none (by rw [rests]; exact other),
        splitScheme_eq_none (by rw [rest]; exact fun _ no => colon (List.cons.inj no).1), Option.map_none]

/-- Where an authority that has been quoted leads to, from the text as it was. -/
theorem KeepsSigns.authority_eq (b : Browser) (scheme text : List Char) : b.authority scheme (quote safe text) =
    if (hostAndPort text).1 = [] then none
    else (b.host (quote safe (hostAndPort text).1)).bind fun host =>
      (portOf scheme ((hostAndPort text).2.map (quote safe))).map fun port => ⟨scheme, host, port⟩ := by
  rw [Browser.authority, keeps.authority_quote, keeps.afterLast_quote, keeps.splitPort_quote]
  exact if_congr keeps.quote_eq_nil rfl rfl

/-- No browser reads a host in which an escape stands for a character that was to be taken out. -/
theorem KeepsSigns.noLine {b : Browser} {text : List Char} {h : List Char} (read : b.host (quote safe text) = some h) :
    ∀ c ∈ text, lineChar c = false := by
  intro c member
  rw [Bool.eq_false_iff]
  intro line
  obtain ⟨before, after, rfl⟩ := List.append_of_mem member
  have control := controlOrSpace_of_lineChar line
  have escapes : ¬ (unreserved c = true ∨ c ∈ safe) := by
    rintro (plain | passes)
    · exact Bool.false_ne_true ((controlOrSpace_of_unreserved plain).symm.trans control)
    · exact Bool.false_ne_true ((keeps.visible c passes).symm.trans control)
  have small := toNat_lt_of_lineChar line
  have spelled : quote safe (c :: after) = '%' :: hexDigit (c.toNat / 16) :: hexDigit (c.toNat % 16) :: quote safe after := by
    rw [← List.singleton_append, quote_append, quote_singleton_ascii (by omega) escapes]
    rfl
  rw [quote_append, spelled] at read
  have byte := escaped_hexDigit (.ofNat c.toNat)
  rw [toNat_ofNat (by omega)] at byte
  have visible := b.noControl read byte
  rw [toNat_ofNat (by omega)] at visible
  omega

/-- A host in which a bracket opens stands in brackets as a whole. -/
theorem KeepsSigns.bracketed {b : Browser} {text : List Char} {h : List Char} (read : b.host (quote safe text) = some h)
    (opened : '[' ∈ text) : ∃ inner, text = '[' :: (inner ++ [']']) ∧ ']' ∉ inner := by
  obtain ⟨before, after, rfl⟩ := List.append_of_mem opened
  rw [quote_append, keeps.sign (by decide)] at read
  have first : before = [] := keeps.quote_eq_nil.mp (b.bracket_first read)
  subst first
  have closed := (keeps.mem_quote_iff (by decide)).mp (b.bracket_closed read)
  obtain ⟨inner, rest, rfl, absent⟩ := List.eq_append_cons_of_mem closed
  rw [quote_append, keeps.sign (by decide)] at read
  have last : rest = [] := keeps.quote_eq_nil.mp (b.bracket_last read)
  exact ⟨inner, by rw [last, List.nil_append], absent⟩

theorem KeepsSigns.quote_loopback {text name : List Char} (known : name ∈ loopbackNames)
    (spelled : text.map asciiLower = name) : quote safe text = text := by
  have letters : ∀ n : Fin 26, unreserved (Char.ofNat (n + 65)) = true := by decide
  have signs : loopbackNames.all (·.all fun c => unreserved c || c = ':') = true := by decide
  refine quote_eq_self fun c member => ?_
  have kept : unreserved c = true ∨ c ∈ safe := by
    have lower : asciiLower c ∈ name := spelled ▸ List.mem_map_of_mem member
    rw [asciiLower] at lower
    split at lower
    · rename_i upper
      have letter := letters ⟨c.toNat - 65, by omega⟩
      rw [show c.toNat - 65 + 65 = c.toNat by omega, Char.ofNat_toNat] at letter
      exact .inl letter
    · have kind := List.all_eq_true.mp (List.all_eq_true.mp signs name known) c lower
      rw [Bool.or_eq_true, decide_eq_true_eq] at kind
      rcases kind with plain | rfl
      · exact .inl plain
      · exact .inr (keeps.signs ':' (by decide))
  exact ⟨kept.elim unreserved_ascii (keeps.ascii c), kept⟩

/-- A bracketed host that the server reads as a loopback name. -/
theorem KeepsSigns.loopback_bracketed {b : Browser} {inner tail name : List Char} {h : List Char} (known : name ∈ loopbackNames)
    (read : b.host (quote safe ('[' :: (inner ++ [']']))) = some h) (absent : ']' ∉ inner)
    (host : ((((('[' :: (inner ++ [']'])) ++ tail).filter (!lineChar ·)).dropWhile (· ≠ '[')).tail.takeWhile
      (· ≠ ']')).map asciiLower = name) : h ∈ loopbackHosts := by
  have plain := keeps.noLine read
  have shown : inner.filter (!lineChar ·) = inner := List.filter_eq_self.mpr fun c member => by
    rw [plain c (List.mem_cons_of_mem _ (List.mem_append_left _ member)), Bool.not_false]
  have filtered : (('[' :: (inner ++ [']'])) ++ tail).filter (!lineChar ·) =
      '[' :: (inner ++ ']' :: tail.filter (!lineChar ·)) := by
    rw [List.cons_append, List.filter_cons_of_pos (by decide), List.filter_append, List.filter_append, shown,
      List.filter_cons_of_pos (by decide), List.filter_nil, List.append_assoc, List.singleton_append]
  have before : ∀ c ∈ inner, decide (c ≠ ']') = true := fun c member =>
    decide_eq_true fun same : c = ']' => absent (same ▸ member)
  rw [filtered, List.dropWhile_cons_of_neg (by simp), List.tail_cons, List.takeWhile_append_of_pos before,
    List.takeWhile_cons_of_neg (by simp), List.append_nil] at host
  rw [keeps.sign (by decide), quote_append, keeps.quote_loopback known host, keeps.sign (by decide)] at read
  refine b.loopback known (.inr ?_) read
  rw [List.map_cons, List.map_append, host]
  rfl

/-- A browser that is led to what the server reads as a loopback name connects to the machine itself. -/
theorem KeepsSigns.loopback {b : Browser} {scheme text name : List Char} {target : Target} (known : name ∈ loopbackNames)
    (host : (hostOf ((text.filter (!lineChar ·)).takeWhile (· ∉ ['/', '?', '#']))).map asciiLower = name)
    (resolved : b.authority scheme (quote safe text) = some target) : target.host ∈ loopbackHosts := by
  rw [keeps.authority_eq] at resolved
  split at resolved
  · cases resolved
  obtain ⟨h, read, resolved⟩ := Option.bind_eq_some_iff.mp resolved
  obtain ⟨port, given, rfl⟩ := Option.map_eq_some_iff.mp resolved
  rw [hostOf, takeWhile_filter_line passes_line, afterLast_filter_line] at host
  rw [hostAndPort] at read given
  generalize afterLast '@' (text.takeWhile (· ∉ ['/', '?', '#'])) = info at host read given
  dsimp only at host ⊢
  rw [if_congr (mem_filter_line (by decide)) rfl rfl] at host
  by_cases bracket : '[' ∈ info
  · rw [if_pos bracket] at host
    have opened : '[' ∈ (splitPort false info).1 := by
      rcases splitPort_spec false info with ⟨-, whole⟩ | ⟨digits, port', whole⟩
      · exact whole ▸ bracket
      · rw [whole, List.mem_append, List.mem_cons] at bracket
        rcases bracket with first | colon | later
        · exact first
        · exact absurd colon (by decide)
        · rw [port', Option.map_some] at given
          exact absurd ((keeps.mem_quote_iff (by decide)).mpr later) (notMem_of_portOf given (by decide))
    obtain ⟨inner, whole, absent⟩ := keeps.bracketed read opened
    obtain ⟨tail, split⟩ : ∃ tail, info = (splitPort false info).1 ++ tail := by
      rcases splitPort_spec false info with ⟨-, same⟩ | ⟨digits, -, same⟩
      · exact ⟨[], by rw [List.append_nil]; exact same⟩
      · exact ⟨_, same⟩
    rw [split, whole] at host
    rw [whole] at read
    exact keeps.loopback_bracketed known read absent host
  · have noColon : ∀ c, lineChar c = true → decide (c ≠ ':') = true := by
      intro c line
      refine decide_eq_true ?_
      rintro rfl
      exact absurd line (by decide)
    rw [splitPort_of_notMem bracket] at read
    have plain := keeps.noLine read
    rw [if_neg bracket, takeWhile_filter_line noColon, List.filter_eq_self.mpr] at host
    · rw [keeps.quote_loopback known host] at read
      exact b.loopback known (.inl host) read
    · intro c member
      rw [plain c member, Bool.not_false]

/-- A text that does not begin with a slash does not begin with one when it is quoted. -/
theorem KeepsSigns.quote_head {c : Char} (differs : c ≠ '/') (text : List Char) :
    ∃ d more, quote safe (c :: text) = d :: more ∧ slash d = false := by
  by_cases kept : unreserved c = true ∨ c ∈ safe
  · refine ⟨c, _, keeps.quote_kept kept text, ?_⟩
    rw [slash, decide_eq_false_iff_not, List.mem_cons, List.mem_singleton, not_or]
    refine ⟨differs, ?_⟩
    rintro rfl
    exact kept.elim (by decide) keeps.backslash
  · obtain ⟨more, coded, -⟩ := quote_escaped kept
    exact ⟨'%', _, coded text, by decide⟩

theorem KeepsSigns.dropWhile_slash {c : Char} (differs : c ≠ '/') (text : List Char) :
    (quote safe (c :: text)).dropWhile slash = quote safe (c :: text) := by
  obtain ⟨d, more, coded, stays⟩ := keeps.quote_head differs text
  rw [coded, List.dropWhile_cons_of_neg (Bool.eq_false_iff.mp stays)]

theorem KeepsSigns.doubleSlash_iff (text : List Char) :
    "//".toList.isPrefixOf (quote safe text) = true ↔ "//".toList.isPrefixOf text = true := by
  have slashes : "//".toList = ['/', '/'] := rfl
  rw [slashes, List.isPrefixOf_iff_prefix, List.isPrefixOf_iff_prefix]
  constructor
  · rintro ⟨after, whole⟩
    cases text with
    | nil => cases whole
    | cons c text =>
      by_cases first : c = '/'
      · subst first
        rw [keeps.sign (by decide)] at whole
        have later := (List.cons.inj whole).2
        cases text with
        | nil => cases later
        | cons d text =>
          by_cases second : d = '/'
          · exact ⟨text, by rw [second]; rfl⟩
          · obtain ⟨e, more, coded, stays⟩ := keeps.quote_head second text
            rw [coded] at later
            rw [← (List.cons.inj later).1] at stays
            exact absurd stays (by decide)
      · obtain ⟨e, more, coded, stays⟩ := keeps.quote_head first text
        rw [coded] at whole
        rw [← (List.cons.inj whole).1] at stays
        exact absurd stays (by decide)
  · rintro ⟨after, rfl⟩
    have both : quote safe ('/' :: '/' :: after) = '/' :: '/' :: quote safe after := by
      rw [keeps.sign (by decide), keeps.sign (by decide)]
    exact ⟨quote safe after, both.symm⟩

theorem KeepsSigns.relative_doubleSlash (b : Browser) (base : Target) (text : List Char) :
    b.relative base (quote safe ('/' :: '/' :: text)) = b.authority base.scheme ((quote safe text).dropWhile slash) := by
  rw [keeps.sign (by decide), keeps.sign (by decide)]
  rfl

/-- A text that does not begin with two slashes leads back to the base. -/
theorem KeepsSigns.relative_of_not (b : Browser) (base : Target) {text : List Char}
    (single : "//".toList.isPrefixOf text = false) : b.relative base (quote safe text) = some base := by
  cases text with
  | nil => rfl
  | cons c text =>
    by_cases first : c = '/'
    · subst first
      rw [keeps.sign (by decide)]
      cases text with
      | nil => rfl
      | cons d text =>
        have differs : d ≠ '/' := by
          rintro rfl
          cases single
        obtain ⟨e, more, coded, stays⟩ := keeps.quote_head differs text
        rw [coded, Browser.relative, stays, Bool.and_false]
        rfl
    · obtain ⟨e, more, coded, stays⟩ := keeps.quote_head first text
      rw [coded]
      cases more with
      | nil => rfl
      | cons f more =>
        rw [Browser.relative, stays, Bool.false_and]
        rfl

/-- Where a location leads to, from the URL as it was before it was quoted. -/
theorem KeepsSigns.resolve_eq (b : Browser) (base : Target) (url : List Char) : b.resolve base (quote safe url) =
    match splitScheme url with
    | none => b.relative base (quote safe url)
    | some (scheme, rest) =>
      if defaultPort scheme = none then none
      else if scheme = base.scheme ∧ ¬ "//".toList.isPrefixOf rest = true then b.relative base (quote safe rest)
      else b.authority scheme ((quote safe rest).dropWhile slash) := by
  rw [Browser.resolve, keeps.tidy_quote, keeps.splitScheme_quote]
  rcases splitScheme url with _ | ⟨scheme, rest⟩
  · rfl
  · exact if_congr Iff.rfl rfl (if_congr (and_congr_right fun _ => not_congr (keeps.doubleSlash_iff rest)) rfl rfl)

end Quoted

/-- A redirect URI that a browser reads as the server does: one that begins with two slashes or with
a scheme, and not with the scheme of the page without two slashes. -/
def absolute (scheme uri : List Char) : Bool :=
  match splitScheme uri with
  | none => "//".toList.isPrefixOf uri
  | some (own, rest) => own ≠ scheme || "//".toList.isPrefixOf rest

/-- The text of a host that is read as a loopback name stands behind two slashes. -/
theorem host_of_hostname {p : Texts} {url name : List Char} (known : name ∈ loopbackNames) (read : hostname p url = some name) :
    ∃ rest, afterScheme (cleaned url) = '/' :: '/' :: rest ∧
      (hostOf (rest.takeWhile (· ∉ ['/', '?', '#']))).map asciiLower = name := by
  obtain ⟨authority, given, spelled⟩ := Option.map_eq_some_iff.mp read
  have plain : loopbackNames.all (fun name => '%' ∉ name ∧ name ≠ []) = true := by decide
  obtain ⟨noPercent, nonempty⟩ := of_decide_eq_true (List.all_eq_true.mp plain name known)
  have whole : '%' ∉ hostOf authority := by
    intro member
    obtain ⟨before, after, split, absent⟩ := List.eq_append_cons_of_mem member
    have passes : ∀ c ∈ before, decide (c ≠ '%') = true := fun c inside =>
      decide_eq_true fun same : c = '%' => absent (same ▸ inside)
    dsimp only at spelled
    rw [split, List.dropWhile_append_of_pos passes, List.dropWhile_cons_of_neg (by simp)] at spelled
    exact noPercent (spelled ▸ List.mem_append_right _ List.mem_cons_self)
  have passes : ∀ c ∈ hostOf authority, decide (c ≠ '%') = true := fun c inside =>
    decide_eq_true fun same : c = '%' => whole (same ▸ inside)
  dsimp only at spelled
  rw [List.takeWhile_eq_self_iff.mpr passes, List.dropWhile_eq_nil_iff.mpr passes, List.append_nil] at spelled
  have lower := p.lower_loopback known spelled
  rw [netloc] at given
  split at given
  · rename_i rest slashes
    refine ⟨rest, slashes, ?_⟩
    dsimp only at given
    split at given
    · cases given
    split at given
    · cases given
    split at given
    · cases given
    · rw [Option.some.inj given]
      exact lower
  · rw [← Option.some.inj given] at lower
    exact absurd lower.symm nonempty

theorem visible_of_schemeChar {c : Char} (name : schemeChar c = true) : controlOrSpace c = false := by
  rcases unreserved_or_plus name with plain | rfl
  · exact controlOrSpace_of_unreserved plain
  · rfl

/-- Behind a scheme characters are taken out, and nothing of the scheme is. -/
theorem afterScheme_cleaned {uri scheme rest : List Char} (given : splitScheme uri = some (scheme, rest)) :
    afterScheme (cleaned uri) = rest.filter (!lineChar ·) := by
  obtain ⟨name, rfl, plain, letter, lower⟩ := splitScheme_eq_some.mp given
  have stays : (name ++ ':' :: rest).dropWhile controlOrSpace = name ++ ':' :: rest := by
    cases name with
    | nil => cases letter
    | cons c name =>
      exact List.dropWhile_cons_of_neg (Bool.eq_false_iff.mp (visible_of_schemeChar (plain c List.mem_cons_self)))
  have whole : name.filter (!lineChar ·) = name := List.filter_eq_self.mpr fun c member => by
    rw [Bool.not_eq_true', Bool.eq_false_iff]
    intro line
    exact Bool.false_ne_true ((visible_of_schemeChar (plain c member)).symm.trans (controlOrSpace_of_lineChar line))
  have split : splitScheme (cleaned (name ++ ':' :: rest)) = some (scheme, rest.filter (!lineChar ·)) := by
    rw [cleaned, stays, List.filter_append, whole, List.filter_cons_of_pos (by decide)]
    exact splitScheme_eq_some.mpr ⟨name, rfl, plain, letter, lower⟩
  rw [afterScheme, split]

theorem afterScheme_doubleSlash (text : List Char) :
    afterScheme (cleaned ('/' :: '/' :: text)) = '/' :: '/' :: text.filter (!lineChar ·) := by
  have whole : cleaned ('/' :: '/' :: text) = '/' :: '/' :: text.filter (!lineChar ·) := by
    rw [cleaned, List.dropWhile_cons_of_neg (by decide), List.filter_cons_of_pos (by decide),
      List.filter_cons_of_pos (by decide)]
  rw [afterScheme, whole, splitScheme_eq_none]
  intro rest no
  rw [List.dropWhile_cons_of_neg (by decide)] at no
  exact absurd (List.cons.inj no).1 (by decide)

/-- A scheme, two slashes and something after them that a location keeps as it is. -/
def IsOrigin (safe origin : List Char) : Prop :=
  ∃ scheme c rest, splitScheme origin = some (scheme, '/' :: '/' :: c :: rest) ∧ c ≠ '/' ∧
    ∀ d ∈ c :: rest, unreserved d = true ∨ d ∈ safe

theorem IsOrigin.absolute {safe origin : List Char} (is : IsOrigin safe origin) (scheme : List Char) {tail : List Char}
    (slashes : ∀ c ∈ tail.head?, c = '/') : absolute scheme (origin ++ tail) = true := by
  obtain ⟨own, c, rest, given, -, -⟩ := is
  have slashed : ∃ rest, splitScheme (origin ++ tail) = some (own, '/' :: '/' :: rest) := by
    cases tail with
    | nil => exact ⟨c :: rest, by rw [List.append_nil, given]⟩
    | cons d tail =>
      rw [slashes d rfl, splitScheme_append (by decide) (by decide), given]
      exact ⟨_, rfl⟩
  obtain ⟨rest, split⟩ := slashed
  rw [Urls.absolute, split]
  exact Bool.or_true _

section Redirects

variable {safe : List Char} (keeps : KeepsSigns safe) (b : Browser) {base : Target}

include keeps

/-- Any other redirect URI leads back to the page. -/
theorem KeepsSigns.resolve_of_not_absolute (web : defaultPort base.scheme ≠ none) {uri : List Char}
    (other : absolute base.scheme uri = false) (more : List Char) :
    b.resolve base (quote safe (uri ++ '?' :: more)) = some base := by
  have longer : ∀ text : List Char, "//".toList.isPrefixOf text = false → "//".toList.isPrefixOf (text ++ '?' :: more) = false := by
    intro text single
    rcases text with _ | ⟨c, _ | ⟨d, text⟩⟩
    · rfl
    · cases first : '/' == c with
      | false => exact (Bool.and_eq_false_iff).mpr (.inl first)
      | true => exact (Bool.and_eq_false_iff).mpr (.inr rfl)
    · exact single
  rw [absolute] at other
  rw [keeps.resolve_eq, splitScheme_append (by decide) (by decide)]
  rcases given : splitScheme uri with _ | ⟨own, rest⟩ <;> rw [given] at other
  · exact keeps.relative_of_not b base (longer uri other)
  · rw [Bool.or_eq_false_iff, decide_eq_false_iff_not, Classical.not_not] at other
    rw [Option.map_some]
    dsimp only
    rw [other.1, if_neg web, if_pos ⟨rfl, by rw [longer rest other.2]; exact Bool.false_ne_true⟩]
    exact keeps.relative_of_not b base (longer rest other.2)

/-- The text behind two slashes, where the server reads a loopback name. -/
theorem KeepsSigns.loopback_slashes {scheme text name more : List Char} {target : Target} (known : name ∈ loopbackNames)
    (host : (hostOf ((text.filter (!lineChar ·)).takeWhile (· ∉ ['/', '?', '#']))).map asciiLower = name)
    (resolved : b.authority scheme ((quote safe (text ++ '?' :: more)).dropWhile slash) = some target) :
    target.host ∈ loopbackHosts := by
  have nonempty : name ≠ [] := by
    rintro rfl
    exact absurd known (by decide)
  have longer : ((text ++ '?' :: more).filter (!lineChar ·)).takeWhile (· ∉ ['/', '?', '#']) =
      (text.filter (!lineChar ·)).takeWhile (· ∉ ['/', '?', '#']) := by
    rw [List.filter_append, List.filter_cons_of_pos (by decide), takeWhile_append_stop (by decide)]
  have nothing : hostOf [] = [] := rfl
  cases text with
  | nil =>
    rw [List.filter_nil, List.takeWhile_nil, nothing] at host
    exact absurd host.symm nonempty
  | cons c text =>
    have differs : c ≠ '/' := by
      rintro rfl
      rw [List.filter_cons_of_pos (by decide), List.takeWhile_cons_of_neg (by decide), nothing] at host
      exact nonempty host.symm
    rw [List.cons_append, keeps.dropWhile_slash differs] at resolved
    rw [← longer] at host
    exact keeps.loopback known host resolved

/-- No browser connects to an authority of characters that were to be taken out. -/
theorem KeepsSigns.authority_line {scheme text : List Char} (nonempty : text ≠ []) (line : ∀ c ∈ text, lineChar c = true)
    (more : List Char) : b.authority scheme ((quote safe (text ++ '/' :: more)).dropWhile slash) = none := by
  cases text with
  | nil => exact absurd rfl nonempty
  | cons c text =>
    have other : ∀ d ∈ c :: text, d ≠ '/' ∧ d ≠ '@' ∧ d ≠ ':' ∧ d ≠ '[' ∧ d ≠ ']' := by
      intro d member
      have taken := line d member
      refine ⟨?_, ?_, ?_, ?_, ?_⟩ <;> rintro rfl <;> exact absurd taken (by decide)
    have parts : hostAndPort (c :: text ++ '/' :: more) = (c :: text, none) := by
      have plain := splitPort_append (fun d member => (other d member).2.2) false []
      rw [List.append_nil] at plain
      rw [hostAndPort, takeWhile_append_stop (by decide), List.takeWhile_eq_self_iff.mpr (fun d member => passes_line d (line d member)),
        afterLast_of_notMem (fun member => (other '@' member).2.1 rfl), plain]
      rw [splitPort, List.append_nil]
    rw [List.cons_append, keeps.dropWhile_slash (other c List.mem_cons_self).1, ← List.cons_append, keeps.authority_eq, parts,
      if_neg (List.cons_ne_nil _ _)]
    cases read : b.host (quote safe (c :: text)) with
    | none => rfl
    | some h => exact absurd (keeps.noLine read c List.mem_cons_self) (by rw [line c List.mem_cons_self]; decide)

/-- A browser that is led to a scheme, and the server reads a loopback name behind it. -/
theorem KeepsSigns.loopback_scheme {scheme text rest name more : List Char} {target : Target} (known : name ∈ loopbackNames)
    (slashes : text.filter (!lineChar ·) = '/' :: '/' :: rest)
    (host : (hostOf (rest.takeWhile (· ∉ ['/', '?', '#']))).map asciiLower = name)
    (resolved : b.authority scheme ((quote safe (text ++ '?' :: more)).dropWhile slash) = some target) :
    target.host ∈ loopbackHosts := by
  have line : ∀ {taken : List Char}, (∀ c ∈ taken, ¬ (!lineChar c) = true) → ∀ c ∈ taken, lineChar c = true := by
    intro taken out c member
    rw [← Bool.not_eq_false]
    intro shown
    exact out c member (by rw [shown, Bool.not_false])
  have skip : ∀ text, (quote safe ('/' :: text)).dropWhile slash = (quote safe text).dropWhile slash := by
    intro text
    rw [keeps.sign (by decide), List.dropWhile_cons_of_pos (by decide)]
  obtain ⟨first, later, rfl, out, -, filtered⟩ := List.filter_eq_cons_iff.mp slashes
  obtain ⟨second, after, rfl, out', -, rfl⟩ := List.filter_eq_cons_iff.mp filtered
  rw [List.append_assoc, List.cons_append, List.append_assoc, List.cons_append] at resolved
  by_cases one : first = []
  · rw [one, List.nil_append, skip] at resolved
    by_cases two : second = []
    · rw [two, List.nil_append, skip] at resolved
      exact keeps.loopback_slashes b known host resolved
    · rw [keeps.authority_line b two (line out')] at resolved
      cases resolved
  · rw [keeps.authority_line b one (line out)] at resolved
    cases resolved

/-- A redirect URI that the browser reads as the server does leads to the machine itself, if the server
reads a loopback name. -/
theorem KeepsSigns.resolve_loopback {p : Texts} {uri name more : List Char} {target : Target} (known : name ∈ loopbackNames)
    (read : hostname p uri = some name) (whole : absolute base.scheme uri = true)
    (resolved : b.resolve base (quote safe (uri ++ '?' :: more)) = some target) : target.host ∈ loopbackHosts := by
  obtain ⟨rest, behind, host⟩ := host_of_hostname known read
  rw [absolute] at whole
  rw [keeps.resolve_eq, splitScheme_append (by decide) (by decide)] at resolved
  rcases given : splitScheme uri with _ | ⟨own, after⟩ <;> rw [given] at whole resolved
  · obtain ⟨text, rfl⟩ := List.isPrefixOf_iff_prefix.mp whole
    have slashes := afterScheme_doubleSlash text
    rw [List.cons.inj (List.cons.inj (behind.symm.trans slashes)).2 |>.2] at host
    rw [Option.map_none] at resolved
    dsimp only at resolved
    have read := keeps.relative_doubleSlash b base (text ++ '?' :: more)
    exact keeps.loopback_slashes b known host (read.symm.trans resolved)
  · rw [afterScheme_cleaned given] at behind
    rw [Option.map_some] at resolved
    dsimp only at resolved whole
    split at resolved
    · cases resolved
    split at resolved
    · rename_i single
      rw [Bool.or_eq_true, decide_eq_true_eq] at whole
      rcases whole with other | slashes
      · exact absurd single.1 other
      · obtain ⟨text, rfl⟩ := List.isPrefixOf_iff_prefix.mp slashes
        exact absurd rfl single.2
    · exact keeps.loopback_scheme b known behind host resolved

theorem KeepsSigns.quote_origin {origin : List Char} (is : IsOrigin safe origin) : quote safe origin = origin := by
  obtain ⟨scheme, c, rest, given, -, kept⟩ := is
  obtain ⟨name, rfl, plain, -, -⟩ := splitScheme_eq_some.mp given
  refine quote_eq_self fun d member => ?_
  have passes : unreserved d = true ∨ d ∈ safe := by
    rcases List.mem_append.mp member with inName | later
    · rcases unreserved_or_plus (plain d inName) with letter | rfl
      · exact .inl letter
      · exact .inr (keeps.signs '+' (by decide))
    rcases List.mem_cons.mp later with rfl | later
    · exact .inr (keeps.signs ':' (by decide))
    rcases List.mem_cons.mp later with rfl | later
    · exact .inr (keeps.signs '/' (by decide))
    rcases List.mem_cons.mp later with rfl | later
    · exact .inr (keeps.signs '/' (by decide))
    · exact kept d later
  exact ⟨passes.elim unreserved_ascii (keeps.ascii d), passes⟩

/-- Whatever comes after an origin leads to the same place. -/
theorem KeepsSigns.resolve_origin {origin : List Char} (is : IsOrigin safe origin) {stop : Char} (sign : stop ∈ ['/', '?', '#'])
    (more : List Char) : b.resolve base (quote safe (origin ++ stop :: more)) = b.resolve base origin := by
  have other : schemeChar stop = false ∧ stop ≠ ':' := by
    have all : ['/', '?', '#'].all (fun c => schemeChar c = false ∧ c ≠ ':') = true := by decide
    exact of_decide_eq_true (List.all_eq_true.mp all stop sign)
  have self : b.resolve base origin = b.resolve base (quote safe origin) := by rw [keeps.quote_origin is]
  obtain ⟨scheme, c, rest, given, differs, -⟩ := is
  have authority : ∀ tail, (tail = [] ∨ tail = stop :: more) →
      b.authority scheme ((quote safe ('/' :: '/' :: c :: rest ++ tail)).dropWhile slash) =
        b.authority scheme (quote safe (c :: rest)) := by
    intro tail shape
    have same : hostAndPort (c :: rest ++ tail) = hostAndPort (c :: rest) := by
      rcases shape with rfl | rfl
      · rw [List.append_nil]
      · rw [hostAndPort, takeWhile_append_stop (decide_eq_false (not_not_intro sign)), hostAndPort]
    have head : (quote safe ('/' :: '/' :: c :: rest ++ tail)).dropWhile slash = quote safe (c :: rest ++ tail) := by
      rw [List.cons_append, List.cons_append, keeps.sign (by decide), keeps.sign (by decide),
        List.dropWhile_cons_of_pos (by decide), List.dropWhile_cons_of_pos (by decide), List.cons_append,
        keeps.dropWhile_slash differs]
    rw [head, keeps.authority_eq, keeps.authority_eq, same]
  have slashes : ∀ tail, ¬ (scheme = base.scheme ∧ ¬ "//".toList.isPrefixOf ('/' :: '/' :: c :: rest ++ tail) = true) :=
    fun tail no => no.2 rfl
  have short := authority [] (.inl rfl)
  have bare := slashes []
  rw [List.append_nil] at short bare
  rw [self, keeps.resolve_eq, keeps.resolve_eq, splitScheme_append other.1 other.2, given, Option.map_some]
  by_cases unread : defaultPort scheme = none
  · exact (if_pos unread).trans (if_pos unread).symm
  · refine (if_neg unread).trans (Eq.trans ?_ (if_neg unread).symm)
    exact ((if_neg (slashes (stop :: more))).trans (authority _ (.inr rfl))).trans ((if_neg bare).trans short).symm

end Redirects

end Urls
