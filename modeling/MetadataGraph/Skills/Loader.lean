import MetadataGraph.Lib.Regex
import MetadataGraph.Graph.Models

namespace MetadataGraph.Skills

open Regex

/-- The characters as the regular expressions see them: the spaces, which `strip` takes off as well,
and the characters that a letter of a pattern stands for when the case is ignored. A letter stands for
letters, and neither the spaces nor the signs of a tag or an escape are part of a word. -/
structure Characters extends Alphabet where
  isSpace : Char → Bool
  caseless : Char → Char → Bool
  word_of_caseless : ∀ {letter c : Char}, letter.isAlpha = true → caseless letter c = true → isWord c = true
  word_of_space : ∀ {c : Char}, isSpace c = true → isWord c = false
  signs : ∀ c ∈ ['<', '>', '&', ';', '#', '"', '\''], isWord c = false ∧ isSpace c = false

/-! ### The patterns -/

def sequence : List Pattern → Pattern
  | [] => .empty
  | [p] => p
  | p :: rest => .seq p (sequence rest)

def choice : List Pattern → Pattern
  | [] => .empty
  | [p] => p
  | p :: rest => .alt p (choice rest)

def optional (p : Pattern) : Pattern := .alt p .empty

variable (ch : Characters)

/-- The letters of a word, in any case. -/
def word (text : String) : Pattern := sequence (text.toList.map fun letter => .char (ch.caseless letter))

/-- `\s+`. -/
def spaces : Pattern := .seq (.char ch.isSpace) (.many false ch.isSpace)

/-- `_INJECTION_PATTERNS`. -/
def injectionPatterns : List Pattern := [
  sequence [word ch "ignore", spaces ch, optional (.group 1 (.seq (word ch "all") (spaces ch))), word ch "previous",
    spaces ch, word ch "instructions"],
  sequence [.wordStart (ch.caseless 'S'), word ch "YSTEM", .char (· = ':'), .char ch.isSpace],
  sequence [word ch "you", spaces ch, word ch "are", spaces ch, word ch "now", spaces ch, word ch "a"],
  sequence [word ch "disregard", spaces ch, optional (.group 2 (.seq (word ch "your") (spaces ch))),
    optional (.group 3 (.seq (word ch "previous") (spaces ch))), word ch "instructions"],
  sequence [word ch "new", spaces ch, word ch "instructions", .many false ch.isSpace, .char (· = ':')],
  sequence [word ch "override", spaces ch, optional (.group 4 (.seq (word ch "your") (spaces ch))), word ch "previous"]]

/-- `_INJECTION_RE`. -/
def injection : Pattern := choice (injectionPatterns ch)

def tagName : Pattern :=
  choice (["script", "iframe", "style", "form", "link", "object", "embed", "base", "meta"].map (word ch))

/-- `_DANGEROUS_TAG_RE`. -/
def dangerousTag : Pattern := .alt
  (sequence [.char (· = '<'), .group 1 (tagName ch), .many false (· ≠ '>'), .char (· = '>'), .many true fun _ => true,
    .char (· = '<'), .char (· = '/'), .backref 1, .char (· = '>')])
  (sequence [.char (· = '<'), .group 2 (tagName ch), .many false (· ≠ '>'), optional (.char (· = '/')), .char (· = '>')])

/-! ### The loader -/

/-- `strip()`, for texts whose characters carry something. -/
def strip {α : Type} (space : α → Bool) (text : List α) : List α :=
  ((text.dropWhile space).reverse.dropWhile space).reverse

/-- `_sanitize`. -/
def sanitize (text : List Char) : List Char :=
  if search ch.toAlphabet (injection ch) none text then []
  else strip ch.isSpace (remove ch.toAlphabet (dangerousTag ch) text)

/-- `text[:limit]`. -/
def slice {α : Type} (limit : ℤ) (text : List α) : List α :=
  text.take (if 0 ≤ limit then limit.toNat else (text.length + limit).toNat)

/-- `text.split()`. -/
def words (text : List Char) : List (List Char) := (text.splitOnP ch.isSpace).filter (· ≠ [])

/-- An item of a list in the front matter: whether it is true, and what `str` makes of it. -/
structure Item where
  truthy : Bool
  shown : List Char

/-- A value of the front matter. What is neither a text nor a list counts by its truth and by what
`str` makes of it. -/
inductive Entry where
  | text (value : List Char)
  | list (items : List Item)
  | other (truthy : Bool) (shown : List Char)

def Entry.truthy : Entry → Bool
  | .text value => value ≠ []
  | .list items => items ≠ []
  | .other truthy _ => truthy

/-- What `yaml.safe_load(text) or {}` gives: it fails, or gives something that is no dict. -/
inductive Parsed where
  | failed
  | noDict
  | dict (fm : Dict Entry)

/-- What the loader works with: the parser of the front matter, how a field that may be a text is
validated, and the setting for the longest body. -/
structure Loader extends Characters where
  yaml : List Char → Parsed
  optionalText : Option Entry → Option (Option (List Char))
  maxSkillBodyChars : ℤ

/-- The fields of `SkillDefinition` that a prompt block shows. -/
structure SkillDefinition where
  name : List Char
  description : List Char
  content : List Char
  allowedTools : List (List Char) := []
  whenToUse : Option (List Char) := none
  effort : Option (List Char) := none
  deriving DecidableEq

/-- What becomes of a file: it is refused, or something is raised, or it is accepted. -/
inductive Outcome where
  | refused
  | raised
  | accepted (skill : SkillDefinition)
  deriving DecidableEq

/-- What stands before and after the first three dashes. -/
def cut : List Char → Option (List Char × List Char)
  | '-' :: '-' :: '-' :: rest => some ([], rest)
  | c :: rest => (cut rest).map fun parts => (c :: parts.1, parts.2)
  | [] => none

/-- `fm.get(key, "").strip()`, which raises for what is no text. -/
def textOf (l : Loader) (fm : Dict Entry) (key : String) : Option (List Char) :=
  match fm[key]? with
  | none => some []
  | some (.text value) => some (strip l.isSpace value)
  | some _ => none

/-- The tools of the front matter: a list, or a text that is split at its spaces. -/
def toolsOf (l : Loader) (fm : Dict Entry) : List (List Char) :=
  match fm["allowed-tools"]?.or fm["allowed_tools"]? with
  | some (.list items) => (items.filter Item.truthy).map fun item => strip l.isSpace item.shown
  | some (.text value) => words l.toCharacters value
  | some (.other truthy shown) => if truthy then words l.toCharacters shown else []
  | none => []

/-- `fm.get("when-to-use") or fm.get("when_to_use")`. -/
def whenToUseOf (fm : Dict Entry) : Option Entry :=
  match fm["when-to-use"]? with
  | some entry => if entry.truthy then some entry else fm["when_to_use"]?
  | none => fm["when_to_use"]?

/-- `SkillDefinition(...)`, which raises where the effort or the license is not valid. -/
def construct (l : Loader) (fm : Dict Entry) (name description body : List Char) (whenToUse : Option (List Char)) : Outcome :=
  match l.optionalText fm["effort"]?, l.optionalText fm["license"]? with
  | some effort, some _ => .accepted { name, description, whenToUse, effort
                                       content := slice l.maxSkillBodyChars body
                                       allowedTools := toolsOf l fm }
  | _, _ => .raised

/-- The rest of `_parse_skill_md`, with the front matter and the body. -/
def parseFrontMatter (l : Loader) (fm : Dict Entry) (body : List Char) : Outcome :=
  match textOf l fm "name" with
  | none => .raised
  | some rawName =>
    if rawName = [] then .refused
    else
      let name := sanitize l.toCharacters rawName
      if name = [] then .refused
      else match textOf l fm "description" with
        | none => .raised
        | some rawDescription =>
          let description := sanitize l.toCharacters rawDescription
          let bodyStripped := strip l.isSpace body
          let sanitizedBody := sanitize l.toCharacters bodyStripped
          if bodyStripped ≠ [] ∧ sanitizedBody = [] then .refused
          else if sanitizedBody = [] ∧ description = [] then .refused
          else
            match whenToUseOf fm with
            | none => construct l fm name description sanitizedBody none
            | some entry =>
              if !entry.truthy then construct l fm name description sanitizedBody none
              else match entry with
                | .text value => construct l fm name description sanitizedBody (some (sanitize l.toCharacters value))
                | _ => .raised

/-- `_parse_skill_md`, with the name that the address of the file gives. -/
def parseSkillMd (l : Loader) (nameFromUrl text : List Char) : Outcome :=
  let text := strip l.isSpace text
  if !"---".toList.isPrefixOf text then
    let sanitized := sanitize l.toCharacters text
    if sanitized = [] then .refused
    else .accepted { name := nameFromUrl, description := [], content := slice l.maxSkillBodyChars sanitized }
  else match cut (text.drop 3) with
    | none => .refused
    | some (front, body) => match l.yaml (strip l.isSpace front) with
      | .failed => .refused
      | .noDict => .raised
      | .dict fm => parseFrontMatter l fm (strip l.isSpace body)

/-- `html.escape(text, quote=True)`. -/
def escape (text : List Char) : List Char := text.flatMap fun c =>
  if c = '&' then "&amp;".toList
  else if c = '<' then "&lt;".toList
  else if c = '>' then "&gt;".toList
  else if c = '"' then "&quot;".toList
  else if c = '\'' then "&#x27;".toList
  else [c]

/-- `", ".join(tools)`. -/
def joinTools (tools : List (List Char)) : List Char := ", ".toList.intercalate tools

end MetadataGraph.Skills
