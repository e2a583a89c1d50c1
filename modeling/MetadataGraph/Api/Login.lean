import MetadataGraph.Api.Gate
import MetadataGraph.Gateway.Redirects

namespace MetadataGraph.Api

open Urls

/-! ### The sign-in page -/

def doubleQuote : Char := .ofNat 34

def apostrophe : Char := .ofNat 39

/-- `html.escape(text, quote=True)` of one character. -/
def escapeChar (c : Char) : List Char :=
  if c = '&' then "&amp;".toList
  else if c = '<' then "&lt;".toList
  else if c = '>' then "&gt;".toList
  else if c = doubleQuote then "&quot;".toList
  else if c = apostrophe then "&#x27;".toList
  else [c]

def escape (text : List Char) : List Char := text.flatMap escapeChar

def errorMark : List Char := "__ERROR__".toList

/-- `replace("__ERROR__", block)`, where so many characters of a mark are still to be left out. -/
def replaceMark (block : List Char) : ℕ → List Char → List Char
  | _, [] => []
  | skip + 1, _ :: rest => replaceMark block skip rest
  | 0, c :: rest =>
    if errorMark.isPrefixOf (c :: rest) then block ++ replaceMark block (errorMark.length - 1) rest
    else c :: replaceMark block 0 rest

def errorBlock (error : List Char) : List Char :=
  if error = [] then []
  else "<p class=".toList ++ doubleQuote :: "auth-error".toList ++ doubleQuote :: '>' :: escape error ++ "</p>".toList

/-- What a browser makes of the character references of `html.escape`. -/
def unescape : List Char → List Char
  | '&' :: 'a' :: 'm' :: 'p' :: ';' :: rest => '&' :: unescape rest
  | '&' :: 'l' :: 't' :: ';' :: rest => '<' :: unescape rest
  | '&' :: 'g' :: 't' :: ';' :: rest => '>' :: unescape rest
  | '&' :: 'q' :: 'u' :: 'o' :: 't' :: ';' :: rest => doubleQuote :: unescape rest
  | '&' :: '#' :: 'x' :: '2' :: '7' :: ';' :: rest => apostrophe :: unescape rest
  | c :: rest => c :: unescape rest
  | [] => []

/-- The value that a browser reads in the field `next` of `render_signin_page(next_path, error)`. The
field stands behind the place of the error, and its value goes up to the next quote. -/
def nextField (nextPath error : List Char) : List Char :=
  unescape ((replaceMark (errorBlock error) 0 (escape nextPath)).takeWhile (· ≠ doubleQuote))

/-- `urlsplit(url).scheme` and `.netloc`, where nothing is raised. -/
def urlsplit (lib : Library) (url : List Char) : Option (List Char × List Char) :=
  let scheme := ((splitScheme (cleaned url)).map Prod.fst).getD []
  match afterScheme (cleaned url) with
  | '/' :: '/' :: rest =>
    let netloc := rest.takeWhile (· ∉ ['/', '?', '#'])
    if lib.refused netloc then none else some (scheme, netloc)
  | _ => some (scheme, [])

/-- `is_safe_next_path`. There is no result where `urlsplit` raises. -/
def isSafeNextPath (lib : Library) (path : List Char) : Option Bool :=
  if path = [] ∨ ¬ "/".toList.isPrefixOf path ∨ "//".toList.isPrefixOf path then some false
  else if '\\' ∈ path ∨ '\n' ∈ path ∨ '\r' ∈ path then some false
  else (urlsplit lib path).map fun parts => parts.1 = [] && parts.2 = []

/-- `credentials_valid`, where comparing the texts does not raise. -/
def credentialsValid (config : AppConfig) (username password : String) : Option Bool :=
  if given config.authPassword then
    match compareDigest username config.authUsername, compareDigest password (config.authPassword.getD "") with
    | some okUser, some okPass => some (okUser && okPass)
    | _, _ => none
  else some false

/-- The answers of `auth_login`: the sign-in page with its target and error, or a redirect to the target. -/
inductive LoginAnswer
  | page (nextPath error : List Char)
  | redirect (target : List Char)
  deriving DecidableEq

/-- `auth_login`, where nothing is raised. -/
def authLogin (lib : Library) (config : AppConfig) (username password : String) (nextPath : List Char) : Option LoginAnswer :=
  (isSafeNextPath lib nextPath).bind fun safe =>
    let target := if safe then nextPath else "/web/".toList
    (credentialsValid config username password).map fun valid =>
      if !valid then .page target "Invalid username or password.".toList
      else if (signingSecret config).isNone then .page target "Login is unavailable on this instance.".toList
      else .redirect target

/-- What a browser is given to follow: the location of a redirect, or the value of the field. -/
def LoginAnswer.link : LoginAnswer → List Char
  | page nextPath error => nextField nextPath error
  | redirect target => Gateway.location target

/-- `urlsplit(url).query` for what follows the scheme and two slashes. -/
def splitQuery (url : List Char) : List Char :=
  (((url.dropWhile (· ∉ ['/', '?', '#'])).takeWhile (· ≠ '#')).dropWhile (· ≠ '?')).tail

/-- `_requested_target`. -/
def requestedTarget (lib : Library) (request : Request) : Option (List Char) :=
  (splitPath lib (removeUnsafe request.url)).map fun path =>
    let query := splitQuery (removeUnsafe request.url)
    if query = [] then path else path ++ '?' :: query

/-! ### What is read back from the page -/

/-- The part of a text before the first mark. -/
def beforeMark : List Char → List Char
  | [] => []
  | c :: rest => if errorMark.isPrefixOf (c :: rest) then [] else c :: beforeMark rest

def marked : List Char → Bool
  | [] => false
  | c :: rest => errorMark.isPrefixOf (c :: rest) || marked rest

theorem escapeChar_cases (c : Char) : escapeChar c = [c] ∧ c ≠ '&' ∧ c ≠ doubleQuote ∨
    ∃ first more, escapeChar c = first :: more ∧ first = '&' ∧ (∀ d ∈ first :: more, d ≠ doubleQuote ∧ d ≠ '_') ∧ c ≠ '_' ∧
      ∀ rest, unescape (escapeChar c ++ rest) = c :: unescape rest := by
  have special : ∀ {d : Char} {coded : List Char}, coded.all (fun d => d ≠ doubleQuote ∧ d ≠ '_') = true →
      ∀ d ∈ coded, d ≠ doubleQuote ∧ d ≠ '_' := fun plain d member => of_decide_eq_true (List.all_eq_true.mp plain d member)
  rw [escapeChar]
  split
  · rename_i same
    exact .inr ⟨_, _, rfl, rfl, special (d := c) (by decide), by rw [same]; decide, fun rest => by rw [same]; rfl⟩
  split
  · rename_i same
    exact .inr ⟨_, _, rfl, rfl, special (d := c) (by decide), by rw [same]; decide, fun rest => by rw [same]; rfl⟩
  split
  · rename_i same
    exact .inr ⟨_, _, rfl, rfl, special (d := c) (by decide), by rw [same]; decide, fun rest => by rw [same]; rfl⟩
  split
  · rename_i same
    exact .inr ⟨_, _, rfl, rfl, special (d := c) (by decide), by rw [same]; decide, fun rest => by rw [same]; rfl⟩
  split
  · rename_i same
    exact .inr ⟨_, _, rfl, rfl, special (d := c) (by decide), by rw [same]; decide, fun rest => by rw [same]; rfl⟩
  · rename_i amp _ _ quote _
    exact .inl ⟨rfl, amp, quote⟩

theorem unescape_cons {c : Char} (plain : c ≠ '&') (rest : List Char) : unescape (c :: rest) = c :: unescape rest := by
  rw [unescape]
  all_goals exact fun _ same _ => plain same

/-- A browser reads what was escaped. -/
theorem unescape_escape (text more : List Char) : unescape (escape text ++ more) = text ++ unescape more := by
  induction text with
  | nil => rfl
  | cons c text ih =>
    rw [escape, List.flatMap_cons, ← escape, List.append_assoc]
    rcases escapeChar_cases c with ⟨plain, amp, -⟩ | ⟨first, rest, -, -, -, -, read⟩
    · rw [plain, List.singleton_append, unescape_cons amp, ih]
      rfl
    · rw [read, ih]
      rfl

theorem isPrefixOf_escape {pat : List Char} (plain : ∀ c ∈ pat, escapeChar c = [c] ∧ c ≠ '&') (text : List Char) :
    pat.isPrefixOf (escape text) = pat.isPrefixOf text := by
  induction pat generalizing text with
  | nil => rfl
  | cons c pat ih =>
    rw [List.forall_mem_cons] at plain
    cases text with
    | nil => rfl
    | cons d text =>
      rw [escape, List.flatMap_cons, ← escape]
      rcases escapeChar_cases d with ⟨same, -, -⟩ | ⟨first, more, coded, amp, -, -⟩
      · rw [same, List.singleton_append, List.isPrefixOf_cons_cons, List.isPrefixOf_cons_cons, ih plain.2]
      · have differs : (c == first) = false := by
          rw [amp]
          exact beq_false_of_ne plain.1.2
        have other : (c == d) = false := by
          refine beq_false_of_ne fun same => ?_
          rw [← same, plain.1.1] at coded
          exact plain.1.2 ((List.cons.inj coded).1.trans amp)
        rw [coded, List.cons_append, List.isPrefixOf_cons_cons, List.isPrefixOf_cons_cons, differs, other, Bool.false_and, Bool.false_and]

theorem errorMark_plain : ∀ c ∈ errorMark, escapeChar c = [c] ∧ c ≠ '&' := by
  have all : errorMark.all (fun c => escapeChar c = [c] ∧ c ≠ '&') = true := by decide
  exact fun c member => of_decide_eq_true (List.all_eq_true.mp all c member)

theorem escape_cons (c : Char) (rest : List Char) : escape (c :: rest) = escapeChar c ++ escape rest := List.flatMap_cons

theorem escape_errorMark (rest : List Char) : escape (errorMark ++ rest) = errorMark ++ escape rest := by
  rw [escape, List.flatMap_append, ← escape, ← escape]
  rfl

theorem replaceMark_mark (block rest : List Char) :
    replaceMark block 0 (errorMark ++ rest) = block ++ replaceMark block 0 rest := by
  have begins : errorMark.isPrefixOf ('_' :: ("_ERROR__".toList ++ rest)) = true :=
    List.isPrefixOf_iff_prefix.mpr ⟨rest, rfl⟩
  rw [show errorMark ++ rest = '_' :: ("_ERROR__".toList ++ rest) from rfl, replaceMark, if_pos begins]
  rfl

theorem replaceMark_cons {c : Char} {rest : List Char} (other : errorMark.isPrefixOf (c :: rest) = false) (block : List Char) :
    replaceMark block 0 (c :: rest) = c :: replaceMark block 0 rest := by
  rw [replaceMark, if_neg (Bool.eq_false_iff.mp other)]

theorem isPrefixOf_of_ne {c : Char} (differs : c ≠ '_') (rest : List Char) : errorMark.isPrefixOf (c :: rest) = false := by
  rw [show errorMark = '_' :: "_ERROR__".toList from rfl, List.isPrefixOf_cons_cons, beq_false_of_ne differs.symm, Bool.false_and]

theorem replaceMark_append {coded : List Char} (other : ∀ c ∈ coded, c ≠ '_') (block rest : List Char) :
    replaceMark block 0 (coded ++ rest) = coded ++ replaceMark block 0 rest := by
  induction coded with
  | nil => rfl
  | cons c coded ih =>
    rw [List.forall_mem_cons] at other
    rw [List.cons_append, replaceMark_cons (isPrefixOf_of_ne other.1 _), ih other.2]
    rfl

/-- A text is empty, begins with the mark, or begins with another character. -/
theorem markInduction {P : List Char → Prop} (nil : P []) (mark : ∀ rest, P rest → P (errorMark ++ rest))
    (cons : ∀ c rest, errorMark.isPrefixOf (c :: rest) = false → P rest → P (c :: rest)) (text : List Char) : P text := by
  induction length : text.length using Nat.strong_induction_on generalizing text with
  | _ n ih =>
    cases text with
    | nil => exact nil
    | cons c rest =>
      cases begins : errorMark.isPrefixOf (c :: rest) with
      | true =>
        obtain ⟨after, whole⟩ := List.isPrefixOf_iff_prefix.mp begins
        rw [← whole]
        refine mark after (ih after.length ?_ after rfl)
        rw [← length, ← whole, List.length_append]
        have some : 0 < errorMark.length := by decide
        omega
      | false => exact cons c rest begins (ih rest.length (by rw [← length]; exact Nat.lt_succ_self _) rest rfl)

/-- One character of an escaped text is passed. -/
theorem replaceMark_escape_cons {c : Char} {rest : List Char} (other : errorMark.isPrefixOf (c :: rest) = false)
    (block : List Char) : replaceMark block 0 (escape (c :: rest)) = escapeChar c ++ replaceMark block 0 (escape rest) := by
  rcases escapeChar_cases c with ⟨plain, -, -⟩ | ⟨first, more, coded, -, apart, -⟩
  · have still := isPrefixOf_escape errorMark_plain (c :: rest)
    rw [other, escape_cons, plain] at still
    rw [escape_cons, plain]
    exact replaceMark_cons still block
  · rw [escape_cons, coded]
    exact replaceMark_append (fun d member => (apart d member).2) block _

/-- Without an error, the marks are taken out of the value. -/
theorem replaceMark_escape (text : List Char) : replaceMark [] 0 (escape text) = escape (replaceMark [] 0 text) := by
  induction text using markInduction with
  | nil => rfl
  | mark rest ih => rw [escape_errorMark, replaceMark_mark, replaceMark_mark, ih]; rfl
  | cons c rest other ih => rw [replaceMark_escape_cons other, replaceMark_cons other, escape_cons, ih]

theorem escapeChar_noQuote (c : Char) : ∀ d ∈ escapeChar c, decide (d ≠ doubleQuote) = true := by
  intro d member
  rcases escapeChar_cases c with ⟨plain, -, quote⟩ | ⟨first, more, coded, -, apart, -⟩
  · rw [plain] at member
    rw [List.mem_singleton.mp member]
    exact decide_eq_true quote
  · rw [coded] at member
    exact decide_eq_true (apart d member).1

theorem escape_noQuote (text : List Char) : ∀ d ∈ escape text, decide (d ≠ doubleQuote) = true := by
  intro d member
  obtain ⟨c, -, coded⟩ := List.mem_flatMap.mp member
  exact escapeChar_noQuote c d coded

/-- With an error, the value ends at the first mark, with the start of the block. -/
theorem takeWhile_replaceMark {start : List Char} (more : List Char) (noQuote : ∀ d ∈ start, decide (d ≠ doubleQuote) = true)
    (text : List Char) : (replaceMark (start ++ doubleQuote :: more) 0 (escape text)).takeWhile (· ≠ doubleQuote) =
      escape (beforeMark text) ++ if marked text then start else [] := by
  induction text using markInduction with
  | nil => rfl
  | mark rest ih =>
    rw [escape_errorMark, replaceMark_mark, List.append_assoc, List.takeWhile_append_of_pos noQuote, List.cons_append,
      List.takeWhile_cons_of_neg (by simp), List.append_nil]
    rfl
  | cons c rest other ih =>
    rw [replaceMark_escape_cons other, List.takeWhile_append_of_pos (escapeChar_noQuote c), ih, beforeMark, marked, other,
      if_neg Bool.false_ne_true, Bool.false_or, escape_cons, List.append_assoc]

theorem nextField_nil (nextPath : List Char) : nextField nextPath [] = replaceMark [] 0 nextPath := by
  have whole := unescape_escape (replaceMark [] 0 nextPath) []
  rw [List.append_nil, unescape, List.append_nil] at whole
  rw [nextField, errorBlock, if_pos rfl, replaceMark_escape, List.takeWhile_eq_self_iff.mpr (escape_noQuote _), whole]

theorem nextField_error {error : List Char} (some : error ≠ []) (nextPath : List Char) :
    nextField nextPath error = beforeMark nextPath ++ if marked nextPath then "<p class=".toList else [] := by
  have noQuote : ∀ d ∈ "<p class=".toList, decide (d ≠ doubleQuote) = true := by
    have all : "<p class=".toList.all (fun d => decide (d ≠ doubleQuote)) = true := by decide
    exact fun d member => List.all_eq_true.mp all d member
  rw [nextField, errorBlock, if_neg some]
  simp only [List.append_assoc, List.cons_append]
  rw [takeWhile_replaceMark _ noQuote, unescape_escape]
  split <;> rfl

/-! ### Where a link leads -/

/-- A browser that follows the link from a page of the site stays on the site, whichever site it is. -/
def SameOrigin (b : Browser) (link : List Char) : Prop :=
  ∀ site : Target, defaultPort site.scheme ≠ none → b.resolve site link = some site

/-- The second character that a browser reads is a slash too. -/
def leavesPage (link : List Char) : Bool := (link.filter (!lineChar ·)).tail.head?.any slash

section Links

variable {b : Browser} {rest : List Char}

theorem splitScheme_slash (rest : List Char) : splitScheme ('/' :: rest) = none := by
  refine splitScheme_eq_none fun after colon => ?_
  rw [List.dropWhile_cons_of_neg (by decide)] at colon
  cases colon

theorem tidy_slash (rest : List Char) : ∃ kept stripped, rest = kept ++ stripped ∧
    (∀ c ∈ stripped, controlOrSpace c = true) ∧ tidy ('/' :: rest) = '/' :: kept.filter (!lineChar ·) := by
  refine ⟨(rest.reverse.dropWhile controlOrSpace).reverse, (rest.reverse.takeWhile controlOrSpace).reverse, ?_, ?_, ?_⟩
  · rw [← List.reverse_append, List.takeWhile_append_dropWhile, List.reverse_reverse]
  · exact fun c member => List.mem_takeWhile_imp (List.mem_reverse.mp member)
  · have ends : (rest.reverse ++ ['/']).dropWhile controlOrSpace = rest.reverse.dropWhile controlOrSpace ++ ['/'] := by
      rw [List.dropWhile_append]
      split
      · rename_i empty
        rw [List.isEmpty_iff.mp empty]
        rfl
      · rfl
    rw [tidy, List.dropWhile_cons_of_neg (by decide), List.reverse_cons, ends, List.reverse_append, List.reverse_singleton,
      List.singleton_append, List.filter_cons_of_pos (by decide)]

theorem not_slash_of_control {c : Char} (control : controlOrSpace c = true) : slash c = false := by
  rw [slash, decide_eq_false_iff_not]
  intro member
  rcases List.mem_pair.mp member with rfl | rfl <;> exact absurd control (by decide)

/-- A link that begins with one slash stays on the page where no second slash follows, and leads to the
same host from every site otherwise. -/
theorem resolve_slash (b : Browser) (rest : List Char) :
    leavesPage ('/' :: rest) = false ∧ (∀ site, b.resolve site ('/' :: rest) = some site) ∨
      leavesPage ('/' :: rest) = true ∧ ∃ text, ∀ site, b.resolve site ('/' :: rest) = b.authority site.scheme text := by
  obtain ⟨kept, stripped, rfl, control, tidied⟩ := tidy_slash rest
  have resolved : ∀ site, b.resolve site ('/' :: (kept ++ stripped)) = b.relative site ('/' :: kept.filter (!lineChar ·)) := by
    intro site
    rw [Browser.resolve, tidied, splitScheme_slash]
  have second : leavesPage ('/' :: (kept ++ stripped)) = ((kept.filter (!lineChar ·)).head?.any slash) := by
    rw [leavesPage, List.filter_cons_of_pos (by decide), List.tail_cons, List.filter_append]
    cases shown : kept.filter (!lineChar ·) with
    | cons c more => rfl
    | nil =>
      rw [List.nil_append]
      cases hidden : stripped.filter (!lineChar ·) with
      | nil => rfl
      | cons d more =>
        have member : d ∈ stripped := List.mem_of_mem_filter (hidden ▸ List.mem_cons_self)
        exact not_slash_of_control (control d member)
  rw [second]
  cases shown : kept.filter (!lineChar ·) with
  | nil =>
    refine .inl ⟨rfl, fun site => ?_⟩
    rw [resolved, shown]
    rfl
  | cons c more =>
    cases sign : slash c with
    | false =>
      refine .inl ⟨sign, fun site => ?_⟩
      rw [resolved, shown, Browser.relative, sign, Bool.and_false]
      rfl
    | true =>
      refine .inr ⟨sign, more.dropWhile slash, fun site => ?_⟩
      rw [resolved, shown, Browser.relative, sign]
      rfl

theorem sameOrigin_slash : SameOrigin b ('/' :: rest) ↔ leavesPage ('/' :: rest) = false := by
  rcases resolve_slash b rest with ⟨stays, all⟩ | ⟨leaves, text, all⟩
  · exact iff_of_true (fun site _ => all site) stays
  · refine iff_of_false (fun same => ?_) (by rw [leaves]; exact Bool.false_ne_true.symm)
    -- Two sites of one scheme cannot both be where the link leads.
    have one := same ⟨"https".toList, "a".toList, 443⟩ (by decide)
    have other := same ⟨"https".toList, "b".toList, 443⟩ (by decide)
    rw [all] at one other
    exact absurd (Option.some.inj (one.symm.trans other)) (by decide)

/-- A redirect to a path that begins with one slash stays on the site. -/
theorem sameOrigin_location (single : "//".toList.isPrefixOf ('/' :: rest) = false) :
    SameOrigin b (Gateway.location ('/' :: rest)) := by
  intro site _
  rw [Gateway.location, Gateway.redirectSafe_keepsSigns.resolve_eq, splitScheme_slash]
  exact Gateway.redirectSafe_keepsSigns.relative_of_not b site single

end Links

/-! ### Signing in -/

variable {lib : Library} {config : AppConfig} {b : Browser} {username password : String} {next : List Char}

/-- Whoever is let in can be given a cookie. -/
theorem signingSecret_of_valid (valid : credentialsValid config username password = some true) :
    (signingSecret config).isNone = false := by
  rw [credentialsValid] at valid
  split at valid
  · rename_i set
    rw [signingSecret]
    split
    · rename_i token
      cases same : config.authBearerToken with
      | none => rw [same] at token; cases token
      | some secret => rfl
    · cases same : config.authPassword with
      | none => rw [same] at set; cases set
      | some secret => rfl
  · cases valid

theorem safe_cases (safe : isSafeNextPath lib next = some true) :
    (∃ rest, next = '/' :: rest) ∧ "//".toList.isPrefixOf next = false := by
  rw [isSafeNextPath] at safe
  split at safe
  · cases safe
  · rename_i shape
    rw [not_or, not_or, not_not, Bool.not_eq_true] at shape
    obtain ⟨-, rooted, single⟩ := shape
    obtain ⟨rest, whole⟩ := List.isPrefixOf_iff_prefix.mp rooted
    exact ⟨⟨rest, whole.symm⟩, single⟩

theorem beforeMark_slash (rest : List Char) : beforeMark ('/' :: rest) = '/' :: beforeMark rest := by
  rw [beforeMark, isPrefixOf_of_ne (by decide), if_neg Bool.false_ne_true]

/-- What is put after a part of the value does not turn it into another link. -/
theorem leavesPage_append (text : List Char) {tail : List Char} (other : ∀ c ∈ tail, lineChar c = false ∧ slash c = false) :
    leavesPage ('/' :: text ++ tail) = leavesPage ('/' :: text) := by
  rw [leavesPage, leavesPage, List.cons_append, List.filter_cons_of_pos (by decide), List.filter_cons_of_pos (by decide),
    List.tail_cons, List.tail_cons, List.filter_append]
  cases text.filter (!lineChar ·) with
  | cons c more => rfl
  | nil =>
    cases tail with
    | nil => rfl
    | cons c tail =>
      rw [List.forall_mem_cons] at other
      rw [List.nil_append, List.filter_cons_of_pos (by simp [other.1.1])]
      exact other.1.2

theorem sameOrigin_nextField {rest error : List Char} (some : error ≠ []) :
    SameOrigin b (nextField ('/' :: rest) error) ↔ leavesPage (beforeMark ('/' :: rest)) = false := by
  have plain : ∀ c ∈ (if marked ('/' :: rest) then "<p class=".toList else []), lineChar c = false ∧ slash c = false := by
    split
    · have all : "<p class=".toList.all (fun c => lineChar c = false ∧ slash c = false) = true := by decide
      exact fun c member => of_decide_eq_true (List.all_eq_true.mp all c member)
    · exact fun c no => by cases no
  rw [nextField_error some, beforeMark_slash, ← leavesPage_append (beforeMark rest) plain]
  exact sameOrigin_slash

/-- What a call answers. -/
theorem authLogin_eq {safe valid : Bool} (path : isSafeNextPath lib next = some safe)
    (credentials : credentialsValid config username password = some valid) :
    authLogin lib config username password next =
      some (if valid then .redirect (if safe then next else "/web/".toList)
        else .page (if safe then next else "/web/".toList) "Invalid username or password.".toList) := by
  rw [authLogin, path, Option.bind_some]
  dsimp only
  rw [credentials, Option.map_some]
  cases valid with
  | false => rfl
  | true =>
    rw [signingSecret_of_valid credentials]
    rfl

/-- The part of the claim about the link. -/
theorem link_sameOrigin_iff : (∀ answer, authLogin lib config username password next = some answer → SameOrigin b answer.link) ↔
    (credentialsValid config username password = some false → isSafeNextPath lib next = some true →
      leavesPage (beforeMark next) = false) := by
  have home : "/web/".toList = '/' :: "web/".toList := rfl
  have invalid : "Invalid username or password.".toList ≠ [] := by decide
  cases path : isSafeNextPath lib next with
  | none =>
    refine iff_of_true (fun answer no => ?_) fun _ no => (by cases no)
    rw [authLogin, path] at no
    cases no
  | some safe =>
    cases credentials : credentialsValid config username password with
    | none =>
      refine iff_of_true (fun answer no => ?_) fun no => (by cases no)
      rw [authLogin, path, Option.bind_some, credentials] at no
      cases no
    | some valid =>
      have only : (∀ answer, authLogin lib config username password next = some answer → SameOrigin b answer.link) ↔ _ :=
        ⟨fun all => all _ (authLogin_eq path credentials), fun same answer given =>
          Option.some.inj ((authLogin_eq path credentials).symm.trans given) ▸ same⟩
      rw [only]
      cases safe with
      | false =>
        refine iff_of_true ?_ fun _ no => absurd (Option.some.inj no) Bool.false_ne_true
        cases valid with
        | true => exact sameOrigin_location (by decide)
        | false => exact (sameOrigin_nextField invalid).mpr (by decide)
      | true =>
        obtain ⟨⟨rest, rfl⟩, single⟩ := safe_cases path
        cases valid with
        | true => exact iff_of_true (sameOrigin_location single) fun no => absurd (Option.some.inj no) Bool.false_ne_true.symm
        | false =>
          rw [forall_prop_of_true rfl, forall_prop_of_true rfl]
          exact sameOrigin_nextField invalid

/-- A path that begins with a single slash, with its query, without a backslash or control characters. -/
structure PlainTarget (target : List Char) : Prop where
  rooted : ∃ rest, target = '/' :: rest
  single : "//".toList.isPrefixOf target = false
  backslash : '\\' ∉ target
  visible : ∀ c ∈ target, 0x20 ≤ c.toNat

theorem mem_replaceMark {c : Char} {skip : ℕ} {text : List Char} (member : c ∈ replaceMark [] skip text) : c ∈ text := by
  induction text generalizing skip with
  | nil => cases skip <;> exact member
  | cons d rest ih =>
    cases skip with
    | succ skip => exact List.mem_cons_of_mem _ (ih member)
    | zero =>
      rw [replaceMark] at member
      split at member
      · exact List.mem_cons_of_mem _ (ih member)
      · rcases List.mem_cons.mp member with rfl | later
        · exact List.mem_cons_self
        · exact List.mem_cons_of_mem _ (ih later)

theorem urlsplit_plain {rest : List Char} (single : "//".toList.isPrefixOf ('/' :: rest) = false)
    (visible : ∀ c ∈ '/' :: rest, 0x20 ≤ c.toNat) : urlsplit lib ('/' :: rest) = some ([], []) := by
  have clean : cleaned ('/' :: rest) = '/' :: rest := by
    rw [cleaned, List.dropWhile_cons_of_neg (by decide)]
    refine List.filter_eq_self.mpr fun c member => ?_
    cases line : lineChar c with
    | false => rfl
    | true => exact absurd (toNat_lt_of_lineChar line) (Nat.not_lt.mpr (visible c member))
  rw [urlsplit, clean, splitScheme_slash, afterScheme, splitScheme_slash]
  dsimp only
  split
  · rename_i more same
    rw [same] at single
    cases single
  · rfl

/-- The part of the claim about the page's own value. -/
theorem followed_iff {target : List Char} (plain : PlainTarget target) (valid : credentialsValid config username password = some true) :
    authLogin lib config username password (nextField target []) = some (.redirect (nextField target [])) ↔
      "//".toList.isPrefixOf (replaceMark [] 0 target) = false := by
  obtain ⟨⟨rest, rfl⟩, -, backslash, visible⟩ := plain
  have begins : replaceMark [] 0 ('/' :: rest) = '/' :: replaceMark [] 0 rest :=
    replaceMark_cons (isPrefixOf_of_ne (by decide) _) []
  have inside : ∀ c ∈ replaceMark [] 0 ('/' :: rest), c ∈ '/' :: rest := fun c => mem_replaceMark
  rw [nextField_nil]
  cases double : "//".toList.isPrefixOf (replaceMark [] 0 ('/' :: rest)) with
  | true =>
    have refused : isSafeNextPath lib (replaceMark [] 0 ('/' :: rest)) = some false := by
      rw [isSafeNextPath, if_pos (.inr (.inr double))]
    rw [authLogin_eq refused valid]
    refine iff_of_false (fun same => ?_) Bool.false_ne_true.symm
    have home : "/web/".toList = replaceMark [] 0 ('/' :: rest) := LoginAnswer.redirect.inj (Option.some.inj same)
    rw [← home] at double
    exact absurd double (by decide)
  | false =>
    have hidden : ∀ c : Char, c.toNat < 0x20 → c ∉ replaceMark [] 0 ('/' :: rest) := fun c small member =>
      absurd small (Nat.not_lt.mpr (visible c (inside c member)))
    have accepted : isSafeNextPath lib (replaceMark [] 0 ('/' :: rest)) = some true := by
      have split := @urlsplit_plain lib (replaceMark [] 0 rest) (begins ▸ double) (begins ▸ fun c member => visible c (inside c member))
      have shape : ¬ (replaceMark [] 0 ('/' :: rest) = [] ∨ ¬ "/".toList.isPrefixOf (replaceMark [] 0 ('/' :: rest)) = true ∨
          "//".toList.isPrefixOf (replaceMark [] 0 ('/' :: rest)) = true) := by
        rw [double, begins]
        rintro (no | no | no)
        · cases no
        · exact no rfl
        · cases no
      have bare : ¬ ('\\' ∈ replaceMark [] 0 ('/' :: rest) ∨ '\n' ∈ replaceMark [] 0 ('/' :: rest) ∨
          '\r' ∈ replaceMark [] 0 ('/' :: rest)) := by
        rintro (no | no | no)
        · exact backslash (inside _ no)
        · exact hidden _ (by decide) no
        · exact hidden _ (by decide) no
      rw [isSafeNextPath, if_neg shape, if_neg bare, begins, split]
      rfl
    rw [authLogin_eq accepted valid]
    exact iff_of_true rfl rfl

private def signInLibrary : Library where
  hmac _ _ := ""
  int _ := none
  strip text := text
  lower text := text
  b64decode _ := none
  refused _ := false

private def passwordOnly : AppConfig := { authPassword := some "secret", authEnabled := true }

private theorem oneHost_eq {text h : List Char}
    (read : (if text = "evil.com".toList then some text else none) = some h) : text = "evil.com".toList := by
  split at read
  · assumption
  · cases read

private theorem notMem_oneHost {c : Char} (member : c ∈ "evil.com".toList) : c ∉ ['[', '%'] := by
  have all : "evil.com".toList.all (· ∉ ['[', '%']) = true := by decide
  exact of_decide_eq_true (List.all_eq_true.mp all c member)

/-- A browser that knows one host. -/
private def oneHostBrowser : Browser where
  host text := if text = "evil.com".toList then some text else none
  bracket_first given :=
    absurd (by decide) (notMem_oneHost (oneHost_eq given ▸ List.mem_append_right _ List.mem_cons_self))
  bracket_closed given := absurd (by decide) (notMem_oneHost (oneHost_eq given ▸ List.mem_cons_self))
  bracket_last given := absurd (by decide) (notMem_oneHost (oneHost_eq given ▸ List.mem_cons_self))
  noControl given := absurd (by decide) (notMem_oneHost (oneHost_eq given ▸ List.mem_append_right _ List.mem_cons_self))
  loopback := by
    intro text name h known lower given
    rw [oneHost_eq given] at lower
    have other : loopbackNames.all (fun name => "evil.com".toList.map asciiLower ≠ name ∧
        "evil.com".toList.map asciiLower ≠ '[' :: (name ++ [']'])) = true := by decide
    have apart := of_decide_eq_true (List.all_eq_true.mp other name known)
    exact absurd lower (not_or.mpr apart)

private def visiting (path : String) : Request := { method := "GET", scheme := .https, host := "graph.example", path }

private theorem login_facts :
    authLogin signInLibrary passwordOnly "admin" "wrong" "/\t//evil.com".toList =
        some (.page "/\t//evil.com".toList "Invalid username or password.".toList) ∧
      leavesPage (beforeMark "/\t//evil.com".toList) = true ∧
      requestedTarget signInLibrary (visiting "/__ERROR__/web/") = some "/__ERROR__/web/".toList ∧
      nextField "/__ERROR__/web/".toList [] = "//web/".toList ∧
      authLogin signInLibrary passwordOnly "admin" "secret" "//web/".toList = some (.redirect "/web/".toList) ∧
      requestedTarget signInLibrary (visiting "/web/") = some "/web/".toList ∧
      credentialsValid passwordOnly "admin" "secret" = some true := by
  decide +kernel

end MetadataGraph.Api
