import Mathlib.Data.List.Infix
import Mathlib.Data.List.TakeWhile

namespace MetadataGraph.Api

/-- The part of the application's configuration that the gate reads. -/
structure AppConfig where
  authUsername : String := "admin"
  authPassword : Option String := none
  authBearerToken : Option String := none
  authEnabled : Bool := false
  mcpBasicAuth : Bool := false
  mcpAuthEnabled : Option Bool := none

/-- A text that is given and not empty. -/
def given (text : Option String) : Bool := text.getD "" ≠ ""

/-- `compute_auth_active`. -/
def computeAuthActive (config : AppConfig) : Bool :=
  (given config.authPassword && (config.authEnabled || config.mcpBasicAuth)) ||
    (given config.authBearerToken && (config.authEnabled || config.mcpBasicAuth))

inductive Scheme where
  | http | https

def Scheme.text : Scheme → String
  | http => "http"
  | https => "https"

/-- A request as the server hands it over. The router reads the path alone. -/
structure Request where
  method : String
  scheme : Scheme
  host : String
  path : String
  query : String := ""
  authorization : Option String := none
  sessionCookie : Option String := none

/-- What the gate uses of the standard library: the signature of a text under the key derived
from a secret, `int()` of a text, `strip`, `lower`, the text that a base64 text stands for, and
the network locations that `urlsplit` refuses. -/
structure Library where
  hmac : String → String → String
  int : String → Option Int
  strip : String → String
  lower : String → String
  b64decode : String → Option String
  refused : List Char → Bool

/-- The characters that `urlsplit` removes from a URL. -/
def unsafeUrlChars : List Char := ['\t', '\r', '\n']

def removeUnsafe (url : List Char) : List Char := url.filter (· ∉ unsafeUrlChars)

/-- `urlsplit(url).path` for what follows the scheme and two slashes. There is no result where it
raises. -/
def splitPath (lib : Library) (url : List Char) : Option (List Char) :=
  let netloc := url.takeWhile (· ∉ ['/', '?', '#'])
  if lib.refused netloc then none
  else
    let withoutFragment := (url.dropWhile (· ∉ ['/', '?', '#'])).takeWhile (· ≠ '#')
    some (withoutFragment.takeWhile (· ≠ '?'))

/-- `request.url`, after its scheme. -/
def Request.url (request : Request) : List Char :=
  request.host.toList ++ request.path.toList ++ if request.query = "" then [] else '?' :: request.query.toList

/-- `request.url.path`. -/
def Request.urlPath (lib : Library) (request : Request) : Option String :=
  (splitPath lib (removeUnsafe request.url)).map String.ofList

def startsWith (path start : String) : Bool := start.toList <+: path.toList

def endsWith (path last : String) : Bool := last.toList <:+ path.toList

/-- `part in path`. -/
def contains (path part : String) : Bool := part.toList <:+: path.toList

def publicPaths : List String := ["/health", "/ready", "/readyz", "/healthz/deep", "/healthz/storage",
  "/healthz/secrets", "/info", "/diagnostics/startup", "/auth/login", "/auth/logout", "/logged-out", "/favicon.ico",
  "/favicon.svg", "/favicon.png", "/graph-icon.svg"]

def isMcpPath (path : String) : Bool :=
  path = "/mcp" || startsWith path "/mcp/" || path = "/execute_tool" || startsWith path "/execute_tool/"

/-- The paths that need no credentials, as the gate tests them. -/
def bypasses (config : AppConfig) (path : String) : Bool :=
  publicPaths.contains path || startsWith path "/sessions/" ||
    (endsWith path "/stream" && contains path "/api/sessions/") ||
    (config.mcpAuthEnabled = some false && isMcpPath path) ||
    (config.mcpBasicAuth && !config.authEnabled && !isMcpPath path)

/-- `compare_digest` of two texts, which raises unless both are ASCII. -/
def compareDigest (a b : String) : Option Bool :=
  if (a.toList ++ b.toList).all (·.toNat < 128) then some (a = b) else none

/-- A text split at the first place of a character. -/
def cutAt (c : Char) (text : String) : Option (String × String) :=
  match text.toList.dropWhile (· ≠ c) with
  | [] => none
  | _ :: rest => some (.ofList (text.toList.takeWhile (· ≠ c)), .ofList rest)

/-- The secret that cookies are signed with. -/
def signingSecret (config : AppConfig) : Option String :=
  if given config.authBearerToken then config.authBearerToken
  else if given config.authPassword then config.authPassword
  else none

/-- `_value_is_valid`. There is no result where comparing the signatures raises. -/
def valueIsValid (lib : Library) (config : AppConfig) (now : Int) (value : String) : Option Bool :=
  match signingSecret config, cutAt '.' value with
  | some secret, some (version, rest) => match cutAt '.' rest with
    | some (expiresStr, sig) =>
      (compareDigest sig (lib.hmac secret (version ++ "." ++ expiresStr))).map fun same =>
        same && (lib.int expiresStr).any fun expires => now ≤ expires
    | none => some false
  | _, _ => some false

/-- `request_has_valid_session`. -/
def requestHasValidSession (lib : Library) (config : AppConfig) (now : Int) (request : Request) : Option Bool :=
  match request.sessionCookie with
  | some cookie => if cookie = "" then some false else valueIsValid lib config now cookie
  | none => some false

/-- The credentials of an Authorization header; whatever raises on the way makes them invalid. -/
def credentialsAccepted (lib : Library) (config : AppConfig) (header : String) : Bool :=
  match cutAt ' ' header with
  | some (scheme, credentials) =>
    if lib.lower scheme = "bearer" then
      given config.authBearerToken &&
        compareDigest (lib.strip credentials) (config.authBearerToken.getD "") = some true
    else if lib.lower scheme = "basic" then
      given config.authPassword && (lib.b64decode credentials).any fun decoded =>
        let (username, password) := (cutAt ':' decoded).getD (decoded, "")
        compareDigest username config.authUsername = some true &&
          compareDigest password (config.authPassword.getD "") = some true
    else false
  | none => false

inductive Outcome where
  | passed
  | unauthorized (detail : String)
  | raised
  deriving DecidableEq

/-- `auth_middleware`. -/
def authMiddleware (lib : Library) (config : AppConfig) (now : Int) (request : Request) : Outcome :=
  if request.method = "OPTIONS" then .passed
  else match request.urlPath lib with
    | none => .raised
    | some path =>
      if bypasses config path then .passed
      else match requestHasValidSession lib config now request with
        | none => .raised
        | some true => .passed
        | some false =>
          if given request.authorization = false then .unauthorized "Authentication required"
          else if credentialsAccepted lib config (request.authorization.getD "") then .passed
          else .unauthorized "Invalid credentials"

/-- `add_auth_middleware`: the gate is installed when authentication is active. -/
def gate (lib : Library) (config : AppConfig) (now : Int) (request : Request) : Outcome :=
  if computeAuthActive config then authMiddleware lib config now request else .passed

/-- A request that no cookie and no credentials speak for. -/
def Unauthenticated (lib : Library) (config : AppConfig) (now : Int) (request : Request) : Prop :=
  requestHasValidSession lib config now request ≠ some true ∧
    (given request.authorization = true → credentialsAccepted lib config (request.authorization.getD "") = false)

/-- `/api/sessions/{id}/stream`. -/
def IsStreamRoute (path : String) : Prop :=
  ∃ id, id ≠ [] ∧ '/' ∉ id ∧ path.toList = "/api/sessions/".toList ++ id ++ "/stream".toList

/-- The mode in which only the tools of the MCP are guarded. -/
def McpOnly (config : AppConfig) : Prop :=
  config.mcpBasicAuth = true ∧ config.authEnabled = false ∧ config.mcpAuthEnabled ≠ some false

/-- The paths that are meant to need no credentials. -/
def Allowed (config : AppConfig) (path : String) : Prop :=
  path ∈ publicPaths ∨ startsWith path "/sessions/" = true ∨ IsStreamRoute path ∨
    (config.mcpAuthEnabled = some false ∧ isMcpPath path = true) ∨
    (config.mcpBasicAuth = true ∧ config.authEnabled = false ∧ isMcpPath path = false)

/-- The gate passes the request on only if the path by which it is routed allows it. -/
def JudgesRouted (lib : Library) (config : AppConfig) (now : Int) (request : Request) : Prop :=
  gate lib config now request = .passed →
    Allowed config request.path ∧ (McpOnly config → isMcpPath request.path = false)

/-- A path that passes for the stream of a session and is not one. -/
def PassesForStream (config : AppConfig) (path : String) : Prop :=
  endsWith path "/stream" = true ∧ contains path "/api/sessions/" = true ∧ ¬ Allowed config path

/-- What is read out of the URL as its path, if anything, is judged like the path itself. -/
def Sound (lib : Library) (config : AppConfig) (request : Request) : Prop :=
  ∀ path, request.urlPath lib = some path →
    if path = request.path then ¬ PassesForStream config path
    else bypasses config path = true → Allowed config request.path

variable {lib : Library} {config : AppConfig} {now : Int} {request : Request} {path : String}

theorem IsStreamRoute.looks_like (route : IsStreamRoute path) :
    endsWith path "/stream" = true ∧ contains path "/api/sessions/" = true := by
  obtain ⟨id, -, -, spelled⟩ := route
  rw [endsWith, contains, decide_eq_true_iff, decide_eq_true_iff, spelled]
  exact ⟨List.suffix_append _ _, [], id ++ "/stream".toList, by rw [List.nil_append, List.append_assoc]⟩

/-- The gate's own tests let through what is meant to pass, and what passes for a stream. -/
theorem bypasses_iff : bypasses config path = true ↔ Allowed config path ∨ PassesForStream config path := by
  have tests : bypasses config path = true ↔ path ∈ publicPaths ∨ startsWith path "/sessions/" = true ∨
      (endsWith path "/stream" = true ∧ contains path "/api/sessions/" = true) ∨
      (config.mcpAuthEnabled = some false ∧ isMcpPath path = true) ∨
      (config.mcpBasicAuth = true ∧ config.authEnabled = false ∧ isMcpPath path = false) := by
    simp only [bypasses, Bool.or_eq_true, Bool.and_eq_true, List.contains_iff_mem, decide_eq_true_eq,
      Bool.not_eq_true', or_assoc, and_assoc]
  rw [tests]
  constructor
  · intro test
    by_cases allowed : Allowed config path
    · exact .inl allowed
    · refine .inr ?_
      rcases test with isPublic | session | stream | other
      · exact absurd (.inl isPublic) allowed
      · exact absurd (.inr (.inl session)) allowed
      · exact ⟨stream.1, stream.2, allowed⟩
      · exact absurd (.inr (.inr (.inr other))) allowed
  · rintro ((isPublic | session | route | other) | ⟨last, part, -⟩)
    · exact .inl isPublic
    · exact .inr (.inl session)
    · exact .inr (.inr (.inl route.looks_like))
    · exact .inr (.inr (.inr other))
    · exact .inr (.inr (.inl ⟨last, part⟩))

theorem startsWith_disjoint {first second : String} (starts : startsWith path first = true)
    (apart : ¬ first.toList <+: second.toList ∧ ¬ second.toList <+: first.toList) : startsWith path second = false := by
  rw [startsWith, decide_eq_true_iff] at starts
  rw [startsWith, decide_eq_false_iff_not]
  intro starts'
  rcases List.prefix_or_prefix_of_prefix starts starts' with before | before
  · exact apart.1 before
  · exact apart.2 before

/-- A path that starts like no tool of the MCP is none. -/
theorem isMcpPath_of_startsWith {start : String} (starts : startsWith path start = true)
    (apart : ∀ tool ∈ ["/mcp", "/mcp/", "/execute_tool", "/execute_tool/"],
      ¬ start.toList <+: tool.toList ∧ ¬ tool.toList <+: start.toList) : isMcpPath path = false := by
  have differs : ∀ tool, ¬ start.toList <+: tool.toList → path ≠ tool := by
    rintro tool no rfl
    exact no (of_decide_eq_true starts)
  simp only [List.forall_mem_cons] at apart
  obtain ⟨mcp, mcpTools, execute, executeTools, -⟩ := apart
  simp only [isMcpPath, Bool.or_eq_false_iff, decide_eq_false_iff_not]
  exact ⟨⟨⟨differs _ mcp.1, startsWith_disjoint starts mcpTools⟩, differs _ execute.1⟩,
    startsWith_disjoint starts executeTools⟩

private theorem apart_facts : (∀ path ∈ publicPaths, isMcpPath path = false) ∧
    ∀ start ∈ ["/sessions/", "/api/sessions/"], ∀ tool ∈ ["/mcp", "/mcp/", "/execute_tool", "/execute_tool/"],
      ¬ start.toList <+: tool.toList ∧ ¬ tool.toList <+: start.toList := by
  decide +kernel

theorem Allowed.not_mcp (allowed : Allowed config path) (mcpOnly : McpOnly config) : isMcpPath path = false := by
  rcases allowed with isPublic | session | route | override | other
  · exact apart_facts.1 path isPublic
  · exact isMcpPath_of_startsWith session (apart_facts.2 _ List.mem_cons_self)
  · obtain ⟨id, -, -, spelled⟩ := route
    have starts : startsWith path "/api/sessions/" = true := by
      rw [startsWith, decide_eq_true_iff, spelled, List.append_assoc]
      exact List.prefix_append _ _
    exact isMcpPath_of_startsWith starts (apart_facts.2 _ (List.mem_cons_of_mem _ List.mem_cons_self))
  · exact absurd override.1 mcpOnly.2.2
  · exact other.2.2

theorem gate_passed_iff (active : computeAuthActive config = true) (method : request.method ≠ "OPTIONS")
    (unauthenticated : Unauthenticated lib config now request) :
    gate lib config now request = .passed ↔ ∃ path, request.urlPath lib = some path ∧ bypasses config path = true := by
  rw [gate, if_pos active, authMiddleware, if_neg method]
  cases request.urlPath lib with
  | none => simp
  | some path =>
    simp only [Option.some.injEq, exists_eq_left']
    by_cases bypass : bypasses config path = true
    · simp only [bypass, if_true]
    · rw [if_neg bypass]
      refine iff_of_false ?_ bypass
      obtain ⟨noSession, noCredentials⟩ := unauthenticated
      split
      · exact fun no => (by cases no)
      · rename_i valid
        exact absurd valid noSession
      · split
        · exact fun no => (by cases no)
        · rename_i header
          rw [noCredentials (by simpa using header), if_neg Bool.false_ne_true]
          exact fun no => (by cases no)

/-- A host without delimiters and a path without a query or a fragment are read as they were joined. -/
theorem urlPath_eq_path (host : ∀ c ∈ request.host.toList, c ∉ ['/', '?', '#'])
    (accepted : lib.refused (removeUnsafe request.host.toList) = false)
    (rooted : ∃ rest, request.path.toList = '/' :: rest)
    (plain : ∀ c ∈ request.path.toList, c ≠ '?' ∧ c ≠ '#' ∧ c ∉ unsafeUrlChars) :
    request.urlPath lib = some request.path := by
  obtain ⟨rest, rooted⟩ := rooted
  have kept : removeUnsafe request.path.toList = request.path.toList :=
    List.filter_eq_self.mpr fun c member => by simpa using (plain c member).2.2
  have joined : removeUnsafe request.url = removeUnsafe request.host.toList ++ (request.path.toList ++
      removeUnsafe (if request.query = "" then [] else '?' :: request.query.toList)) := by
    rw [Request.url, removeUnsafe, List.filter_append, List.filter_append, ← removeUnsafe, ← removeUnsafe, kept,
      List.append_assoc]
    rfl
  have location : ∀ c ∈ removeUnsafe request.host.toList, decide (c ∉ ['/', '?', '#']) = true :=
    fun c member => decide_eq_true (host c (List.mem_of_mem_filter member))
  have netloc : (removeUnsafe request.url).takeWhile (· ∉ ['/', '?', '#']) = removeUnsafe request.host.toList := by
    rw [joined, List.takeWhile_append_of_pos location, rooted, List.cons_append, List.takeWhile_cons_of_neg (by simp),
      List.append_nil]
  have tail : (removeUnsafe request.url).dropWhile (· ∉ ['/', '?', '#']) = request.path.toList ++
      removeUnsafe (if request.query = "" then [] else '?' :: request.query.toList) := by
    rw [joined, List.dropWhile_append_of_pos location, rooted, List.cons_append, List.dropWhile_cons_of_neg (by simp)]
  have noFragment : ∀ c ∈ request.path.toList, decide (c ≠ '#') = true := fun c member =>
    decide_eq_true (plain c member).2.1
  have noQuery : ∀ c ∈ request.path.toList, decide (c ≠ '?') = true := fun c member =>
    decide_eq_true (plain c member).1
  have ends : ∀ fragment : List Char, (fragment = [] ∨ ∃ more, fragment = '?' :: more) →
      (request.path.toList ++ fragment).takeWhile (· ≠ '?') = request.path.toList := by
    rintro fragment (rfl | ⟨more, rfl⟩)
    · rw [List.append_nil, List.takeWhile_eq_self_iff.mpr noQuery]
    · rw [List.takeWhile_append_of_pos noQuery, List.takeWhile_cons_of_neg (by simp), List.append_nil]
  rw [Request.urlPath, splitPath, netloc, if_neg (by simp [accepted]), tail, List.takeWhile_append_of_pos noFragment]
  dsimp only
  rw [ends, Option.map_some, String.ofList_toList]
  split
  · exact .inl rfl
  · refine .inr ⟨((removeUnsafe request.query.toList).takeWhile (· ≠ '#')), ?_⟩
    rw [removeUnsafe, List.filter_cons_of_pos (by decide), List.takeWhile_cons_of_pos (by decide)]
    rfl

theorem sound_iff_of_read (read : request.urlPath lib = some request.path) :
    Sound lib config request ↔ ¬ PassesForStream config request.path := by
  rw [Sound, read]
  constructor
  · intro sound
    have judged := sound request.path rfl
    rwa [if_pos rfl] at judged
  · intro honest path same
    cases same
    rw [if_pos rfl]
    exact honest

/-- Of the requests that are spelled plainly only the look-alikes of a stream are misjudged. -/
theorem sound_iff_of_plain (host : ∀ c ∈ request.host.toList, c ∉ ['/', '?', '#'])
    (accepted : lib.refused (removeUnsafe request.host.toList) = false)
    (rooted : ∃ rest, request.path.toList = '/' :: rest)
    (plain : ∀ c ∈ request.path.toList, c ≠ '?' ∧ c ≠ '#' ∧ c ∉ unsafeUrlChars) :
    Sound lib config request ↔ ¬ PassesForStream config request.path :=
  sound_iff_of_read (urlPath_eq_path host accepted rooted plain)

private def sampleLibrary : Library where
  hmac _ _ := ""
  int _ := none
  strip text := text
  lower text := .ofList (text.toList.map Char.toLower)
  b64decode _ := none
  refused _ := false

/-- Only the tools of the MCP are guarded, by a token. -/
private def mcpOnly : AppConfig := { authBearerToken := some "token", mcpBasicAuth := true }

private def guarded : AppConfig := { authBearerToken := some "token", authEnabled := true }

private def asking (path : String) : Request where
  method := "POST"
  scheme := .https
  host := "graph.example"
  path := path

private theorem asking_unauthenticated (config : AppConfig) (now : Int) (path : String) :
    Unauthenticated sampleLibrary config now (asking path) :=
  ⟨fun no => (by cases no), fun no => (by cases no)⟩

private theorem asking_facts : gate sampleLibrary mcpOnly 0 (asking "/mcp/api/sessions/a/stream") = .passed ∧
    isMcpPath "/mcp/api/sessions/a/stream" = true ∧
    (asking "/api/nodes").urlPath sampleLibrary = some "/api/nodes" ∧ endsWith "/api/nodes" "/stream" = false := by
  decide +kernel

end MetadataGraph.Api
