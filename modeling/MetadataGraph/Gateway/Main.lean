import MetadataGraph.Gateway.Auth
import MetadataGraph.Lib.Runs

namespace MetadataGraph.Gateway

open UrlCoding Runs

/-- What an endpoint answers. A redirect to a client names the code that it carries and what is
stored under it. -/
inductive Outcome where
  | refused (status : Nat) (detail : String)
  | raised
  | toGoogle (location : List Char)
  | toClient (location : List Char) (code : String) (entry : AuthCode)
  | issued (token : String) (claims : Claims)
  | passedKey
  | passed (claims : Claims)
  | restarted

def Outcome.isRefusal : Outcome → Bool
  | .refused _ _ | .raised => true
  | _ => false

/-- The characters that a redirect leaves as they are in its location. -/
def redirectSafe : List Char := ":/%#?=@[]!$&'()*+,;".toList

/-- The location of `RedirectResponse(url)`. -/
def location (url : List Char) : List Char := quote redirectSafe url

/-- `text.rstrip("/")`. -/
def rstripSlashes (text : String) : String := .ofList (text.toList.reverse.dropWhile (· = '/')).reverse

/-- `_is_loopback_redirect`. -/
def isLoopbackRedirect (lib : Library) (redirectUri : String) : Option Bool :=
  (lib.hostname redirectUri).map fun host => ["127.0.0.1", "::1", "localhost"].contains host

/-- `_redirect_uri_allowed`. -/
def redirectUriAllowed (lib : Library) (config : Config) (redirectUri : String) : Option Bool :=
  if redirectUri = "" then some false
  else (isLoopbackRedirect lib redirectUri).map fun loopback =>
    loopback || config.allowedRedirectOrigins.isEmpty || config.allowedRedirectOrigins.any fun origin =>
      rstripSlashes redirectUri = origin || (origin ++ "/").toList.isPrefixOf redirectUri.toList

structure AuthorizeQuery where
  redirectUri : String := ""
  state : String := ""
  codeChallenge : String := ""
  codeChallengeMethod : String := ""

/-- `gateway_state`. -/
def gatewayState (query : AuthorizeQuery) (nonce : String) : List Char :=
  ['|'].intercalate ([query.state, query.codeChallenge, query.redirectUri, nonce].map fun part => quote [] part.toList)

/-- `authorize`, with the nonce that `uuid4` gives. -/
def authorize (lib : Library) (config : Config) (query : AuthorizeQuery) (nonce : String) : Outcome :=
  if query.codeChallenge = "" then .refused 400 "code_challenge is required"
  else if lib.upper query.codeChallengeMethod ≠ "S256" then
    .refused 400 "Only code_challenge_method=S256 is supported"
  else match redirectUriAllowed lib config query.redirectUri with
    | none => .raised
    | some false => .refused 400 "redirect_uri not permitted"
    | some true => .toGoogle (location (buildGoogleAuthUrl config (gatewayState query nonce) nonce.toList))

structure CallbackQuery where
  code : String := ""
  state : String := ""
  error : String := ""

/-- What the gateway keeps in memory. `draws` counts the texts taken from `uuid4`, and `time` is the
last reading of the clock. -/
structure State where
  config : Config
  codeStore : Dict AuthCode := {}
  draws : Nat := 0
  time : ℚ := 0

/-- `destination`: the redirect target of the client with the code and its own state. -/
def destination (redirectUri code originalState : String) : List Char :=
  redirectUri.toList ++ '?' :: urlencode [("code".toList, code.toList), ("state".toList, originalState.toList)]

/-- `callback`, with Google's answers to codes. -/
def callback (lib : Library) (uuids : Uuids) (s : State) (query : CallbackQuery) (google : String → GoogleAnswer)
    (clock : Moments) : State × Outcome :=
  if query.error ≠ "" then (s, .refused 400 ("Google OAuth error: " ++ query.error))
  else if query.code = "" ∨ query.state = "" then (s, .refused 400 "Missing code or state from Google")
  else match (query.state.toList.splitOn '|').map fun part => String.ofList (unquote part) with
    | [originalState, codeChallenge, redirectUri, nonce] =>
      match redirectUriAllowed lib s.config redirectUri with
      | none => (s, .raised)
      | some false => (s, .refused 400 "redirect_uri not permitted")
      | some true => match exchangeGoogleCode lib (google query.code) nonce with
        | .raised => (s, .raised)
        | .refused => (s, .refused 400 "Failed to retrieve user info from Google")
        | .email email =>
          if !isUserAllowed lib s.config email then
            (s, .refused 403 ("User " ++ email ++ " is not authorized to use this service"))
          else
            let code := uuids.text s.draws
            let (codeStore, entry) := issueAuthCode clock s.codeStore code email codeChallenge redirectUri
            ({ s with codeStore := codeStore, draws := s.draws + 1 },
              .toClient (location (destination redirectUri code originalState)) code entry)
    | _ => (s, .refused 400 "Invalid state parameter")

/-- The state that came back with its four parts. -/
theorem callback_of_parts {lib : Library} {uuids : Uuids} {s : State} {query : CallbackQuery}
    {google : String → GoogleAnswer} {clock : Moments} {originalState codeChallenge redirectUri nonce : String}
    (error : query.error = "") (given : ¬ (query.code = "" ∨ query.state = ""))
    (parts : (query.state.toList.splitOn '|').map (fun part => String.ofList (unquote part)) =
      [originalState, codeChallenge, redirectUri, nonce]) :
    callback lib uuids s query google clock = match redirectUriAllowed lib s.config redirectUri with
      | none => (s, .raised)
      | some false => (s, .refused 400 "redirect_uri not permitted")
      | some true => match exchangeGoogleCode lib (google query.code) nonce with
        | .raised => (s, .raised)
        | .refused => (s, .refused 400 "Failed to retrieve user info from Google")
        | .email email =>
          if !isUserAllowed lib s.config email then
            (s, .refused 403 ("User " ++ email ++ " is not authorized to use this service"))
          else
            ({ s with
                codeStore := (issueAuthCode clock s.codeStore (uuids.text s.draws) email codeChallenge redirectUri).1
                draws := s.draws + 1 },
              .toClient (location (destination redirectUri (uuids.text s.draws) originalState)) (uuids.text s.draws)
                { email, codeChallenge, redirectUri, issuedAt := clock.issuing }) := by
  rw [callback, if_neg (not_not.mpr error), if_neg given, parts]
  rfl

/-- The body of a request: JSON, a form, or what is not read as either. -/
inductive Body where
  | json (value : Json)
  | form (fields : Dict Value)
  | unreadable

/-- `body.get(name, "")`, which raises for what is no dict. -/
def Body.get (body : Body) (name : String) : Option Value :=
  match body with
  | .json (.obj entries) => some (.json (((entries.find? (·.1 = name)).map (·.2)).getD (.str "")))
  | .form fields => some (fields[name]?.getD (.json (.str "")))
  | _ => none

def Exchanged.outcome : Exchanged → Outcome
  | .raised => .raised
  | .refused => .refused 400
    "Invalid, expired, or already-used authorization code, PKCE mismatch, or redirect_uri mismatch"
  | .issued token claims => .issued token claims

/-- `token`. -/
def token (lib : Library) (s : State) (body : Body) (clock : Moments) : State × Outcome :=
  match body.get "grant_type", body.get "code", body.get "code_verifier", body.get "redirect_uri" with
  | some grantType, some code, some codeVerifier, some redirectUri =>
    if grantType.text? ≠ some "authorization_code" then (s, .refused 400 "grant_type must be authorization_code")
    else if !code.truthy then (s, .refused 400 "code is required")
    else if !codeVerifier.truthy then (s, .refused 400 "code_verifier is required")
    else if !redirectUri.truthy then (s, .refused 400 "redirect_uri is required")
    else
      let (codeStore, exchanged) := exchangeCodeForToken lib s.config clock s.codeStore code codeVerifier redirectUri
      ({ s with codeStore := codeStore }, exchanged.outcome)
  | _, _, _, _ => (s, .raised)

/-- `_extract_bearer_token`. -/
def extractBearerToken (authorization : Option String) : Option String :=
  let header := (authorization.getD "").toList
  if "Bearer ".toList.isPrefixOf header then some (.ofList (header.drop 7)) else none

/-- `_matches_static_api_key`. -/
def matchesStaticApiKey (config : Config) (token : String) : Bool := config.gatewayApiKey = some token

/-- `_require_valid_token`, on which every proxied request depends. -/
def requireValidToken (lib : Library) (config : Config) (authorization : Option String) (now : ℚ) : Outcome :=
  match extractBearerToken authorization with
  | none => .refused 401 "Missing Bearer token"
  | some token =>
    if matchesStaticApiKey config token then .passedKey
    else match validateToken lib config now token with
      | none => .refused 401 "Invalid or expired token"
      | some claims =>
        if !isUserAllowed lib config claims.sub then .refused 401 "User is no longer authorized" else .passed claims

/-- What happens to the gateway. A new configuration is read when the process starts again. -/
inductive Label where
  | authorize (query : AuthorizeQuery)
  | callback (query : CallbackQuery) (google : String → GoogleAnswer) (clock : Moments)
  | token (body : Body) (clock : Moments)
  | proxied (authorization : Option String) (now : ℚ)
  | restart (config : Config)

/-- The last reading of the clock that a request takes. -/
def Label.last (time : ℚ) : Label → ℚ
  | .callback _ _ clock | .token _ clock => clock.issuing
  | .proxied _ now => now
  | .authorize _ | .restart _ => time

def handle (lib : Library) (uuids : Uuids) (s : State) : Label → State × Outcome
  | .authorize query =>
    let outcome := authorize lib s.config query (uuids.text s.draws)
    (if outcome.isRefusal then s else { s with draws := s.draws + 1 }, outcome)
  | .callback query google clock => callback lib uuids s query google clock
  | .token body clock => token lib s body clock
  | .proxied authorization now => (s, requireValidToken lib s.config authorization now)
  | .restart config => ({ s with config := config, codeStore := {} }, .restarted)

def step (lib : Library) (uuids : Uuids) (s : State) (label : Label) : Option (State × Outcome) :=
  let (t, outcome) := handle lib uuids s label
  some ({ t with time := label.last s.time }, outcome)

/-- The readings of one request are in order, and none is before the given time. -/
structure Moments.Ordered (clock : Moments) (time : ℚ) : Prop where
  pruned : ∀ code, time ≤ clock.pruning code ∧ clock.pruning code ≤ clock.checking
  checked : clock.checking ≤ clock.issuing

/-- The clock does not go back. -/
def Label.Ordered (time : ℚ) : Label → Prop
  | .callback _ _ clock | .token _ clock => clock.Ordered time
  | .proxied _ now => time ≤ now
  | .authorize _ | .restart _ => True

/-- A token that verifies is one that the gateway has issued. -/
def Unforged (lib : Library) (history : List (Label × Outcome)) (s : State) : Label → Prop
  | .proxied authorization now => ∀ token claims, extractBearerToken authorization = some token →
      validateToken lib s.config now token = some claims → ∃ label, (label, .issued token claims) ∈ history
  | _ => True

/-- The runs of the gateway: the clock does not go back, and nobody else can sign. -/
def Honest (lib : Library) (history : List (Label × Outcome)) (s : State) (label : Label) : Prop :=
  label.Ordered s.time ∧ Unforged lib history s label

/-- What the requests read is in order from a time on. -/
def InOrder (time : ℚ) : List Label → Prop
  | [] => True
  | label :: labels => label.Ordered time ∧ InOrder (label.last time) labels

/-- The claims of the one token that the sample library issues. -/
def sampleClaims : Claims where
  sub := "alice@example.com"
  aud := "https://gateway.example"
  iat := 20
  exp := 5184020

def sampleDecode (_ _ : String) (now : ℚ) (token : String) : Option Claims :=
  if token = "token" ∧ now < sampleClaims.exp then some sampleClaims else none

theorem sampleDecode_unexpired {key audience : String} {now : ℚ} {token : String} {claims : Claims}
    (decoded : sampleDecode key audience now token = some claims) : now < claims.exp := by
  rw [sampleDecode] at decoded
  split at decoded
  · rename_i valid
    cases decoded
    exact valid.2
  · cases decoded

def sampleLibrary : Library where
  lower text := text
  upper text := text
  hostname _ := some "client.example"
  s256 text := "S256(" ++ text ++ ")"
  encode _ _ := "token"
  decode := sampleDecode
  decode_unexpired := sampleDecode_unexpired

def sampleStem : List Char := "16fd2706-8baf-433b-82da-8c7fada847da".toList

def sampleUuid (n : Nat) : String := .ofList (sampleStem ++ List.replicate n '0')

theorem sampleUuid_distinct {m n : Nat} (same : sampleUuid m = sampleUuid n) : m = n := by
  have lists := List.append_cancel_left (String.ofList_injective same)
  simpa using congrArg List.length lists

theorem sampleUuid_spelled (n : Nat) (c : Char) (member : c ∈ (sampleUuid n).toList) :
    UrlCoding.unreserved c = true := by
  rw [sampleUuid, String.toList_ofList] at member
  rcases List.mem_append.mp member with base | zero
  · have all : sampleStem.all UrlCoding.unreserved = true := by decide +kernel
    exact List.all_eq_true.mp all c base
  · rw [List.eq_of_mem_replicate zero]
    decide

def sampleUuids : Uuids where
  text := sampleUuid
  distinct := sampleUuid_distinct
  spelled := sampleUuid_spelled

theorem sampleClient_fits : FitsQuery "id" := by
  constructor <;> decide

theorem sampleUrl_fits : FitsQuery "https://gateway.example" := by
  constructor <;> decide +kernel

def sampleConfig : Config where
  clientId_fits := sampleClient_fits
  baseUrl_fits := sampleUrl_fits
  googleOauthClientId := "id"
  gwJwtSigningKey := "key"
  gatewayApiKey := none
  testUsers := ["alice@example.com"]
  publicBaseUrl := "https://gateway.example"

end MetadataGraph.Gateway
