import MetadataGraph.Lib.UrlCoding
import MetadataGraph.Session.Json

namespace MetadataGraph.Gateway

open UrlCoding

/-- A text that can stand in a query as it is. -/
def FitsQuery (text : String) : Prop := '&' ∉ text.toList ∧ '#' ∉ text.toList

/-- The part of the configuration that the flow reads. The client id and the base URL are put
into a query as they are. -/
structure Config where
  googleOauthClientId : String
  gwJwtSigningKey : String
  gatewayApiKey : Option String
  testUsers : List String
  publicBaseUrl : String
  allowedRedirectOrigins : List String := []
  clientId_fits : FitsQuery googleOauthClientId
  baseUrl_fits : FitsQuery publicBaseUrl

def googleAuthUrl : List Char := "https://accounts.google.com/o/oauth2/v2/auth".toList

def authCodeTtlSeconds : ℚ := 300

def accessTokenTtlSeconds : Int := 60 * 24 * 3600

/-- The claims of an access token. -/
structure Claims where
  sub : String
  aud : String
  iat : Int
  exp : Int
  deriving DecidableEq

/-- What the gateway uses of the libraries: `lower` and `upper`, `urlparse(uri).hostname or ""`
where that does not raise, the S256 challenge of an ASCII text, and the encoding and the decoding
of a token under a key. A token that has expired is not decoded. -/
structure Library where
  lower : String → String
  upper : String → String
  hostname : String → Option String
  s256 : String → String
  encode : String → Claims → String
  decode : String → String → ℚ → String → Option Claims
  decode_unexpired : ∀ {key audience now token claims}, decode key audience now token = some claims → now < claims.exp

/-- The texts of `uuid4`, which never repeats one. -/
structure Uuids where
  text : Nat → String
  distinct : ∀ {m n}, text m = text n → m = n
  spelled : ∀ n, ∀ c ∈ (text n).toList, unreserved c = true

/-- A value of a request: what stands in a JSON body, or the file of a form. -/
inductive Value where
  | json (value : Json)
  | file

namespace Value

def text? : Value → Option String
  | .json value => value.string?
  | .file => none

def truthy : Value → Bool
  | .json value => value.truthy
  | .file => true

def hashable : Value → Bool
  | .json value => value.hashable
  | .file => true

end Value

structure AuthCode where
  email : String
  codeChallenge : String
  redirectUri : String
  issuedAt : ℚ
  used : Bool := false

def AuthCode.isExpired (entry : AuthCode) (now : ℚ) : Bool := authCodeTtlSeconds < now - entry.issuedAt

/-- The readings of the clock while one request is handled: at each code that is looked through
for pruning, at the code in question, and when something is issued. -/
structure Moments where
  pruning : String → ℚ
  checking : ℚ
  issuing : ℚ

/-- `_prune_expired_codes`. -/
def pruneExpiredCodes (pruning : String → ℚ) (store : Dict AuthCode) : Dict AuthCode :=
  store.filter fun code entry => !entry.isExpired (pruning code)

/-- `compute_s256_challenge`, which raises for what is no text or not ASCII. -/
def computeS256Challenge (lib : Library) (verifier : Value) : Option String :=
  verifier.text?.bind fun text => if text.toList.all (·.toNat < 0x80) then some (lib.s256 text) else none

/-- `params`. -/
def authParams (config : Config) (state nonce : List Char) : List (List Char × List Char) := [
  ("client_id".toList, config.googleOauthClientId.toList),
  ("redirect_uri".toList, (config.publicBaseUrl ++ "/callback").toList),
  ("response_type".toList, "code".toList),
  ("scope".toList, "openid email profile".toList),
  ("state".toList, state),
  ("nonce".toList, nonce),
  ("access_type".toList, "online".toList),
  ("prompt".toList, "select_account".toList)]

/-- `build_google_auth_url`. -/
def buildGoogleAuthUrl (config : Config) (state nonce : List Char) : List Char :=
  googleAuthUrl ++ '?' :: ['&'].intercalate ((authParams config state nonce).map fun param => param.1 ++ '=' :: param.2)

/-- What Google's token endpoint makes of a code: an exception on the way, nothing that can be
verified, or the claims of a verified ID token. -/
inductive GoogleAnswer where
  | raised
  | failed
  | verified (claims : Dict Json)

inductive Identity where
  | raised
  | refused
  | email (address : String)

/-- `exchange_google_code`, from the answer on. -/
def exchangeGoogleCode (lib : Library) (answer : GoogleAnswer) (expectedNonce : String) : Identity :=
  match answer with
  | .raised => .raised
  | .failed => .refused
  | .verified claims =>
    if claims.get "nonce" ≠ .str expectedNonce then .refused
    else if !(claims.get "email").truthy then .refused
    else if !(claims.get "email_verified").truthy then .refused
    else match (claims.get "email").string? with
      | some email => .email (lib.lower email)
      | none => .raised

def isUserAllowed (lib : Library) (config : Config) (email : String) : Bool := config.testUsers.contains (lib.lower email)

/-- `issue_auth_code` under the text that `uuid4` gave. -/
def issueAuthCode (clock : Moments) (store : Dict AuthCode) (code email codeChallenge redirectUri : String) :
    Dict AuthCode × AuthCode :=
  let entry : AuthCode := { email, codeChallenge, redirectUri, issuedAt := clock.issuing }
  ((pruneExpiredCodes clock.pruning store).insert code entry, entry)

/-- `int(seconds)`. -/
def int (seconds : ℚ) : Int := seconds.num.tdiv seconds.den

inductive Exchanged where
  | raised
  | refused
  | issued (token : String) (claims : Claims)

/-- `exchange_code_for_token`. -/
def exchangeCodeForToken (lib : Library) (config : Config) (clock : Moments) (store : Dict AuthCode)
    (code codeVerifier redirectUri : Value) : Dict AuthCode × Exchanged :=
  let pruned := pruneExpiredCodes clock.pruning store
  if !code.hashable then (pruned, .raised)
  else match code.text? with
    | none => (pruned, .refused)
    | some code => match pruned[code]? with
      | none => (pruned, .refused)
      | some entry =>
        if entry.used then (pruned, .refused)
        else if entry.isExpired clock.checking then (pruned.erase code, .refused)
        else match computeS256Challenge lib codeVerifier with
          | none => (pruned, .raised)
          | some computed =>
            if computed ≠ entry.codeChallenge then (pruned, .refused)
            else if redirectUri.text? ≠ some entry.redirectUri then (pruned, .refused)
            else
              let now := int clock.issuing
              let claims : Claims :=
                { sub := entry.email, aud := config.publicBaseUrl, iat := now, exp := now + accessTokenTtlSeconds }
              (pruned.insert code { entry with used := true }, .issued (lib.encode config.gwJwtSigningKey claims) claims)

/-- `validate_token`. -/
def validateToken (lib : Library) (config : Config) (now : ℚ) (token : String) : Option Claims :=
  lib.decode config.gwJwtSigningKey config.publicBaseUrl now token

end MetadataGraph.Gateway
