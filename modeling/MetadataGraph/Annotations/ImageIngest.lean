import Mathlib.Data.List.Basic
import Mathlib.Data.Nat.Notation
import Mathlib.Order.Basic

namespace MetadataGraph.ImageIngest

def maxFetchRedirects : ℕ := 10

def defaultMaxSourceImageBytes : ℕ := 20 * 1024 * 1024

/-- The errors that a fetch raises on purpose. -/
inductive ImageIngestError
  | sourceImageTooLarge (message : String)
  | imageFetchError (message : String)
  deriving DecidableEq

abbrev Bytes := List UInt8

/-- What the client looks at in a response: `raise_for_status` raises with the given text unless the
status is one of success, and reading the body raises after the chunks if a text is given. -/
structure FetchResponse where
  statusCode : ℕ
  location : Option String := none
  statusError : String := ""
  chunks : List Bytes := []
  broken : Option String := none

def FetchResponse.isRedirect (r : FetchResponse) : Bool := 300 ≤ r.statusCode && r.statusCode ≤ 399

def FetchResponse.isSuccess (r : FetchResponse) : Bool := 200 ≤ r.statusCode && r.statusCode ≤ 299

/-- What the client raises instead of a response: an `HTTPError`, or `InvalidURL`, which is none. -/
inductive ClientError
  | httpError (text : String)
  | invalidUrl (text : String)
  deriving DecidableEq

/-- What a fetch meets: the scheme that `urlparse` reads, if it reads any, the rest of `is_safe_url` at
each check, the answers of the client, and `urljoin`, which may raise. -/
structure Web where
  scheme : String → Except String String
  hostSafe : ℕ → String → Bool
  stream : ℕ → String → Except ClientError FetchResponse
  urljoin : String → String → Except String String

def Web.isSafeUrl (web : Web) (check : ℕ) (url : String) : Bool :=
  match web.scheme url with
  | .ok scheme => scheme ∈ ["http", "https"] && web.hostSafe check url
  | .error _ => false

/-- How a fetch ends: with bytes, with an error of its own, or with an error of another kind. -/
inductive Fetched
  | bytes (data : Bytes)
  | raised (error : ImageIngestError)
  | escaped (text : String)
  deriving DecidableEq

/-- A fetch: the requests that it sends, the bytes that it keeps of a body whenever a chunk comes in, and
its end. -/
structure Fetch where
  requests : List String := []
  held : List ℕ := []
  ended : Fetched
  deriving DecidableEq

/-- After the last chunk. -/
def endOfBody (broken : Option String) (data : Bytes) : Fetched :=
  match broken with
  | some text => .raised (.imageFetchError ("failed to fetch image_url: " ++ text))
  | none => if data = [] then .raised (.imageFetchError "image_url returned an empty body") else .bytes data

/-- The loop over the chunks. -/
def readChunks (maxBytes : ℕ) (broken : Option String) : List Bytes → List Bytes → List ℕ × Fetched
  | kept, [] => ([], endOfBody broken kept.flatten)
  | kept, chunk :: chunks =>
    if kept.flatten.length + chunk.length > maxBytes then
      ([kept.flatten.length], .raised (.sourceImageTooLarge
        ("downloaded image exceeds " ++ toString maxBytes ++ " bytes before optimization")))
    else
      let rest := readChunks maxBytes broken (kept ++ [chunk]) chunks
      (kept.flatten.length :: rest.1, rest.2)

/-- The loop over the hops that are left. -/
def fetchHops (web : Web) (maxBytes : ℕ) : ℕ → ℕ → String → Fetch
  | 0, _, _ => { ended := .raised (.imageFetchError ("image_url exceeded " ++ toString maxFetchRedirects ++ " redirects")) }
  | left + 1, hop, currentUrl =>
    match web.stream hop currentUrl with
    | .error (.httpError text) =>
      { requests := [currentUrl], ended := .raised (.imageFetchError ("failed to fetch image_url: " ++ text)) }
    | .error (.invalidUrl text) => { ended := .escaped text }
    | .ok response =>
      if response.isRedirect then
        match web.urljoin currentUrl (response.location.getD "") with
        | .error text => { requests := [currentUrl], ended := .escaped text }
        | .ok nextUrl =>
          if web.isSafeUrl (hop + 1) nextUrl then
            let rest := fetchHops web maxBytes left (hop + 1) nextUrl
            { rest with requests := currentUrl :: rest.requests }
          else
            { requests := [currentUrl]
              ended := .raised (.imageFetchError ("image_url redirected to a disallowed address: " ++ nextUrl)) }
      else if response.isSuccess then
        let body := readChunks maxBytes response.broken [] response.chunks
        { requests := [currentUrl], held := body.1, ended := body.2 }
      else
        { requests := [currentUrl]
          ended := .raised (.imageFetchError ("failed to fetch image_url: " ++ response.statusError)) }

def fetchImageBytes (web : Web) (url : String) (maxBytes : ℕ) : Fetch :=
  if ¬ ("http://".isPrefixOf url || "https://".isPrefixOf url) then
    { ended := .raised (.imageFetchError "image_url must be an http(s) URL") }
  else if ¬ web.isSafeUrl 0 url then
    { ended := .raised (.imageFetchError ("image_url resolves to a disallowed address: " ++ url)) }
  else fetchHops web maxBytes maxFetchRedirects 0 url

/-! ### What a fetch keeps to -/

/-- The bytes are the whole body of a success. -/
def IsBody (web : Web) (maxBytes : ℕ) (hop : ℕ) (url : String) (data : Bytes) : Prop :=
  ∃ response, web.stream hop url = .ok response ∧ response.isRedirect = false ∧ response.isSuccess = true ∧
    response.broken = none ∧ data = response.chunks.flatten ∧ data.length ≤ maxBytes

/-- What a fetch keeps to from a hop on, however it ends. -/
structure Confined (web : Web) (maxBytes left hop : ℕ) (f : Fetch) : Prop where
  few : f.requests.length ≤ left
  safe : ∀ (i : ℕ) (url : String), f.requests[i]? = some url → web.isSafeUrl (hop + i) url = true
  bounded : ∀ n ∈ f.held, n ≤ maxBytes
  body : ∀ data, f.ended = .bytes data → ∃ url i, f.requests.length = i + 1 ∧ f.requests[i]? = some url ∧
    IsBody web maxBytes (hop + i) url data

/-- `urljoin` reads each location that a fetch is sent to, and the client each URL. -/
def Readable (web : Web) : ℕ → ℕ → String → Prop
  | 0, _, _ => True
  | left + 1, hop, currentUrl =>
    match web.stream hop currentUrl with
    | .error error => ∀ text, error ≠ .invalidUrl text
    | .ok response => response.isRedirect = true →
      match web.urljoin currentUrl (response.location.getD "") with
      | .error _ => False
      | .ok nextUrl => web.isSafeUrl (hop + 1) nextUrl = true → Readable web left (hop + 1) nextUrl

variable {web : Web} {maxBytes left hop : ℕ} {url : String}

theorem readChunks_spec {broken : Option String} {kept chunks : List Bytes} (within : kept.flatten.length ≤ maxBytes) :
    (∀ n ∈ (readChunks maxBytes broken kept chunks).1, n ≤ maxBytes) ∧
      (∀ text, (readChunks maxBytes broken kept chunks).2 ≠ .escaped text) ∧
      ∀ data, (readChunks maxBytes broken kept chunks).2 = .bytes data →
        broken = none ∧ data = (kept ++ chunks).flatten ∧ data.length ≤ maxBytes := by
  induction chunks generalizing kept with
  | nil =>
    rw [readChunks, List.append_nil]
    cases broken with
    | some text => exact ⟨fun n no => (by cases no), fun text no => (by cases no), fun data no => (by cases no)⟩
    | none =>
      rw [endOfBody]
      split
      · exact ⟨fun n no => (by cases no), fun text no => (by cases no), fun data no => (by cases no)⟩
      · refine ⟨fun n no => (by cases no), fun text no => (by cases no), fun data got => ?_⟩
        cases got
        exact ⟨rfl, rfl, within⟩
  | cons chunk chunks ih =>
    rw [readChunks]
    split
    · refine ⟨fun n member => ?_, fun text no => (by cases no), fun data no => (by cases no)⟩
      rw [List.mem_singleton.mp member]
      exact within
    · rename_i fits
      have longer : (kept ++ [chunk]).flatten.length ≤ maxBytes := by
        rw [List.flatten_append, List.flatten_singleton, List.length_append]
        exact Nat.le_of_not_lt fits
      obtain ⟨bounded, own, body⟩ := ih longer
      refine ⟨List.forall_mem_cons.mpr ⟨within, bounded⟩, own, fun data got => ?_⟩
      obtain ⟨whole, same, short⟩ := body data got
      exact ⟨whole, by rw [same, List.append_assoc]; rfl, short⟩

/-- A fetch that sends no more than one request and gives no bytes. -/
theorem Confined.single {f : Fetch} (safe : web.isSafeUrl hop url = true) (requests : f.requests = [url] ∨ f.requests = [])
    (held : f.held = []) (none : ∀ data, f.ended ≠ .bytes data) : Confined web maxBytes (left + 1) hop f := by
  constructor
  · rcases requests with one | no
    · rw [one]
      exact Nat.succ_le_succ (Nat.zero_le left)
    · rw [no]
      exact Nat.zero_le _
  · intro i u there
    rcases requests with one | no
    · rw [one] at there
      cases i with
      | zero =>
        cases there
        exact safe
      | succ i => cases there
    · rw [no] at there
      cases there
  · rw [held]
    exact fun n no => by cases no
  · exact fun data got => absurd got (none data)

theorem fetchHops_confined (safe : web.isSafeUrl hop url = true) :
    Confined web maxBytes left hop (fetchHops web maxBytes left hop url) := by
  induction left generalizing hop url with
  | zero =>
    exact ⟨Nat.le_refl 0, fun i u no => (by cases no), fun n no => (by cases no), fun data no => (by cases no)⟩
  | succ left ih =>
    rw [fetchHops]
    split
    · exact .single safe (.inl rfl) rfl fun data no => by cases no
    · exact .single safe (.inr rfl) rfl fun data no => by cases no
    · rename_i response answered
      split
      · split
        · exact .single safe (.inl rfl) rfl fun data no => by cases no
        · rename_i nextUrl joined
          split
          · rename_i next
            obtain ⟨few, later, bounded, body⟩ := ih next
            refine ⟨Nat.succ_le_succ few, fun i u there => ?_, bounded, fun data got => ?_⟩
            · cases i with
              | zero =>
                cases there
                exact safe
              | succ i =>
                have checked := later i u there
                rwa [Nat.add_assoc, Nat.add_comm 1 i] at checked
            · obtain ⟨u, i, length, there, whole⟩ := body data got
              refine ⟨u, i + 1, congrArg (· + 1) length, there, ?_⟩
              rwa [Nat.add_assoc, Nat.add_comm 1 i] at whole
          · exact .single safe (.inl rfl) rfl fun data no => by cases no
      · rename_i stays
        split
        · rename_i success
          obtain ⟨bounded, -, body⟩ := @readChunks_spec maxBytes response.broken [] response.chunks (Nat.zero_le _)
          refine ⟨Nat.succ_le_succ (Nat.zero_le left), fun i u there => ?_, bounded, fun data got => ?_⟩
          · cases i with
            | zero =>
              cases there
              exact safe
            | succ i => cases there
          · obtain ⟨whole, same, short⟩ := body data got
            exact ⟨url, 0, rfl, rfl, response, answered, Bool.eq_false_iff.mpr stays, success, whole, same, short⟩
        · exact .single safe (.inl rfl) rfl fun data no => by cases no

/-- Nothing but an error of its own leaves a fetch precisely where all that it is sent to can be read. -/
theorem fetchHops_escaped_iff : (∀ text, (fetchHops web maxBytes left hop url).ended ≠ .escaped text) ↔ Readable web left hop url := by
  induction left generalizing hop url with
  | zero => exact iff_of_true (fun text no => by cases no) trivial
  | succ left ih =>
    rw [fetchHops, Readable]
    cases web.stream hop url with
    | error error =>
      cases error with
      | httpError text => exact iff_of_true (fun text no => by cases no) fun text no => by cases no
      | invalidUrl text => exact iff_of_false (fun own => own text rfl) fun own => own text rfl
    | ok response =>
      dsimp only
      cases redirect : response.isRedirect with
      | true =>
        rw [if_pos rfl, forall_prop_of_true rfl]
        cases web.urljoin url (response.location.getD "") with
        | error text => exact iff_of_false (fun own => own text rfl) id
        | ok nextUrl =>
          dsimp only
          cases safe : web.isSafeUrl (hop + 1) nextUrl with
          | true =>
            rw [if_pos rfl, forall_prop_of_true rfl]
            exact ih
          | false =>
            rw [if_neg Bool.false_ne_true]
            exact iff_of_true (fun text no => by cases no) fun no => absurd no Bool.false_ne_true
      | false =>
        rw [if_neg Bool.false_ne_true]
        refine iff_of_true ?_ fun no => absurd no Bool.false_ne_true
        cases response.isSuccess with
        | true => exact (@readChunks_spec maxBytes response.broken [] response.chunks (Nat.zero_le _)).2.1
        | false => exact fun text no => by cases no

theorem scheme_of_isSafeUrl {check : ℕ} (safe : web.isSafeUrl check url = true) :
    web.scheme url = .ok "http" ∨ web.scheme url = .ok "https" := by
  rw [Web.isSafeUrl] at safe
  split at safe
  · rename_i scheme read
    rw [Bool.and_eq_true, decide_eq_true_eq] at safe
    rcases List.mem_pair.mp safe.1 with rfl | rfl
    · exact .inl read
    · exact .inr read
  · cases safe

/-- A URL that a fetch begins with. -/
def Begins (web : Web) (url : String) : Prop :=
  ("http://".isPrefixOf url || "https://".isPrefixOf url) = true ∧ web.isSafeUrl 0 url = true

/-- A site that answers with a redirect to a location that `urljoin` does not read. -/
def brokenRedirect : Web where
  scheme _ := .ok "https"
  hostSafe _ _ := true
  stream _ _ := .ok { statusCode := 302, location := some "http://[" }
  urljoin _ location := if location = "http://[" then .error "Invalid IPv6 URL" else .ok location

end MetadataGraph.ImageIngest
