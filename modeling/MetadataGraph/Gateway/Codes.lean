import MetadataGraph.Gateway.Main
import Mathlib.Tactic.Linarith

namespace MetadataGraph.Gateway

open Runs

/-- A callback redirects to a client with a code. -/
def Grants (x : Label × Outcome) (code : String) (entry : AuthCode) : Prop :=
  ∃ query google clock location, x = (.callback query google clock, .toClient location code entry)

/-- A token is issued for a code. -/
def Redeems (x : Label × Outcome) (code : String) : Prop :=
  ∃ body clock token claims, x = (.token body clock, .issued token claims) ∧
    body.get "code" = some (.json (.str code))

/-- The request for a token meets what is stored under its code. -/
structure Meets (lib : Library) (body : Body) (clock : Moments) (code : String) (entry : AuthCode) : Prop where
  code : body.get "code" = some (.json (.str code))
  verifier : ∃ verifier, body.get "code_verifier" = some (.json (.str verifier)) ∧
    lib.s256 verifier = entry.codeChallenge
  redirectUri : body.get "redirect_uri" = some (.json (.str entry.redirectUri))
  alive : clock.checking - entry.issuedAt ≤ authCodeTtlSeconds

/-- The configuration after a history: the one that was read last. -/
def configAfter (config : Config) (history : List (Label × Outcome)) : Config :=
  history.foldl (fun config x => match x.1 with
    | .restart next => next
    | _ => config) config

/-- A token rests on a code that a callback issued for a user that was allowed then. -/
def Entitled (lib : Library) (config : Config) (before : List (Label × Outcome)) (body : Body) (clock : Moments)
    (claims : Claims) : Prop :=
  ∃ earlier x later code entry, before = earlier ++ x :: later ∧ Grants x code entry ∧
    isUserAllowed lib (configAfter config earlier) entry.email = true ∧ Meets lib body clock code entry ∧
    claims.sub = entry.email

/-- A proxied request is refused, or comes with the static key or with a token that was issued, has
not expired and belongs to a user that is allowed now. -/
def Admitted (lib : Library) (config : Config) (before : List (Label × Outcome)) (authorization : Option String)
    (now : ℚ) (outcome : Outcome) : Prop :=
  outcome.isRefusal = true ∨
    (∃ key, (configAfter config before).gatewayApiKey = some key ∧ extractBearerToken authorization = some key) ∨
    ∃ token label claims, extractBearerToken authorization = some token ∧ (label, .issued token claims) ∈ before ∧
      now < claims.exp ∧ isUserAllowed lib (configAfter config before) claims.sub = true

/-- What the history of a gateway is supposed to look like. -/
structure FlowSound (lib : Library) (config : Config) (history : List (Label × Outcome)) : Prop where
  granted : ∀ before body clock token claims after,
    history = before ++ (.token body clock, .issued token claims) :: after → Entitled lib config before body clock claims
  distinct : history.Pairwise fun x y => ∀ code entry other, Grants x code entry → ¬ Grants y code other
  once : history.Pairwise fun x y => ∀ code, Redeems x code → ¬ Redeems y code
  guarded : ∀ before authorization now outcome after,
    history = before ++ (.proxied authorization now, outcome) :: after →
      Admitted lib config before authorization now outcome

/-- A request that is refused in a state changes no answer to any later request. -/
def RefusalsInert (lib : Library) (uuids : Uuids) (s : State) : Prop :=
  ∀ label t outcome, label.Ordered s.time → step lib uuids s label = some (t, outcome) → outcome.isRefusal = true →
    ∀ labels, InOrder t.time labels →
      (behaviour (step lib uuids) t labels).map Prod.fst = (behaviour (step lib uuids) s labels).map Prod.fst

variable {lib : Library} {uuids : Uuids} {config : Config} {s t : State}

theorem AuthCode.isExpired_mono {entry : AuthCode} {now later : ℚ} (order : now ≤ later)
    (expired : entry.isExpired now = true) : entry.isExpired later = true := by
  rw [AuthCode.isExpired, decide_eq_true_iff] at expired ⊢
  linarith

theorem getElem?_pruneExpiredCodes {pruning : String → ℚ} {store : Dict AuthCode} {code : String} {entry : AuthCode} :
    (pruneExpiredCodes pruning store)[code]? = some entry ↔
      store[code]? = some entry ∧ entry.isExpired (pruning code) = false := by
  rw [pruneExpiredCodes, Std.ExtTreeMap.getElem?_filter']
  cases store[code]? with
  | none => simp
  | some found =>
    simp only [Option.filter_some]
    split
    · rename_i fresh
      simp only [Option.some.injEq]
      constructor
      · rintro rfl
        exact ⟨rfl, by simpa using fresh⟩
      · exact And.left
    · rename_i stale
      refine iff_of_false (fun no => by cases no) ?_
      rintro ⟨same, fresh⟩
      cases same
      exact stale (by simpa using fresh)

theorem computeS256Challenge_eq_some {verifier : Value} {challenge : String}
    (computed : computeS256Challenge lib verifier = some challenge) :
    ∃ text, verifier = .json (.str text) ∧ lib.s256 text = challenge := by
  obtain ⟨text, read, ascii⟩ := Option.bind_eq_some_iff.mp computed
  split at ascii
  · cases verifier with
    | json value =>
      rw [Value.text?, Json.string?_eq_some] at read
      exact ⟨text, by rw [read], Option.some.inj ascii⟩
    | file => cases read
  · cases ascii

theorem Value.text?_eq_some {value : Value} {text : String} : value.text? = some text ↔ value = .json (.str text) := by
  cases value with
  | json value => rw [text?, Json.string?_eq_some, Value.json.injEq]
  | file => exact iff_of_false (fun no => by cases no) (fun no => by cases no)

/-- What is left of the codes when one of them is not exchanged. -/
def Unexchanged (clock : Moments) (store left : Dict AuthCode) : Prop :=
  left = pruneExpiredCodes clock.pruning store ∨ ∃ key entry, (pruneExpiredCodes clock.pruning store)[key]? = some entry ∧
    entry.isExpired clock.checking = true ∧ left = (pruneExpiredCodes clock.pruning store).erase key

/-- A code is exchanged for a token only if the request meets everything, and is used from then on. -/
theorem exchangeCodeForToken_cases (lib : Library) (config : Config) (clock : Moments) (store : Dict AuthCode)
    (code codeVerifier redirectUri : Value) :
    (∃ left result, exchangeCodeForToken lib config clock store code codeVerifier redirectUri = (left, result) ∧
      (result = .raised ∨ result = .refused) ∧ Unexchanged clock store left) ∨
    ∃ key entry token claims, (pruneExpiredCodes clock.pruning store)[key]? = some entry ∧ entry.used = false ∧
      entry.isExpired clock.checking = false ∧ code = .json (.str key) ∧
      (∃ text, codeVerifier = .json (.str text) ∧ lib.s256 text = entry.codeChallenge) ∧
      redirectUri = .json (.str entry.redirectUri) ∧ claims.sub = entry.email ∧
      exchangeCodeForToken lib config clock store code codeVerifier redirectUri =
        ((pruneExpiredCodes clock.pruning store).insert key { entry with used := true }, .issued token claims) := by
  rw [exchangeCodeForToken]
  dsimp only
  split
  · exact .inl ⟨_, _, rfl, .inl rfl, .inl rfl⟩
  split
  · exact .inl ⟨_, _, rfl, .inr rfl, .inl rfl⟩
  rename_i key text
  split
  · exact .inl ⟨_, _, rfl, .inr rfl, .inl rfl⟩
  rename_i entry found
  split
  · exact .inl ⟨_, _, rfl, .inr rfl, .inl rfl⟩
  rename_i unused
  split
  · rename_i expired
    exact .inl ⟨_, _, rfl, .inr rfl, .inr ⟨key, entry, found, expired, rfl⟩⟩
  rename_i alive
  split
  · exact .inl ⟨_, _, rfl, .inl rfl, .inl rfl⟩
  rename_i computed hashed
  split
  · exact .inl ⟨_, _, rfl, .inr rfl, .inl rfl⟩
  rename_i same
  split
  · exact .inl ⟨_, _, rfl, .inr rfl, .inl rfl⟩
  rename_i target
  obtain ⟨verifier, spelled, challenge⟩ := computeS256Challenge_eq_some hashed
  exact .inr ⟨key, entry, _, _, found, by simpa using unused, by simpa using alive, Value.text?_eq_some.mp text,
    ⟨verifier, spelled, challenge.trans (not_not.mp same)⟩, Value.text?_eq_some.mp (not_not.mp target), rfl, rfl⟩

/-- A token is exchanged in the same way whatever codes have expired. -/
theorem exchangeCodeForToken_congr {clock : Moments} {store other : Dict AuthCode}
    (same : pruneExpiredCodes clock.pruning store = pruneExpiredCodes clock.pruning other)
    (code codeVerifier redirectUri : Value) : exchangeCodeForToken lib config clock store code codeVerifier redirectUri =
      exchangeCodeForToken lib config clock other code codeVerifier redirectUri := by
  rw [exchangeCodeForToken, exchangeCodeForToken, same]

/-- A callback is refused and changes nothing, or stores a code for a user that is allowed. What
it does depends on the configuration and on the next text of `uuid4` alone. -/
theorem callback_cases (lib : Library) (uuids : Uuids) (config : Config) (draws : Nat) (query : CallbackQuery)
    (google : String → GoogleAnswer) (clock : Moments) :
    (∃ outcome, outcome.isRefusal = true ∧ ∀ s, s.config = config → s.draws = draws →
      callback lib uuids s query google clock = (s, outcome)) ∨
    ∃ location entry, isUserAllowed lib config entry.email = true ∧ entry.used = false ∧
      ∀ s, s.config = config → s.draws = draws → callback lib uuids s query google clock =
        ({ s with codeStore := (pruneExpiredCodes clock.pruning s.codeStore).insert (uuids.text draws) entry
                  draws := draws + 1 }, .toClient location (uuids.text draws) entry) := by
  by_cases error : query.error ≠ ""
  · exact .inl ⟨_, rfl, fun s _ _ => by rw [callback, if_pos error]⟩
  by_cases missing : query.code = "" ∨ query.state = ""
  · exact .inl ⟨_, rfl, fun s _ _ => by rw [callback, if_neg error, if_pos missing]⟩
  by_cases parts : ∃ originalState codeChallenge redirectUri nonce,
      (query.state.toList.splitOn '|').map (fun part => String.ofList (UrlCoding.unquote part)) =
        [originalState, codeChallenge, redirectUri, nonce]
  case neg =>
    refine .inl ⟨.refused 400 "Invalid state parameter", rfl, fun s _ _ => ?_⟩
    rw [callback, if_neg error, if_neg missing]
    split
    · exact absurd ⟨_, _, _, _, ‹_›⟩ parts
    · rfl
  obtain ⟨originalState, codeChallenge, redirectUri, nonce, parts⟩ := parts
  have reached := fun s => (callback_of_parts (not_not.mp error) missing parts :
    callback lib uuids s query google clock = _)
  cases permitted : redirectUriAllowed lib config redirectUri with
  | none => exact .inl ⟨_, rfl, fun s same _ => by rw [reached, same, permitted]⟩
  | some allowed =>
    cases allowed with
    | false => exact .inl ⟨_, rfl, fun s same _ => by rw [reached, same, permitted]⟩
    | true =>
      cases identity : exchangeGoogleCode lib (google query.code) nonce with
      | raised => exact .inl ⟨_, rfl, fun s same _ => by rw [reached, same, permitted, identity]⟩
      | refused => exact .inl ⟨_, rfl, fun s same _ => by rw [reached, same, permitted, identity]⟩
      | email email =>
        cases member : isUserAllowed lib config email with
        | true =>
          refine .inr ⟨location (destination redirectUri (uuids.text draws) originalState),
            { email, codeChallenge, redirectUri, issuedAt := clock.issuing }, member, rfl, ?_⟩
          rintro s rfl rfl
          rw [reached, permitted, identity]
          dsimp only
          rw [member]
          rfl
        | false =>
          refine .inl ⟨.refused 403 ("User " ++ email ++ " is not authorized to use this service"), rfl, ?_⟩
          intro s same _
          rw [reached, same, permitted, identity]
          dsimp only
          rw [member]
          rfl

/-- A request for a token is turned away before a code is looked up, or asks to exchange a code. -/
theorem token_cases (lib : Library) (body : Body) (clock : Moments) :
    (∃ outcome, outcome.isRefusal = true ∧ ∀ s, token lib s body clock = (s, outcome)) ∨
    ∃ code codeVerifier redirectUri, body.get "code" = some code ∧ body.get "code_verifier" = some codeVerifier ∧
      body.get "redirect_uri" = some redirectUri ∧ ∀ s, token lib s body clock =
        ({ s with codeStore := (exchangeCodeForToken lib s.config clock s.codeStore code codeVerifier redirectUri).1 },
          (exchangeCodeForToken lib s.config clock s.codeStore code codeVerifier redirectUri).2.outcome) := by
  cases atGrant : body.get "grant_type" with
  | none => exact .inl ⟨.raised, rfl, fun s => by rw [token, atGrant]⟩
  | some grantType =>
    cases atCode : body.get "code" with
    | none => exact .inl ⟨.raised, rfl, fun s => by rw [token, atGrant, atCode]⟩
    | some code =>
      cases atVerifier : body.get "code_verifier" with
      | none => exact .inl ⟨.raised, rfl, fun s => by rw [token, atGrant, atCode, atVerifier]⟩
      | some codeVerifier =>
        cases atUri : body.get "redirect_uri" with
        | none => exact .inl ⟨.raised, rfl, fun s => by rw [token, atGrant, atCode, atVerifier, atUri]⟩
        | some redirectUri =>
          by_cases grant : grantType.text? ≠ some "authorization_code"
          · exact .inl ⟨_, rfl, fun s => by rw [token, atGrant, atCode, atVerifier, atUri]; exact if_pos grant⟩
          by_cases noCode : (!code.truthy) = true
          · exact .inl ⟨.refused 400 "code is required", rfl, fun s => by
              rw [token, atGrant, atCode, atVerifier, atUri]; exact (if_neg grant).trans (if_pos noCode)⟩
          by_cases noVerifier : (!codeVerifier.truthy) = true
          · exact .inl ⟨.refused 400 "code_verifier is required", rfl, fun s => by
              rw [token, atGrant, atCode, atVerifier, atUri]
              exact (if_neg grant).trans ((if_neg noCode).trans (if_pos noVerifier))⟩
          by_cases noUri : (!redirectUri.truthy) = true
          · exact .inl ⟨.refused 400 "redirect_uri is required", rfl, fun s => by
              rw [token, atGrant, atCode, atVerifier, atUri]
              exact (if_neg grant).trans ((if_neg noCode).trans ((if_neg noVerifier).trans (if_pos noUri)))⟩
          refine .inr ⟨code, codeVerifier, redirectUri, rfl, rfl, rfl, fun s => ?_⟩
          rw [token, atGrant, atCode, atVerifier, atUri]
          exact (if_neg grant).trans ((if_neg noCode).trans ((if_neg noVerifier).trans (if_neg noUri)))

/-- Two states with the same codes, as far as these have not expired. -/
structure Alike (time : ℚ) (s t : State) : Prop where
  config : s.config = t.config
  draws : s.draws = t.draws
  live : ∀ code : String, ∀ entry : AuthCode, entry.isExpired time = false →
    (s.codeStore[code]? = some entry ↔ t.codeStore[code]? = some entry)

theorem AuthCode.alive_of_later {entry : AuthCode} {now later : ℚ} (order : now ≤ later)
    (alive : entry.isExpired later = false) : entry.isExpired now = false := by
  cases expired : entry.isExpired now with
  | false => rfl
  | true => exact absurd (entry.isExpired_mono order expired) (by rw [alive]; exact Bool.false_ne_true)

theorem Alike.later {time later : ℚ} (alike : Alike time s t) (order : time ≤ later) : Alike later s t where
  config := alike.config
  draws := alike.draws
  live code entry alive := alike.live code entry (entry.alive_of_later order alive)

theorem Moments.Ordered.le_issuing {clock : Moments} {time : ℚ} (ordered : clock.Ordered time) : time ≤ clock.issuing := by
  have first := ordered.pruned ""
  exact (first.1.trans first.2).trans ordered.checked

theorem Alike.pruned {clock : Moments} {time : ℚ} (alike : Alike time s t) (ordered : clock.Ordered time) :
    pruneExpiredCodes clock.pruning s.codeStore = pruneExpiredCodes clock.pruning t.codeStore := by
  refine Std.ExtTreeMap.ext_getElem? fun code => Option.ext fun entry => ?_
  rw [getElem?_pruneExpiredCodes, getElem?_pruneExpiredCodes]
  refine and_congr_left fun alive => alike.live code entry ?_
  exact entry.alive_of_later (ordered.pruned code).1 alive

/-- Alike states answer a request alike, and stay so. -/
theorem Alike.handle {label : Label} {time : ℚ} (alike : Alike time s t) (ordered : label.Ordered time) :
    (handle lib uuids s label).2 = (handle lib uuids t label).2 ∧
      Alike (label.last time) (handle lib uuids s label).1 (handle lib uuids t label).1 := by
  cases label with
  | authorize query =>
    simp only [Gateway.handle, alike.config, alike.draws, true_and]
    split
    · exact alike
    · exact ⟨rfl, rfl, alike.live⟩
  | callback query google clock =>
    simp only [Gateway.handle]
    rcases callback_cases lib uuids s.config s.draws query google clock with
      ⟨outcome, -, refused⟩ | ⟨location, entry, -, -, stored⟩
    · rw [refused s rfl rfl, refused t alike.config.symm alike.draws.symm]
      exact ⟨rfl, alike.later ordered.le_issuing⟩
    · rw [stored s rfl rfl, stored t alike.config.symm alike.draws.symm, alike.pruned ordered]
      exact ⟨rfl, alike.config, rfl, fun _ _ _ => Iff.rfl⟩
  | token body clock =>
    simp only [Gateway.handle]
    rcases token_cases lib body clock with ⟨outcome, -, refused⟩ | ⟨code, verifier, uri, -, -, -, asks⟩
    · rw [refused s, refused t]
      exact ⟨rfl, alike.later ordered.le_issuing⟩
    · rw [asks s, asks t, alike.config, exchangeCodeForToken_congr (alike.pruned ordered)]
      exact ⟨rfl, rfl, alike.draws, fun _ _ _ => Iff.rfl⟩
  | proxied authorization now =>
    simp only [Gateway.handle, alike.config, true_and]
    exact alike.later ordered
  | restart config => exact ⟨rfl, rfl, alike.draws, fun _ _ _ => Iff.rfl⟩

theorem Unexchanged.live {clock : Moments} {time : ℚ} {store left : Dict AuthCode} (unexchanged : Unexchanged clock store left)
    (ordered : clock.Ordered time) {code : String} {entry : AuthCode} (alive : entry.isExpired clock.issuing = false) :
    store[code]? = some entry ↔ left[code]? = some entry := by
  have checked := entry.alive_of_later ordered.checked alive
  have pruned : store[code]? = some entry ↔ (pruneExpiredCodes clock.pruning store)[code]? = some entry := by
    rw [getElem?_pruneExpiredCodes]
    exact (and_iff_left (entry.alive_of_later (ordered.pruned code).2 checked)).symm
  rcases unexchanged with rfl | ⟨key, stale, found, expired, rfl⟩
  · exact pruned
  · rw [pruned, Std.ExtTreeMap.getElem?_erase]
    split
    · rename_i same
      refine iff_of_false (fun kept => ?_) (fun no => by cases no)
      rw [← Std.LawfulEqCmp.eq_of_compare same, found, Option.some.injEq] at kept
      rw [kept, checked] at expired
      exact Bool.false_ne_true expired
    · exact Iff.rfl

/-- A refusal leaves the state alike. -/
theorem alike_of_refused {label : Label} {outcome : Outcome} (ordered : label.Ordered s.time)
    (handled : handle lib uuids s label = (t, outcome)) (refused : outcome.isRefusal = true) :
    Alike (label.last s.time) s t := by
  have same : t = s → Alike (label.last s.time) s t := by
    rintro rfl
    exact ⟨rfl, rfl, fun _ _ _ => Iff.rfl⟩
  cases label with
  | authorize query =>
    obtain ⟨left, answered⟩ := Prod.mk.inj handled
    rw [answered, if_pos refused] at left
    exact same left.symm
  | callback query google clock =>
    rcases callback_cases lib uuids s.config s.draws query google clock with ⟨_, -, left⟩ | ⟨_, _, -, -, stored⟩
    · exact same (Prod.mk.inj (handled.symm.trans (left s rfl rfl))).1
    · rw [(Prod.mk.inj (handled.symm.trans (stored s rfl rfl))).2] at refused
      cases refused
  | token body clock =>
    rcases token_cases lib body clock with ⟨_, -, left⟩ | ⟨code, verifier, uri, -, -, -, asks⟩
    · exact same (Prod.mk.inj (handled.symm.trans (left s))).1
    · obtain ⟨rfl, rfl⟩ := Prod.mk.inj (handled.symm.trans (asks s))
      rcases exchangeCodeForToken_cases lib s.config clock s.codeStore code verifier uri with
        ⟨left, result, exchanged, -, unexchanged⟩ | ⟨_, _, _, _, -, -, -, -, -, -, -, exchanged⟩
      · rw [exchanged]
        exact ⟨rfl, rfl, fun _ _ alive => unexchanged.live ordered alive⟩
      · rw [exchanged] at refused
        cases refused
  | proxied authorization now => exact same (Prod.mk.inj handled).1.symm
  | restart config =>
    rw [← (Prod.mk.inj handled).2] at refused
    cases refused

theorem step_of_handle {label : Label} {outcome : Outcome} (handled : handle lib uuids s label = (t, outcome)) :
    step lib uuids s label = some ({ t with time := label.last s.time }, outcome) := by
  rw [step, handled]

theorem step_cases {label : Label} {outcome : Outcome} (stepped : step lib uuids s label = some (t, outcome)) :
    ∃ next, handle lib uuids s label = (next, outcome) ∧ t = { next with time := label.last s.time } := by
  obtain ⟨next, same⟩ := Prod.mk.inj (Option.some.inj stepped)
  exact ⟨_, Prod.ext rfl same, next.symm⟩

theorem Alike.at_times {time : ℚ} (alike : Alike time s t) (time₁ time₂ : ℚ) :
    Alike time { s with time := time₁ } { t with time := time₂ } :=
  ⟨alike.config, alike.draws, alike.live⟩

/-- Alike states behave alike from then on. -/
theorem Alike.behaves {time : ℚ} (alike : Alike time s t) {labels : List Label} (inOrder : InOrder time labels) :
    (behaviour (step lib uuids) s labels).map Prod.fst = (behaviour (step lib uuids) t labels).map Prod.fst := by
  have lockstep : ∀ {label labels s t}, (∃ time, Alike time s t ∧ InOrder time (label :: labels)) →
      ∃ s' t' outcome, step lib uuids s label = some (s', outcome) ∧ step lib uuids t label = some (t', outcome) ∧
        ∃ time, Alike time s' t' ∧ InOrder time labels := by
    rintro label labels s t ⟨time, alike, ordered, inOrder⟩
    obtain ⟨same, alike⟩ := alike.handle ordered
    exact ⟨_, _, _, step_of_handle rfl, step_of_handle (Prod.ext rfl same.symm), label.last time,
      alike.at_times _ _, inOrder⟩
  obtain ⟨outputs, s', t', first, second, -⟩ := behaviour_of_lockstep
    (fun labels s t => ∃ time, Alike time s t ∧ InOrder time labels) lockstep ⟨time, alike, inOrder⟩
  rw [first, second]
  rfl

theorem refusalsInert (lib : Library) (uuids : Uuids) (s : State) : RefusalsInert lib uuids s := by
  intro label t outcome ordered stepped refused labels inOrder
  obtain ⟨next, handled, rfl⟩ := step_cases stepped
  exact (((alike_of_refused ordered handled refused).at_times s.time _).behaves inOrder).symm

variable {history : List (Label × Outcome)} {x : Label × Outcome}

theorem configAfter_concat : configAfter config (history ++ [x]) = match x.1 with
    | .restart next => next
    | _ => configAfter config history := by
  rw [configAfter, List.foldl_append]
  rfl

theorem FlowSound.concat (sound : FlowSound lib config history)
    (granted : ∀ body clock token claims, x = (.token body clock, .issued token claims) →
      Entitled lib config history body clock claims)
    (distinct : ∀ y ∈ history, ∀ code entry other, Grants y code entry → ¬ Grants x code other)
    (once : ∀ y ∈ history, ∀ code, Redeems y code → ¬ Redeems x code)
    (guarded : ∀ authorization now outcome, x = (.proxied authorization now, outcome) →
      Admitted lib config history authorization now outcome) : FlowSound lib config (history ++ [x]) where
  granted before body clock token claims after split := by
    rcases concat_eq_append_cons split with ⟨rfl, rfl, -⟩ | ⟨after, -, split⟩
    · exact granted body clock token claims rfl
    · exact sound.granted before body clock token claims after split
  distinct := by
    refine List.pairwise_append.mpr ⟨sound.distinct, List.pairwise_singleton _ _, fun y member z last => ?_⟩
    rw [List.mem_singleton.mp last]
    exact distinct y member
  once := by
    refine List.pairwise_append.mpr ⟨sound.once, List.pairwise_singleton _ _, fun y member z last => ?_⟩
    rw [List.mem_singleton.mp last]
    exact once y member
  guarded before authorization now outcome after split := by
    rcases concat_eq_append_cons split with ⟨rfl, rfl, -⟩ | ⟨after, -, split⟩
    · exact guarded authorization now outcome rfl
    · exact sound.guarded before authorization now outcome after split

/-- What holds of a state after the history of a run. -/
structure Books (lib : Library) (uuids : Uuids) (config : Config) (history : List (Label × Outcome)) (s : State) : Prop where
  current : s.config = configAfter config history
  stored : ∀ code : String, ∀ entry, s.codeStore[code]? = some entry →
    ∃ earlier x later, history = earlier ++ x :: later ∧ Grants x code { entry with used := false } ∧
      isUserAllowed lib (configAfter config earlier) entry.email = true
  unused : ∀ code : String, ∀ entry, s.codeStore[code]? = some entry → entry.used = false →
    ∀ x ∈ history, ¬ Redeems x code
  drawn : ∀ x ∈ history, ∀ code entry, Grants x code entry → ∃ n < s.draws, code = uuids.text n
  sound : FlowSound lib config history

theorem FlowSound.redeemed_granted (sound : FlowSound lib config history) (member : x ∈ history) {code : String}
    (redeems : Redeems x code) : ∃ y ∈ history, ∃ entry, Grants y code entry := by
  obtain ⟨body, clock, token, claims, rfl, asked⟩ := redeems
  obtain ⟨before, after, split⟩ := List.append_of_mem member
  obtain ⟨earlier, y, later, code', entry, parts, grants, -, meets, -⟩ := sound.granted _ _ _ _ _ _ split
  rw [meets.code] at asked
  cases asked
  refine ⟨y, ?_, entry, grants⟩
  rw [split, parts]
  simp

/-- A step that issues nothing. -/
theorem Books.quiet (books : Books lib uuids config history s) {label : Label} {outcome : Outcome}
    (nothing : ∀ code entry, ¬ Grants (label, outcome) code entry) (noToken : ∀ token claims, outcome ≠ .issued token claims)
    (admitted : ∀ authorization now, label = .proxied authorization now →
      Admitted lib config history authorization now outcome)
    (current : t.config = configAfter config (history ++ [(label, outcome)]))
    (kept : ∀ code : String, ∀ entry, t.codeStore[code]? = some entry → s.codeStore[code]? = some entry)
    (draws : s.draws ≤ t.draws) : Books lib uuids config (history ++ [(label, outcome)]) t where
  current := current
  stored code entry found := by
    obtain ⟨earlier, x, later, split, grants⟩ := books.stored code entry (kept code entry found)
    exact ⟨earlier, x, later ++ [(label, outcome)], by rw [split, List.append_assoc]; rfl, grants⟩
  unused code entry found fresh x member redeems := by
    rcases List.mem_append.mp member with old | last
    · exact books.unused code entry (kept code entry found) fresh x old redeems
    · obtain ⟨_, _, _, _, same, -⟩ := redeems
      rw [List.mem_singleton.mp last] at same
      exact noToken _ _ (Prod.mk.inj same).2
  drawn x member code entry grants := by
    rcases List.mem_append.mp member with old | last
    · obtain ⟨n, before, spelled⟩ := books.drawn x old code entry grants
      exact ⟨n, before.trans_le draws, spelled⟩
    · exact absurd (List.mem_singleton.mp last ▸ grants) (nothing code entry)
  sound := by
    refine books.sound.concat ?_ ?_ ?_ ?_
    · exact fun _ _ _ _ same => absurd (Prod.mk.inj same).2 (noToken _ _)
    · exact fun _ _ _ _ _ _ => nothing _ _
    · rintro _ _ _ _ ⟨_, _, _, _, same, -⟩
      exact noToken _ _ (Prod.mk.inj same).2
    · rintro authorization now _ same
      obtain ⟨proxied, rfl⟩ := Prod.mk.inj same
      exact admitted authorization now proxied

theorem Books.fresh (books : Books lib uuids config history s) (member : x ∈ history) {code : String} {entry : AuthCode}
    (grants : Grants x code entry) : code ≠ uuids.text s.draws := by
  obtain ⟨n, before, spelled⟩ := books.drawn x member code entry grants
  intro same
  exact before.ne (uuids.distinct (spelled.symm.trans same))

/-- A callback that stores a code. -/
theorem Books.grant (books : Books lib uuids config history s) (query : CallbackQuery) (google : String → GoogleAnswer)
    (clock : Moments) (location : List Char) {entry : AuthCode} (allowed : isUserAllowed lib s.config entry.email = true)
    (unused : entry.used = false) : Books lib uuids config
      (history ++ [(.callback query google clock, .toClient location (uuids.text s.draws) entry)])
      { s with codeStore := (pruneExpiredCodes clock.pruning s.codeStore).insert (uuids.text s.draws) entry
               draws := s.draws + 1 } where
  current := by
    rw [configAfter_concat]
    exact books.current
  stored code found same := by
    rw [Std.ExtTreeMap.getElem?_insert] at same
    split at same
    · rename_i key
      cases same
      rw [← Std.LawfulEqCmp.eq_of_compare key]
      refine ⟨history, _, [], rfl, ⟨query, google, clock, location, ?_⟩, books.current ▸ allowed⟩
      rw [← unused]
    · obtain ⟨earlier, x, later, split, grants⟩ := books.stored code found (getElem?_pruneExpiredCodes.mp same).1
      exact ⟨earlier, x, later ++ [_], by rw [split, List.append_assoc]; rfl, grants⟩
  unused code found same unused x member redeems := by
    rcases List.mem_append.mp member with old | last
    · rw [Std.ExtTreeMap.getElem?_insert] at same
      split at same
      · rename_i key
        obtain ⟨y, member, entry, grants⟩ := books.sound.redeemed_granted old redeems
        exact books.fresh member grants (Std.LawfulEqCmp.eq_of_compare key).symm
      · exact books.unused code found (getElem?_pruneExpiredCodes.mp same).1 unused x old redeems
    · obtain ⟨_, _, _, _, no, -⟩ := redeems
      rw [List.mem_singleton.mp last] at no
      cases no
  drawn x member code other grants := by
    rcases List.mem_append.mp member with old | last
    · obtain ⟨n, before, spelled⟩ := books.drawn x old code other grants
      exact ⟨n, before.trans (Nat.lt_succ_self _), spelled⟩
    · obtain ⟨_, _, _, _, same⟩ := grants
      rw [List.mem_singleton.mp last] at same
      cases same
      exact ⟨s.draws, Nat.lt_succ_self _, rfl⟩
  sound := by
    refine books.sound.concat ?_ ?_ ?_ ?_
    · rintro _ _ _ _ no
      cases no
    · rintro y member code other another grants ⟨_, _, _, _, same⟩
      cases same
      exact books.fresh member grants rfl
    · rintro _ _ _ _ ⟨_, _, _, _, no, -⟩
      cases no
    · rintro _ _ _ no
      cases no

/-- A token that is issued for a stored code. -/
theorem Books.issue (books : Books lib uuids config history s) {body : Body} {clock : Moments} {key : String}
    {entry : AuthCode} {token : String} {claims : Claims}
    (found : (pruneExpiredCodes clock.pruning s.codeStore)[key]? = some entry) (unused : entry.used = false)
    (meets : Meets lib body clock key entry) (subject : claims.sub = entry.email) : Books lib uuids config
      (history ++ [(.token body clock, .issued token claims)])
      { s with codeStore := (pruneExpiredCodes clock.pruning s.codeStore).insert key { entry with used := true } } where
  current := by
    rw [configAfter_concat]
    exact books.current
  stored code other same := by
    have origin : ∃ earlier x later, history = earlier ++ x :: later ∧ Grants x code { other with used := false } ∧
        isUserAllowed lib (configAfter config earlier) other.email = true := by
      rw [Std.ExtTreeMap.getElem?_insert] at same
      split at same
      · rename_i equal
        cases same
        rw [← Std.LawfulEqCmp.eq_of_compare equal]
        exact books.stored key entry (getElem?_pruneExpiredCodes.mp found).1
      · exact books.stored code other (getElem?_pruneExpiredCodes.mp same).1
    obtain ⟨earlier, x, later, split, grants⟩ := origin
    exact ⟨earlier, x, later ++ [_], by rw [split, List.append_assoc]; rfl, grants⟩
  unused code other same fresh x member redeems := by
    rw [Std.ExtTreeMap.getElem?_insert] at same
    split at same
    · cases same
      cases fresh
    · rename_i differs
      rcases List.mem_append.mp member with old | last
      · exact books.unused code other (getElem?_pruneExpiredCodes.mp same).1 fresh x old redeems
      · obtain ⟨_, _, _, _, same, asked⟩ := redeems
        rw [List.mem_singleton.mp last] at same
        cases same
        rw [meets.code] at asked
        cases asked
        exact differs Std.ReflCmp.compare_self
  drawn x member code other grants := by
    rcases List.mem_append.mp member with old | last
    · exact books.drawn x old code other grants
    · obtain ⟨_, _, _, _, no⟩ := grants
      rw [List.mem_singleton.mp last] at no
      cases no
  sound := by
    have stored := (getElem?_pruneExpiredCodes.mp found).1
    refine books.sound.concat ?_ ?_ ?_ ?_
    · rintro _ _ _ _ same
      cases same
      obtain ⟨earlier, x, later, split, grants, allowed⟩ := books.stored key entry stored
      exact ⟨earlier, x, later, key, _, split, grants, allowed, ⟨meets.code, meets.verifier, meets.redirectUri, meets.alive⟩,
        subject⟩
    · rintro _ _ _ _ _ _ ⟨_, _, _, _, no⟩
      cases no
    · rintro y member code redeems ⟨_, _, _, _, same, asked⟩
      cases same
      rw [meets.code] at asked
      cases asked
      exact books.unused key entry stored unused y member redeems
    · rintro _ _ _ no
      cases no

theorem requireValidToken_cases (lib : Library) (config : Config) (authorization : Option String) (now : ℚ) :
    (requireValidToken lib config authorization now).isRefusal = true ∨
    (∃ key, extractBearerToken authorization = some key ∧ config.gatewayApiKey = some key ∧
      requireValidToken lib config authorization now = .passedKey) ∨
    ∃ token claims, extractBearerToken authorization = some token ∧ validateToken lib config now token = some claims ∧
      isUserAllowed lib config claims.sub = true ∧ requireValidToken lib config authorization now = .passed claims := by
  rw [requireValidToken]
  split
  · exact .inl rfl
  rename_i token read
  split
  · rename_i matched
    exact .inr (.inl ⟨token, read, of_decide_eq_true matched, rfl⟩)
  split
  · exact .inl rfl
  rename_i claims valid
  split
  · exact .inl rfl
  · rename_i allowed
    exact .inr (.inr ⟨token, claims, read, valid, by simpa using allowed, rfl⟩)

theorem authorize_cases (lib : Library) (config : Config) (query : AuthorizeQuery) (nonce : String) :
    (authorize lib config query nonce).isRefusal = true ∨ ∃ location, authorize lib config query nonce = .toGoogle location := by
  rw [authorize]
  split
  · exact .inl rfl
  split
  · exact .inl rfl
  split
  · exact .inl rfl
  · exact .inl rfl
  · exact .inr ⟨_, rfl⟩

theorem Books.at_time (books : Books lib uuids config history s) (time : ℚ) :
    Books lib uuids config history { s with time := time } :=
  ⟨books.current, books.stored, books.unused, books.drawn, books.sound⟩

/-- A refusal, after which some codes may be gone. -/
theorem Books.refused (books : Books lib uuids config history s) {label : Label} {outcome : Outcome}
    (refused : outcome.isRefusal = true) (running : ∀ next, label ≠ .restart next) {store : Dict AuthCode}
    (kept : ∀ code : String, ∀ entry, store[code]? = some entry → s.codeStore[code]? = some entry) :
    Books lib uuids config (history ++ [(label, outcome)]) { s with codeStore := store } := by
  refine books.quiet ?_ ?_ (fun _ _ _ => .inl refused) ?_ kept le_rfl
  · rintro code entry ⟨_, _, _, _, same⟩
    rw [(Prod.mk.inj same).2] at refused
    cases refused
  · rintro token claims rfl
    cases refused
  · rw [configAfter_concat]
    split
    · exact absurd ‹_› (running _)
    · exact books.current

theorem Unexchanged.kept {clock : Moments} {store left : Dict AuthCode} (unexchanged : Unexchanged clock store left)
    {code : String} {entry : AuthCode} (found : left[code]? = some entry) : store[code]? = some entry := by
  rcases unexchanged with rfl | ⟨key, _, -, -, rfl⟩
  · exact (getElem?_pruneExpiredCodes.mp found).1
  · rw [Std.ExtTreeMap.getElem?_erase] at found
    split at found
    · cases found
    · exact (getElem?_pruneExpiredCodes.mp found).1

/-- One step keeps the books. -/
theorem Books.step (books : Books lib uuids config history s) {label : Label} {outcome : Outcome}
    (honest : Honest lib history s label) (stepped : step lib uuids s label = some (t, outcome)) :
    Books lib uuids config (history ++ [(label, outcome)]) t := by
  obtain ⟨next, handled, rfl⟩ := step_cases stepped
  refine Books.at_time ?_ _
  cases label with
  | authorize query =>
    obtain ⟨rfl, rfl⟩ := Prod.mk.inj handled
    rcases authorize_cases lib s.config query (uuids.text s.draws) with refused | ⟨location, redirected⟩
    · rw [if_pos refused]
      exact books.refused refused (fun _ no => by cases no) fun _ _ found => found
    · rw [redirected]
      refine books.quiet ?_ (fun _ _ no => by cases no) (fun _ _ no => by cases no) ?_ (fun _ _ found => found)
        (Nat.le_succ _)
      · rintro _ _ ⟨_, _, _, _, no⟩
        cases no
      · rw [configAfter_concat]
        exact books.current
  | callback query google clock =>
    rcases callback_cases lib uuids s.config s.draws query google clock with
      ⟨outcome, refused, left⟩ | ⟨location, entry, allowed, unused, stored⟩
    · obtain ⟨rfl, rfl⟩ := Prod.mk.inj (handled.symm.trans (left s rfl rfl))
      exact books.refused refused (fun _ no => by cases no) fun _ _ found => found
    · obtain ⟨rfl, rfl⟩ := Prod.mk.inj (handled.symm.trans (stored s rfl rfl))
      exact books.grant query google clock location allowed unused
  | token body clock =>
    rcases token_cases lib body clock with ⟨outcome, refused, left⟩ | ⟨code, verifier, uri, atCode, atVerifier, atUri, asks⟩
    · obtain ⟨rfl, rfl⟩ := Prod.mk.inj (handled.symm.trans (left s))
      exact books.refused refused (fun _ no => by cases no) fun _ _ found => found
    · obtain ⟨rfl, rfl⟩ := Prod.mk.inj (handled.symm.trans (asks s))
      rcases exchangeCodeForToken_cases lib s.config clock s.codeStore code verifier uri with
        ⟨left, result, exchanged, refused, unexchanged⟩ |
        ⟨key, entry, token, claims, found, unused, alive, asked, ⟨text, spelled, hashed⟩, target, subject, exchanged⟩
      · rw [exchanged]
        refine books.refused ?_ (fun _ no => by cases no) fun code entry found => ?_
        · rcases refused with rfl | rfl <;> rfl
        · exact unexchanged.kept found
      · rw [exchanged]
        refine books.issue found unused ⟨?_, ⟨text, ?_, hashed⟩, ?_, ?_⟩ subject
        · rw [atCode, asked]
        · rw [atVerifier, spelled]
        · rw [atUri, target]
        · exact not_lt.mp (of_decide_eq_false alive)
  | proxied authorization now =>
    obtain ⟨rfl, rfl⟩ := Prod.mk.inj handled
    refine books.quiet ?_ ?_ ?_ (configAfter_concat ▸ books.current) (fun _ _ found => found) le_rfl
    · rintro _ _ ⟨_, _, _, _, no⟩
      cases (Prod.mk.inj no).1
    · intro token claims same
      rcases requireValidToken_cases lib s.config authorization now with
        refused | ⟨_, -, -, passed⟩ | ⟨_, _, -, -, -, passed⟩
      · rw [same] at refused
        cases refused
      · cases same.symm.trans passed
      · cases same.symm.trans passed
    · rintro _ _ same
      cases same
      rcases requireValidToken_cases lib s.config authorization now with
        refused | ⟨key, read, configured, -⟩ | ⟨token, claims, read, valid, allowed, -⟩
      · exact .inl refused
      · exact .inr (.inl ⟨key, books.current ▸ configured, read⟩)
      · obtain ⟨label, issued⟩ := honest.2 token claims read valid
        exact .inr (.inr ⟨token, label, claims, read, issued, lib.decode_unexpired valid, books.current ▸ allowed⟩)
  | restart next =>
    obtain ⟨rfl, rfl⟩ := Prod.mk.inj handled
    refine books.quiet ?_ (fun _ _ no => by cases no) (fun _ _ no => by cases no) ?_ ?_ le_rfl
    · rintro _ _ ⟨_, _, _, _, no⟩
      cases no
    · rw [configAfter_concat]
    · intro code entry found
      rw [Std.ExtTreeMap.getElem?_empty] at found
      cases found

/-- The gateway as it starts. -/
def start (config : Config) (time : ℚ) : State := { config := config, time := time }

theorem books_start (lib : Library) (uuids : Uuids) (config : Config) (time : ℚ) :
    Books lib uuids config [] (start config time) where
  current := rfl
  stored code entry found := by
    rw [start, Std.ExtTreeMap.getElem?_empty] at found
    cases found
  unused code entry found := by
    rw [start, Std.ExtTreeMap.getElem?_empty] at found
    cases found
  drawn x member := absurd member List.not_mem_nil
  sound := by
    refine ⟨?_, .nil, .nil, ?_⟩
    · rintro before _ _ _ _ after no
      exact absurd no.symm (List.append_ne_nil_of_right_ne_nil _ (List.cons_ne_nil _ _))
    · rintro before _ _ _ after no
      exact absurd no.symm (List.append_ne_nil_of_right_ne_nil _ (List.cons_ne_nil _ _))

/-- Whatever is asked of the gateway, tokens and codes correspond, refusals have no effect and only
who is entitled to it is let through. -/
theorem authorization_codes (lib : Library) (uuids : Uuids) (config : Config) (time : ℚ)
    {history : List (Label × Outcome)} {s : State} (run : Run (step lib uuids) (Honest lib) (start config time) history s) :
    FlowSound lib config history ∧ RefusalsInert lib uuids s :=
  ⟨(run.invariant (Books lib uuids config) (books_start lib uuids config time) fun books honest stepped =>
    books.step honest stepped).sound, refusalsInert lib uuids s⟩

private def sampleCallback : Label :=
  .callback { code := "google", state := "s|S256(v)|https%3A%2F%2Fclient.example|n" }
    (fun _ => .verified (.of [("nonce", .str "n"), ("email", .str "alice@example.com"), ("email_verified", .bool true)]))
    ⟨fun _ => 10, 10, 10⟩

private def sampleBody : Body := .json (.obj [("code", .str "16fd2706-8baf-433b-82da-8c7fada847da"),
  ("code_verifier", .str "v"), ("grant_type", .str "authorization_code"), ("redirect_uri", .str "https://client.example")])

private def sampleToken : Label := .token sampleBody ⟨fun _ => 20, 20, 20⟩

private def sampleProxied : Label := .proxied (some "Bearer token") 30

private def next (s : State) (label : Label) : State :=
  { (handle sampleLibrary sampleUuids s label).1 with time := label.last s.time }

private abbrev SampleRun := Run (step sampleLibrary sampleUuids) (Honest sampleLibrary) (start sampleConfig 0)

private theorem SampleRun.go {history : List (Label × Outcome)} {s : State} (run : SampleRun history s) (label : Label)
    (honest : Honest sampleLibrary history s label) :
    SampleRun (history ++ [(label, (handle sampleLibrary sampleUuids s label).2)]) (next s label) :=
  run.next honest (step_of_handle rfl)

private def granted : State := next (start sampleConfig 0) sampleCallback

private def redeemed : State := next granted sampleToken

private def Outcome.isToken : Outcome → Bool
  | .issued token claims => token = "token" && claims = sampleClaims
  | _ => false

private theorem Outcome.isToken_iff {outcome : Outcome} :
    outcome.isToken = true ↔ outcome = .issued "token" sampleClaims := by
  cases outcome with
  | issued token claims => simp [isToken]
  | _ => exact iff_of_false Bool.false_ne_true (fun no => by cases no)

private theorem token_issued : (handle sampleLibrary sampleUuids granted sampleToken).2.isToken = true := by
  decide +kernel

private theorem ordered_at {time reading : ℚ} (later : time ≤ reading) :
    (Moments.mk (fun _ => reading) reading reading).Ordered time where
  pruned _ := ⟨later, le_rfl⟩
  checked := le_rfl

/-- A user logs in, redeems the code and comes back with the token. -/
theorem authorization_codes_login : ∃ history s, SampleRun history s ∧
    history.map Prod.fst = [sampleCallback, sampleToken, sampleProxied] ∧
    (∃ label, (label, .issued "token" sampleClaims) ∈ history) ∧
    FlowSound sampleLibrary sampleConfig history ∧ RefusalsInert sampleLibrary sampleUuids s := by
  have issued := Outcome.isToken_iff.mp token_issued
  have first : SampleRun _ granted := SampleRun.go .start sampleCallback ⟨ordered_at (by decide +kernel), trivial⟩
  have second : SampleRun _ redeemed := first.go sampleToken ⟨ordered_at (by decide +kernel), trivial⟩
  rw [issued] at second
  have known : ∀ token claims, sampleDecode "" "" 30 token = some claims → token = "token" ∧ claims = sampleClaims := by
    intro token claims decoded
    rw [sampleDecode] at decoded
    split at decoded
    · rename_i valid
      exact ⟨valid.1, (Option.some.inj decoded).symm⟩
    · cases decoded
  have third := second.go sampleProxied ⟨(by decide +kernel : redeemed.time ≤ 30), fun token claims _ valid => by
    obtain ⟨rfl, rfl⟩ := known token claims valid
    exact ⟨sampleToken, by simp⟩⟩
  exact ⟨_, _, third, rfl, ⟨sampleToken, by simp⟩, authorization_codes _ _ _ _ third⟩

end MetadataGraph.Gateway
