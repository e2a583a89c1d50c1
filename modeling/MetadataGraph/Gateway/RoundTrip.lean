import MetadataGraph.Gateway.Main

namespace MetadataGraph.Gateway

open UrlCoding

/-- A parameter as the identity provider reads it from the URL that it is called with. -/
def readParameter (url : List Char) (name : String) : Option (List Char) := (parseQuery (query url)).lookup name.toList

/-- What the identity provider comes back with besides the state: a code, and the claims that
Google verifies. -/
structure Visit where
  code : String
  claims : Dict Json
  clock : Moments

/-- Google's answer, whose ID token has some nonce. -/
def Visit.google (visit : Visit) (nonce : Json) (_ : String) : GoogleAnswer :=
  .verified (visit.claims.insert "nonce" nonce)

/-- The visit of a user that is allowed. -/
structure Visit.Verified (visit : Visit) (lib : Library) (config : Config) : Prop where
  code : visit.code ≠ ""
  email : ∃ email, email ≠ "" ∧ visit.claims.get "email" = .str email ∧ isUserAllowed lib config (lib.lower email) = true
  verified : (visit.claims.get "email_verified").truthy = true

/-- The state that the provider read comes back to the callback. It is accepted with the nonce of
the request and no other, the challenge and the redirect URI are stored, and the client reads its
own state, the code and all that was in the redirect URI. -/
def RoundTrips (lib : Library) (uuids : Uuids) (s : State) (query : AuthorizeQuery) (nonce : String) (visit : Visit) :
    Prop :=
  ∃ url state, authorize lib s.config query nonce = .toGoogle url ∧ readParameter url "state" = some state ∧
    ∀ echoed, ∃ t outcome, callback lib uuids s { code := visit.code, state := .ofList state } (visit.google echoed)
        visit.clock = (t, outcome) ∧
      (echoed ≠ .str nonce → outcome.isRefusal = true) ∧
      (echoed = .str nonce → ∃ target code entry, outcome = .toClient target code entry ∧
        t.codeStore[code]? = some entry ∧ entry.codeChallenge = query.codeChallenge ∧
        entry.redirectUri = query.redirectUri ∧
        parseQuery (UrlCoding.query target) = parseQuery (UrlCoding.query (location query.redirectUri.toList)) ++
          [("code".toList, code.toList), ("state".toList, query.state.toList)])

/-- A value without the delimiter of the state and without anything that reads like an escape. -/
def Plain (value : String) : Prop := '|' ∉ value.toList ∧ hasEscape value.toList = false

/-- The three values are plain, and the redirect URI has no query and no fragment. -/
structure Survives (query : AuthorizeQuery) : Prop where
  state : Plain query.state
  codeChallenge : Plain query.codeChallenge
  redirectUri : Plain query.redirectUri
  bare : '?' ∉ query.redirectUri.toList ∧ '#' ∉ query.redirectUri.toList

variable {lib : Library} {uuids : Uuids} {s : State} {query : AuthorizeQuery} {nonce : String} {visit : Visit}

/-- The parts of the state, each as it was given. -/
def stateParts (query : AuthorizeQuery) (nonce : String) : List (List Char) :=
  [query.state.toList, query.codeChallenge.toList, query.redirectUri.toList, nonce.toList]

/-- The signs that a location keeps. -/
theorem redirectSafe_signs : ('%' ∈ redirectSafe ∧ '+' ∈ redirectSafe ∧ '=' ∈ redirectSafe) ∧ '&' ∈ redirectSafe ∧
    '#' ∈ redirectSafe ∧ '?' ∈ redirectSafe := by decide +kernel

theorem quote_signs : quote redirectSafe ['?'] = ['?'] ∧ quote redirectSafe ['&'] = ['&'] ∧
    quote redirectSafe ['='] = ['='] ∧ quote redirectSafe ['|'] = ['%', '7', 'C'] := by decide +kernel

/-- The fixed texts of the request to the provider are apart from the signs around them. -/
theorem fixed_texts : (∀ name ∈ ["client_id".toList, "redirect_uri".toList, "response_type".toList, "scope".toList,
      "state".toList, "nonce".toList, "access_type".toList, "prompt".toList], ('&' ∉ name ∧ '=' ∉ name ∧ '#' ∉ name) ∧
      decodeComponent (quote redirectSafe name) = name) ∧
    (∀ text ∈ ["/callback".toList, "code".toList, "openid email profile".toList, "online".toList,
      "select_account".toList], '&' ∉ text ∧ '#' ∉ text) ∧
    '?' ∉ googleAuthUrl ∧ '#' ∉ googleAuthUrl := by decide +kernel

theorem gatewayState_eq (query : AuthorizeQuery) (nonce : String) :
    gatewayState query nonce = ['|'].intercalate ((stateParts query nonce).map (quote [])) := rfl

theorem notMem_gatewayState {c : Char} (special : unreserved c = false) (differs : c ≠ '%' ∧ c ≠ '|') :
    c ∉ gatewayState query nonce := by
  rw [gatewayState_eq]
  refine notMem_intercalate differs.2 fun part member => ?_
  obtain ⟨source, -, rfl⟩ := List.mem_map.mp member
  intro member
  rcases mem_quote member with plain | percent | ⟨-, no⟩
  · exact absurd (special.symm.trans plain) Bool.false_ne_true
  · exact differs.1 percent
  · exact absurd no List.not_mem_nil

/-- The state that the provider reads has lost its only layer of quoting. -/
theorem decodeComponent_gatewayState (query : AuthorizeQuery) (nonce : String) :
    decodeComponent (quote redirectSafe (gatewayState query nonce)) = ['|'].intercalate (stateParts query nonce) := by
  have noPlus : '+' ∉ quote redirectSafe (gatewayState query nonce) :=
    notMem_quote (notMem_gatewayState (by decide) (by decide)) (by decide) (by decide)
  rw [decodeComponent_of_notMem noPlus, gatewayState_eq,
    unquote_quote_intercalate redirectSafe_signs.1.1 (by decide) (by decide : escaped '7' 'C' = some _)
      quote_signs.2.2.2]

theorem location_append (address text : List Char) :
    location (address ++ '?' :: text) = location address ++ '?' :: location text := by
  rw [location, quote_append, ← List.singleton_append, quote_append, quote_signs.1, List.singleton_append, location, location]

theorem Uuids.notMem {c : Char} (special : unreserved c = false) (n : Nat) : c ∉ (uuids.text n).toList := fun member =>
  absurd (special.symm.trans (uuids.spelled n c member)) Bool.false_ne_true

/-- The names of the parameters stand for themselves. -/
theorem authParams_names {config : Config} {state nonce : List Char} :
    ∀ param ∈ authParams config state nonce, ('&' ∉ param.1 ∧ '=' ∉ param.1 ∧ '#' ∉ param.1) ∧
      decodeComponent (quote redirectSafe param.1) = param.1 := by
  have names : ∀ name ∈ (authParams config state nonce).map Prod.fst, ('&' ∉ name ∧ '=' ∉ name ∧ '#' ∉ name) ∧
      decodeComponent (quote redirectSafe name) = name := fixed_texts.1
  exact fun param member => names param.1 (List.mem_map_of_mem member)

theorem authParams_values {config : Config} {state nonce : List Char} {c : Char} (sign : c = '&' ∨ c = '#')
    (inState : c ∉ state) (inNonce : c ∉ nonce) : ∀ param ∈ authParams config state nonce, c ∉ param.2 := by
  have client : c ∉ config.googleOauthClientId.toList := by
    rcases sign with rfl | rfl
    · exact config.clientId_fits.1
    · exact config.clientId_fits.2
  have fixed : ∀ text ∈ ["/callback".toList, "code".toList, "openid email profile".toList, "online".toList,
      "select_account".toList], c ∉ text := by
    intro text member
    rcases sign with rfl | rfl
    · exact (fixed_texts.2.1 text member).1
    · exact (fixed_texts.2.1 text member).2
  simp only [List.forall_mem_cons] at fixed
  have url : c ∉ (config.publicBaseUrl ++ "/callback").toList := by
    rw [String.toList_append, List.mem_append, not_or]
    rcases sign with rfl | rfl
    · exact ⟨config.baseUrl_fits.1, fixed.1⟩
    · exact ⟨config.baseUrl_fits.2, fixed.1⟩
  simp only [authParams, List.forall_mem_cons]
  exact ⟨client, url, fixed.2.1, fixed.2.2.1, inState, inNonce, fixed.2.2.2.1, fixed.2.2.2.2.1, fun _ no => absurd no List.not_mem_nil⟩

/-- The provider reads the four values, joined. -/
theorem readParameter_state (uuids : Uuids) (config : Config) (query : AuthorizeQuery) (n : Nat) :
    readParameter (location (buildGoogleAuthUrl config (gatewayState query (uuids.text n)) (uuids.text n).toList)) "state" =
      some (['|'].intercalate (stateParts query (uuids.text n))) := by
  have values : ∀ c, c = '&' ∨ c = '#' → ∀ param ∈ authParams config (gatewayState query (uuids.text n))
      (uuids.text n).toList, c ∉ param.2 := by
    intro c sign
    have special : unreserved c = false ∧ c ≠ '%' ∧ c ≠ '|' := by
      rcases sign with rfl | rfl <;> decide
    exact authParams_values sign (notMem_gatewayState special.1 special.2) (Uuids.notMem special.1 n)
  rw [readParameter, buildGoogleAuthUrl, location_append, query_append, location, parseQuery_quote_join]
  · have read : ∀ param ∈ authParams config (gatewayState query (uuids.text n)) (uuids.text n).toList,
        (decodeComponent (quote redirectSafe param.1), decodeComponent (quote redirectSafe param.2)) =
          (param.1, decodeComponent (quote redirectSafe param.2)) :=
      fun param member => Prod.ext (authParams_names param member).2 rfl
    have found : ∀ state nonce : List Char, ((authParams config state nonce).map fun param =>
        (param.1, decodeComponent (quote redirectSafe param.2))).lookup "state".toList =
          some (decodeComponent (quote redirectSafe state)) := by
      intro state nonce
      rfl
    rw [List.map_congr_left read, found, decodeComponent_gatewayState]
  · exact quote_signs.2.1
  · exact quote_signs.2.2.1
  · intro param member
    rw [List.mem_append, not_or]
    exact ⟨(authParams_names param member).1.1, values '&' (.inl rfl) param member⟩
  · exact fun param member => (authParams_names param member).1.2.1
  · exact List.cons_ne_nil _ _
  · exact ⟨notMem_quote fixed_texts.2.2.1 (by decide) (by decide), notMem_quote fixed_texts.2.2.2 (by decide) (by decide)⟩
  · refine notMem_quote (notMem_intercalate (by decide) ?_) (by decide) (by decide)
    intro piece member
    obtain ⟨param, given, rfl⟩ := List.mem_map.mp member
    rw [List.mem_append, List.mem_cons, not_or, not_or]
    exact ⟨(authParams_names param given).1.2.2, by decide, values '#' (.inr rfl) param given⟩

/-- The parts of a state as the callback takes them. -/
def callbackParts (state : List Char) : List String := (state.splitOn '|').map fun part => String.ofList (unquote part)

theorem length_splitOn (separator : Char) (text : List Char) :
    1 ≤ (text.splitOn separator).length ∧ (separator ∈ text → 2 ≤ (text.splitOn separator).length) := by
  refine ⟨List.length_pos_iff.mpr (List.splitOn_ne_nil _ _), fun member => ?_⟩
  obtain ⟨before, after, rfl⟩ := List.append_of_mem member
  rw [List.splitOn_append_cons_self, List.length_append]
  have first := List.length_pos_iff.mpr (List.splitOn_ne_nil separator before)
  have second := List.length_pos_iff.mpr (List.splitOn_ne_nil separator after)
  omega

/-- Four parts come back as four if and only if the delimiter is in none of them. -/
theorem callbackParts_eq (query : AuthorizeQuery) {parts : List String} (four : parts.length = 4)
    (split : callbackParts (['|'].intercalate (stateParts query nonce)) = parts) :
    (∀ part ∈ stateParts query nonce, '|' ∉ part) ∧
      parts = (stateParts query nonce).map fun part => String.ofList (unquote part) := by
  have apart : ∀ part ∈ stateParts query nonce, '|' ∉ part := by
    have sum : (['|'].intercalate (stateParts query nonce)).splitOn '|' = query.state.toList.splitOn '|' ++
        (query.codeChallenge.toList.splitOn '|' ++ (query.redirectUri.toList.splitOn '|' ++ nonce.toList.splitOn '|')) := by
      rw [stateParts, List.intercalate_cons_cons, List.intercalate_cons_cons, List.intercalate_cons_cons]
      simp only [List.append_assoc, List.singleton_append, List.splitOn_append_cons_self]
      simp [List.intercalate]
    have length := congrArg List.length split
    rw [callbackParts, List.length_map, sum, four, List.length_append, List.length_append, List.length_append] at length
    have state := length_splitOn '|' query.state.toList
    have challenge := length_splitOn '|' query.codeChallenge.toList
    have uri := length_splitOn '|' query.redirectUri.toList
    have last := length_splitOn '|' nonce.toList
    simp only [stateParts, List.forall_mem_cons]
    refine ⟨fun member => ?_, fun member => ?_, fun member => ?_, fun member => ?_, fun _ no => absurd no List.not_mem_nil⟩
    · have := state.2 member
      omega
    · have := challenge.2 member
      omega
    · have := uri.2 member
      omega
    · have := last.2 member
      omega
  refine ⟨apart, ?_⟩
  rw [← split, callbackParts, List.splitOn_intercalate '|' apart (List.cons_ne_nil _ _)]

/-- What a callback that redirects to a client has read. -/
theorem callback_toClient {state code target : String} {url : List Char} {entry : AuthCode} {google : String → GoogleAnswer}
    {clock : Moments} {t : State}
    (answered : callback lib uuids s { code := code, state := state } google clock = (t, .toClient url target entry)) :
    ∃ originalState codeChallenge redirectUri nonce,
      callbackParts state.toList = [originalState, codeChallenge, redirectUri, nonce] ∧
      entry.codeChallenge = codeChallenge ∧ entry.redirectUri = redirectUri ∧
      url = location (destination redirectUri target originalState) := by
  rw [callback] at answered
  split at answered
  · cases answered
  split at answered
  · cases answered
  split at answered
  · rename_i originalState codeChallenge redirectUri nonce parts
    split at answered
    · cases answered
    · cases answered
    split at answered
    · cases answered
    · cases answered
    split at answered
    · cases answered
    · cases answered
      exact ⟨originalState, codeChallenge, redirectUri, nonce, parts, rfl, rfl, rfl⟩
  · cases answered

theorem plain_iff {value : String} (apart : '|' ∉ value.toList) :
    Plain value ↔ String.ofList (unquote value.toList) = value := by
  rw [Plain, ← unquote_eq_self_iff, and_iff_right apart, ← String.toList_inj, String.toList_ofList]

/-- The parameters that are appended for the client, as they stand in the location. -/
theorem location_params (code state : String) :
    location (urlencode [("code".toList, code.toList), ("state".toList, state.toList)]) =
      encodePair ("code".toList, code.toList) ++ '&' :: encodePair ("state".toList, state.toList) := by
  rw [location, quote_urlencode redirectSafe_signs.1 redirectSafe_signs.2.1, urlencode_pair]

theorem notMem_location_params (code state : String) :
    '#' ∉ location (urlencode [("code".toList, code.toList), ("state".toList, state.toList)]) := by
  rw [location_params, List.mem_append, List.mem_cons, not_or, not_or]
  exact ⟨notMem_encodePair (by decide) (by decide), by decide, notMem_encodePair (by decide) (by decide)⟩

/-- The parameters behind a redirect URI that has no query and no fragment. -/
theorem parseQuery_destination {redirectUri code originalState : String}
    (bare : '?' ∉ redirectUri.toList ∧ '#' ∉ redirectUri.toList) :
    parseQuery (UrlCoding.query (location (destination redirectUri code originalState))) =
      parseQuery (UrlCoding.query (location redirectUri.toList)) ++
        [("code".toList, code.toList), ("state".toList, originalState.toList)] := by
  have address : '?' ∉ location redirectUri.toList ∧ '#' ∉ location redirectUri.toList :=
    ⟨notMem_quote bare.1 (by decide) (by decide), notMem_quote bare.2 (by decide) (by decide)⟩
  rw [destination, location_append, query_append address (notMem_location_params _ _), query_of_notMem address.1,
    location, quote_urlencode redirectSafe_signs.1 redirectSafe_signs.2.1, parseQuery_urlencode]
  rfl

/-- Behind a query or a fragment the parameters that are appended are not read as themselves. -/
theorem parseQuery_destination_ne {redirectUri code originalState state : String}
    (taken : ¬ ('?' ∉ redirectUri.toList ∧ '#' ∉ redirectUri.toList)) :
    parseQuery (UrlCoding.query (location (destination redirectUri code originalState))) ≠
      parseQuery (UrlCoding.query (location redirectUri.toList)) ++
        [("code".toList, code.toList), ("state".toList, state.toList)] := by
  rw [destination, location_append]
  by_cases fragment : '#' ∈ redirectUri.toList
  · have kept : '#' ∈ location redirectUri.toList := mem_quote_of_mem (by decide) redirectSafe_signs.2.2.1 fragment
    rw [query_append_of_mem kept]
    intro same
    exact absurd (List.self_eq_append_right.mp same) (List.cons_ne_nil _ _)
  · have question : '?' ∈ redirectUri.toList := by
      by_contra no
      exact taken ⟨no, fragment⟩
    have plain : '#' ∉ location redirectUri.toList := notMem_quote fragment (by decide) (by decide)
    have kept : '?' ∈ location redirectUri.toList := mem_quote_of_mem (by decide) redirectSafe_signs.2.2.2 question
    obtain ⟨address, query, split, first⟩ := List.eq_append_cons_of_mem kept
    rw [split, List.mem_append, List.mem_cons, not_or, not_or] at plain
    have whole : '#' ∉ query ++ '?' :: location (urlencode
        [("code".toList, code.toList), ("state".toList, originalState.toList)]) := by
      rw [List.mem_append, List.mem_cons, not_or, not_or]
      exact ⟨plain.2.2, by decide, notMem_location_params _ _⟩
    rw [split, List.append_assoc, List.cons_append, query_append ⟨first, plain.1⟩ whole,
      query_append ⟨first, plain.1⟩ plain.2.2, location_params]
    refine parseQuery_question _ _ _ ?_
    rw [parseQuery_single (notMem_encodePair (by decide) (by decide)) (encodePair_ne_nil _)]
    rfl

theorem Uuids.plain (uuids : Uuids) (n : Nat) : Plain (uuids.text n) := by
  refine (plain_iff (Uuids.notMem (by decide) n)).mpr ?_
  rw [unquote_of_notMem (Uuids.notMem (by decide) n), String.ofList_toList]

/-- The callback with the state that the provider read, where the three values are plain. -/
theorem callbackParts_of_plain (uuids : Uuids) (query : AuthorizeQuery) (n : Nat) (state : Plain query.state)
    (codeChallenge : Plain query.codeChallenge) (redirectUri : Plain query.redirectUri) :
    callbackParts (['|'].intercalate (stateParts query (uuids.text n))) =
      [query.state, query.codeChallenge, query.redirectUri, uuids.text n] := by
  have nonce := uuids.plain n
  have apart : ∀ part ∈ stateParts query (uuids.text n), '|' ∉ part := by
    simp only [stateParts, List.forall_mem_cons]
    exact ⟨state.1, codeChallenge.1, redirectUri.1, nonce.1, fun _ no => absurd no List.not_mem_nil⟩
  rw [callbackParts, List.splitOn_intercalate '|' apart (List.cons_ne_nil _ _)]
  simp only [stateParts, List.map_cons, List.map_nil, (plain_iff state.1).mp state,
    (plain_iff codeChallenge.1).mp codeChallenge, (plain_iff redirectUri.1).mp redirectUri, (plain_iff nonce.1).mp nonce]

/-- An authorize request that is accepted has passed the test that the callback makes again. -/
theorem authorize_toGoogle {config : Config} {url : List Char} (accepted : authorize lib config query nonce = .toGoogle url) :
    redirectUriAllowed lib config query.redirectUri = some true ∧
      url = location (buildGoogleAuthUrl config (gatewayState query nonce) nonce.toList) := by
  rw [authorize] at accepted
  split at accepted
  · cases accepted
  split at accepted
  · cases accepted
  split at accepted
  · cases accepted
  · cases accepted
  · rename_i permitted
    exact ⟨permitted, (Outcome.toGoogle.inj accepted).symm⟩

theorem get_insert_of_ne {claims : Dict Json} {key other : String} (value : Json) (differs : key ≠ other) :
    Dict.get (claims.insert key value) other = claims.get other := by
  rw [Dict.get, Std.ExtTreeMap.getElem?_insert, if_neg fun same => differs (Std.LawfulEqCmp.eq_of_compare same), Dict.get]

/-- A user that Google has verified is taken with the nonce that is expected, and with no other. -/
theorem Visit.Verified.exchange {config : Config} (verified : visit.Verified lib config) (echoed : Json) (nonce : String) :
    (echoed ≠ .str nonce → exchangeGoogleCode lib (visit.google echoed visit.code) nonce = .refused) ∧
    (echoed = .str nonce → ∃ email, exchangeGoogleCode lib (visit.google echoed visit.code) nonce = .email email ∧
      isUserAllowed lib config email = true) := by
  have atNonce : Dict.get (visit.claims.insert "nonce" echoed) "nonce" = echoed := by
    rw [Dict.get, Std.ExtTreeMap.getElem?_insert_self]
    rfl
  obtain ⟨email, given, atEmail, allowed⟩ := verified.email
  have isVerified := verified.verified
  rw [Visit.google, exchangeGoogleCode, atNonce, get_insert_of_ne echoed (by decide), get_insert_of_ne echoed (by decide),
    atEmail, isVerified]
  constructor
  · intro differs
    rw [if_pos differs]
  · intro same
    refine ⟨lib.lower email, ?_, allowed⟩
    rw [if_neg (not_not.mpr same), Json.truthy, decide_eq_true given]
    rfl

/-- What comes back was plain, and the redirect URI was bare. -/
theorem RoundTrips.survives {n : Nat} (trips : RoundTrips lib uuids s query (uuids.text n) visit) : Survives query := by
  obtain ⟨url, state, accepted, found, answers⟩ := trips
  obtain ⟨-, rfl⟩ := authorize_toGoogle accepted
  obtain rfl := Option.some.inj ((readParameter_state uuids s.config query n).symm.trans found)
  obtain ⟨t, _, answered, -, taken⟩ := answers (.str (uuids.text n))
  obtain ⟨target, code, entry, rfl, -, challenge, uri, params⟩ := taken rfl
  obtain ⟨originalState, _, _, _, split, rfl, rfl, rfl⟩ := callback_toClient answered
  rw [String.toList_ofList] at split
  obtain ⟨apart, parts⟩ := callbackParts_eq query rfl split
  simp only [stateParts, List.map_cons, List.map_nil, List.cons.injEq, and_true] at parts
  obtain ⟨stateRead, challengeRead, uriRead, -⟩ := parts
  simp only [stateParts, List.forall_mem_cons] at apart
  rw [uri] at uriRead params
  have bare : '?' ∉ query.redirectUri.toList ∧ '#' ∉ query.redirectUri.toList := by
    by_contra no
    exact parseQuery_destination_ne no params
  rw [parseQuery_destination bare] at params
  have state : originalState = query.state := by
    have last := (List.cons.inj (List.cons.inj (List.append_cancel_left params)).2).1
    exact String.toList_inj.mp (Prod.mk.inj last).2
  exact ⟨(plain_iff apart.1).mpr (stateRead.symm.trans state),
    (plain_iff apart.2.1).mpr (challengeRead.symm.trans challenge), (plain_iff apart.2.2.1).mpr uriRead.symm, bare⟩

theorem Survives.roundTrips (survives : Survives query) {n : Nat} {url : List Char}
    (accepted : authorize lib s.config query (uuids.text n) = .toGoogle url) (verified : visit.Verified lib s.config) :
    RoundTrips lib uuids s query (uuids.text n) visit := by
  obtain ⟨permitted, rfl⟩ := authorize_toGoogle accepted
  refine ⟨_, _, accepted, readParameter_state uuids s.config query n, fun echoed => ?_⟩
  have parts := callbackParts_of_plain uuids query n survives.state survives.codeChallenge survives.redirectUri
  generalize ['|'].intercalate (stateParts query (uuids.text n)) = carried at parts
  have given : ¬ (visit.code = "" ∨ String.ofList carried = "") := by
    rintro (no | no)
    · exact verified.code no
    · rw [String.ofList_eq_empty_iff.mp no] at parts
      cases (List.cons.inj parts).2
  have answered : callback lib uuids s { code := visit.code, state := .ofList carried } (visit.google echoed) visit.clock =
      _ := callback_of_parts rfl given (by rw [String.toList_ofList]; exact parts)
  obtain ⟨refused, taken⟩ := verified.exchange echoed (uuids.text n)
  rw [permitted] at answered
  dsimp only at answered
  by_cases same : echoed = .str (uuids.text n)
  · obtain ⟨email, identity, allowed⟩ := taken same
    rw [identity] at answered
    dsimp only at answered
    rw [allowed] at answered
    refine ⟨_, _, answered, fun no => absurd same no, fun _ => ⟨_, _, _, rfl, ?_, rfl, rfl, ?_⟩⟩
    · exact Std.ExtTreeMap.getElem?_insert_self
    · exact parseQuery_destination survives.bare
  · rw [refused same] at answered
    exact ⟨_, _, answered, fun _ => rfl, fun no => absurd no same⟩

/-- What is asked for survives the way over the provider if and only if its values are plain and
the redirect URI is bare. -/
theorem authorize_roundTrips_iff {n : Nat} {url : List Char}
    (accepted : authorize lib s.config query (uuids.text n) = .toGoogle url) (verified : visit.Verified lib s.config) :
    RoundTrips lib uuids s query (uuids.text n) visit ↔ Survives query :=
  ⟨RoundTrips.survives, fun survives => survives.roundTrips accepted verified⟩

private def asking (redirectUri : String) : AuthorizeQuery where
  redirectUri := redirectUri
  state := "xyz"
  codeChallenge := "S256(v)"
  codeChallengeMethod := "S256"

private def ready : State := { config := sampleConfig }

private def login : Visit where
  code := "google"
  claims := ({} : Dict Json).insertMany [("email", .str "alice@example.com"), ("email_verified", .bool true)]
  clock := ⟨fun _ => 10, 10, 10⟩

private theorem login_verified : login.Verified sampleLibrary ready.config where
  code := by decide
  email := ⟨"alice@example.com", by decide, by decide +kernel, by decide +kernel⟩
  verified := by decide +kernel

private theorem asking_accepted {redirectUri : String} (given : redirectUri ≠ "") (nonce : String) :
    ∃ url, authorize sampleLibrary ready.config (asking redirectUri) nonce = .toGoogle url := by
  have permitted : redirectUriAllowed sampleLibrary ready.config redirectUri = some true := by
    rw [redirectUriAllowed, if_neg given]
    rfl
  have unfolded : ∀ query, query.codeChallenge ≠ "" → sampleLibrary.upper query.codeChallengeMethod = "S256" →
      redirectUriAllowed sampleLibrary ready.config query.redirectUri = some true →
        authorize sampleLibrary ready.config query nonce =
          .toGoogle (location (buildGoogleAuthUrl ready.config (gatewayState query nonce) nonce.toList)) := by
    intro query challenge method permitted
    rw [authorize, if_neg challenge, if_neg (not_not.mpr method), permitted]
  exact ⟨_, unfolded (asking redirectUri) (by decide : "S256(v)" ≠ "") rfl permitted⟩

theorem authorize_roundTrips_iff_plain :
    RoundTrips sampleLibrary sampleUuids ready (asking "https://client.example/cb") (sampleUuids.text 0) login := by
  obtain ⟨url, accepted⟩ := asking_accepted (by decide : "https://client.example/cb" ≠ "") (sampleUuids.text 0)
  refine (authorize_roundTrips_iff accepted login_verified).mpr ⟨⟨?_, ?_⟩, ⟨?_, ?_⟩, ⟨?_, ?_⟩, ?_, ?_⟩ <;> decide +kernel

/-- A redirect URI with a query is accepted, and the code gets lost in the last of its parameters. -/
theorem query_not_preserved : ∃ lib uuids s query visit n url, authorize lib s.config query (uuids.text n) = .toGoogle url ∧
    visit.Verified lib s.config ∧ ¬ RoundTrips lib uuids s query (uuids.text n) visit := by
  obtain ⟨url, accepted⟩ := asking_accepted (by decide : "https://client.example/cb?app=1" ≠ "") (sampleUuids.text 0)
  refine ⟨sampleLibrary, sampleUuids, ready, _, login, 0, url, accepted, login_verified, fun trips => ?_⟩
  exact absurd trips.survives.bare.1 (by decide +kernel)

end MetadataGraph.Gateway
