import MetadataGraph.Gateway.Main
import MetadataGraph.Lib.Urls

namespace MetadataGraph.Gateway

open UrlCoding Urls

/-- The host of a redirect URI is what `urlparse` reads. -/
def Parses (lib : Library) (p : Texts) : Prop :=
  ∀ uri, lib.hostname uri = (Urls.hostname p uri.toList).map String.ofList

/-- The list of origins is set, and each of them is `scheme://host[:port]`. -/
structure Configured (config : Config) : Prop where
  some : config.allowedRedirectOrigins ≠ []
  origins : ∀ origin ∈ config.allowedRedirectOrigins, IsOrigin redirectSafe origin.toList

/-- A place that the code may be sent to: the machine of the browser, or one on the list. -/
def Listed (b : Browser) (base : Target) (config : Config) (target : Target) : Prop :=
  target.host ∈ loopbackHosts ∨ ∃ origin ∈ config.allowedRedirectOrigins, b.resolve base origin.toList = some target

/-- Wherever a browser connects to that follows the location, the code may be sent there. -/
def Confined (b : Browser) (base : Target) (config : Config) (url : List Char) : Prop :=
  ∀ target, b.resolve base url = some target → Listed b base config target

variable {lib : Library} {config : Config} {p : Texts} {uri : String}

theorem redirectSafe_keepsSigns : KeepsSigns redirectSafe := by
  have each : redirectSafe.all (fun c => c.toNat < 0x80 ∧ controlOrSpace c = false ∧ c ≠ '\\') = true := by decide
  have signs : [':', '/', '?', '#', '@', '[', ']', '+'].all (· ∈ redirectSafe) = true := by decide
  have kept : ∀ c ∈ redirectSafe, c.toNat < 0x80 ∧ controlOrSpace c = false ∧ c ≠ '\\' := fun c member =>
    of_decide_eq_true (List.all_eq_true.mp each c member)
  exact {
    ascii := fun c member => (kept c member).1
    signs := fun c member => of_decide_eq_true (List.all_eq_true.mp signs c member)
    visible := fun c member => (kept c member).2.1
    backslash := fun member => (kept _ member).2.2 rfl }

/-- The final redirect goes to a redirect URI that is allowed. -/
theorem callback_redirects {uuids : Uuids} {s t : State} {query : CallbackQuery} {google : String → GoogleAnswer}
    {clock : Moments} {url : List Char} {code : String} {entry : AuthCode}
    (answered : callback lib uuids s query google clock = (t, .toClient url code entry)) :
    redirectUriAllowed lib s.config entry.redirectUri = some true ∧
      ∃ originalState, url = location (destination entry.redirectUri code originalState) := by
  rw [callback] at answered
  split at answered
  · cases answered
  split at answered
  · cases answered
  split at answered
  · rename_i originalState codeChallenge redirectUri nonce _
    split at answered
    · cases answered
    · cases answered
    · rename_i allowed
      split at answered
      · cases answered
      · cases answered
      · dsimp only at answered
        split at answered
        · cases answered
        · cases answered
          exact ⟨allowed, originalState, rfl⟩
  · cases answered

/-- What comes before the slashes at the end of a text. -/
theorem rstripSlashes_spec (text : String) : ∃ slashes : List Char,
    text.toList = (rstripSlashes text).toList ++ slashes ∧ ∀ c ∈ slashes, c = '/' := by
  refine ⟨(text.toList.reverse.takeWhile (· = '/')).reverse, ?_, fun c member => ?_⟩
  · rw [rstripSlashes, String.toList_ofList, ← List.reverse_append, List.takeWhile_append_dropWhile, List.reverse_reverse]
  · have slash := List.mem_takeWhile_imp (List.mem_reverse.mp member)
    exact of_decide_eq_true slash

/-- What an allowed redirect URI is: one with a loopback name, or an origin of the list with nothing or
a slash behind it. -/
theorem allowed_cases (parses : Parses lib p) (configured : Configured config)
    (allowed : redirectUriAllowed lib config uri = some true) :
    (∃ name ∈ loopbackNames, Urls.hostname p uri.toList = some name) ∨
      ∃ origin ∈ config.allowedRedirectOrigins, ∃ tail : List Char, uri.toList = origin.toList ++ tail ∧
        ∀ c ∈ tail.head?, c = '/' := by
  rw [redirectUriAllowed] at allowed
  split at allowed
  · cases allowed
  obtain ⟨loopback, read, permitted⟩ := Option.map_eq_some_iff.mp allowed
  rw [isLoopbackRedirect, parses, Option.map_map] at read
  obtain ⟨name, host, known⟩ := Option.map_eq_some_iff.mp read
  have nonempty : config.allowedRedirectOrigins.isEmpty = false := List.isEmpty_eq_false_iff.mpr configured.some
  rw [nonempty, Bool.or_false, Bool.or_eq_true] at permitted
  rcases permitted with loops | listed
  · refine .inl ⟨name, ?_, host⟩
    rw [loops, Function.comp_apply, List.contains_iff_mem] at known
    have spelled : loopbackNames.map String.ofList = ["127.0.0.1", "::1", "localhost"] := by decide
    rw [← spelled] at known
    obtain ⟨name', member, same⟩ := List.mem_map.mp known
    rw [← String.ofList_injective same]
    exact member
  · obtain ⟨origin, member, begins⟩ := List.any_eq_true.mp listed
    refine .inr ⟨origin, member, ?_⟩
    rw [Bool.or_eq_true, decide_eq_true_eq] at begins
    rcases begins with bare | longer
    · obtain ⟨slashes, split, all⟩ := rstripSlashes_spec uri
      rw [bare] at split
      exact ⟨slashes, split, fun c member => all c (List.mem_of_mem_head? member)⟩
    · obtain ⟨tail, split⟩ := List.isPrefixOf_iff_prefix.mp longer
      rw [String.toList_append, List.append_assoc] at split
      exact ⟨_, split.symm, fun c member => (Option.mem_some.mp member).symm⟩

/-- A browser that follows the redirect to an allowed redirect URI connects to a machine that the code
may be sent to if and only if it reads the URI as the gateway does, or the gateway is such a machine
itself. -/
theorem redirect_confined_iff (b : Browser) (base : Target) (web : defaultPort base.scheme ≠ none) (parses : Parses lib p)
    (configured : Configured config) (allowed : redirectUriAllowed lib config uri = some true) (code originalState : String) :
    Confined b base config (location (destination uri code originalState)) ↔
      absolute base.scheme uri.toList = true ∨ Listed b base config base := by
  rcases allowed_cases parses configured allowed with ⟨name, known, host⟩ | ⟨origin, member, tail, split, slashes⟩
  · cases whole : absolute base.scheme uri.toList with
    | true =>
      refine iff_of_true (fun target resolved => .inl ?_) (.inl rfl)
      exact redirectSafe_keepsSigns.resolve_loopback b known host whole resolved
    | false =>
      have back := redirectSafe_keepsSigns.resolve_of_not_absolute b web whole
        (urlencode [("code".toList, code.toList), ("state".toList, originalState.toList)])
      constructor
      · intro confined
        exact .inr (confined base back)
      · rintro (no | listed) target resolved
        · cases no
        · have same : base = target := Option.some.inj (back.symm.trans resolved)
          exact same ▸ listed
  · have is := configured.origins origin member
    refine iff_of_true (fun target resolved => .inr ⟨origin, member, ?_⟩) (.inl ?_)
    · rw [← resolved, location, destination, split]
      cases tail with
      | nil =>
        rw [List.append_nil]
        exact (redirectSafe_keepsSigns.resolve_origin b is (by decide) _).symm
      | cons c tail =>
        rw [slashes c rfl, List.append_assoc, List.cons_append]
        exact (redirectSafe_keepsSigns.resolve_origin b is (by decide) _).symm
    · rw [split]
      exact is.absolute base.scheme slashes

private def sampleTexts : Texts where
  lower text := text.map asciiLower
  address text := text.contains ':'
  normal _ := true
  lower_loopback := fun _ same => same

/-- A host of letters, digits, dots and hyphens, or the address of the machine itself. -/
private def sampleHost (text : List Char) : Option (List Char) :=
  if text.all (fun c => c.isAlphanum || c = '.' || c = '-') || text = ['[', ':', ':', '1', ']'] then some (text.map asciiLower) else none

private theorem sampleHost_cases {text host : List Char} (read : sampleHost text = some host) :
    host = text.map asciiLower ∧
      ((∀ c ∈ text, (c.isAlphanum || c = '.' || c = '-') = true) ∨ text = ['[', ':', ':', '1', ']']) := by
  rw [sampleHost] at read
  split at read
  · rename_i shape
    rw [Bool.or_eq_true, List.all_eq_true, decide_eq_true_eq] at shape
    exact ⟨(Option.some.inj read).symm, shape⟩
  · cases read

/-- Only a letter is the lower case of another character. -/
private theorem eq_of_asciiLower {c d : Char} (lower : asciiLower c = d) (sign : d.toNat < 97) : c = d := by
  have letters : ∀ n : Fin 26, 97 ≤ (Char.ofNat (n + 65 + 32)).toNat := by decide
  rw [asciiLower] at lower
  split at lower
  · have letter := letters ⟨c.toNat - 65, by omega⟩
    rw [show c.toNat - 65 + 65 + 32 = c.toNat + 32 by omega, lower] at letter
    omega
  · exact lower

private theorem sampleHost_loopback {text name host : List Char} (known : name ∈ loopbackNames)
    (spelled : text.map asciiLower = name ∨ text.map asciiLower = '[' :: (name ++ [']'])) (read : sampleHost text = some host) :
    host ∈ loopbackHosts := by
  obtain ⟨rfl, plain | rfl⟩ := sampleHost_cases read
  · have absent : ∀ sign : Char, sign.toNat < 97 → (sign.isAlphanum || sign = '.' || sign = '-') = false →
        sign ∉ text.map asciiLower := by
      intro sign small special member
      obtain ⟨c, inside, lower⟩ := List.mem_map.mp member
      have same := eq_of_asciiLower lower small
      exact Bool.false_ne_true (special.symm.trans (same ▸ plain c inside))
    rcases spelled with bare | bracketed
    · rw [bare]
      simp only [loopbackNames, List.mem_cons, List.not_mem_nil, or_false] at known
      rcases known with rfl | rfl | rfl
      · decide
      · exact absurd (bare ▸ by decide) (absent ':' (by decide) (by decide))
      · decide
    · exact absurd (bracketed ▸ List.mem_cons_self) (absent '[' (by decide) (by decide))
  · decide

private theorem sampleHost_bracketed {text host : List Char} (read : sampleHost text = some host) (bracket : '[' ∈ text) :
    text = ['[', ':', ':', '1', ']'] := by
  rcases (sampleHost_cases read).2 with plain | address
  · exact absurd (plain '[' bracket) (by decide)
  · exact address

private def sampleBrowser : Browser where
  host := sampleHost
  bracket_first := by
    intro before after host read
    have whole := sampleHost_bracketed read (List.mem_append_right _ List.mem_cons_self)
    cases before with
    | nil => rfl
    | cons c before =>
      have later : '[' ∈ [':', ':', '1', ']'] :=
        (List.cons.inj whole).2 ▸ List.mem_append_right _ List.mem_cons_self
      exact absurd later (by decide)
  bracket_closed := by
    intro inner host read
    have whole := sampleHost_bracketed read List.mem_cons_self
    rw [(List.cons.inj whole).2]
    decide
  bracket_last := by
    intro inner after host read
    have whole := (List.cons.inj (sampleHost_bracketed read List.mem_cons_self)).2
    have unique : ∀ inner after : List Char, inner ++ ']' :: after = [':', ':', '1', ']'] → after = [] := by
      intro inner after split
      have last : ']' ∉ [':', ':', '1'] := by decide
      rcases List.eq_nil_or_concat after with empty | ⟨more, c, rfl⟩
      · exact empty
      · have ends : inner ++ ']' :: more = [':', ':', '1'] := by
          have all : (inner ++ ']' :: more) ++ [c] = [':', ':', '1'] ++ [']'] := by
            rw [List.append_assoc, List.cons_append, ← List.concat_eq_append]
            exact split
          exact List.append_inj_left' all rfl
        exact absurd (ends ▸ List.mem_append_right _ List.mem_cons_self) last
    exact unique inner after whole
  noControl := by
    intro before after a c byte host read
    have percent : '%' ∈ before ++ '%' :: a :: c :: after := List.mem_append_right _ List.mem_cons_self
    rcases (sampleHost_cases read).2 with plain | address
    · exact absurd (plain '%' percent) (by decide)
    · rw [address] at percent
      exact absurd percent (by decide)
  loopback := sampleHost_loopback

private def sampleRedirects : Library := { sampleLibrary with
  hostname := fun uri => (Urls.hostname sampleTexts uri.toList).map String.ofList }

private def listingConfig : Config := { sampleConfig with allowedRedirectOrigins := ["https://app.example"] }

/-- The gateway, as the browser has called it. -/
private def sampleGateway : Target := ⟨"https".toList, "gateway.example".toList, 443⟩

private theorem sampleRedirects_facts :
    splitScheme "https://app.example".toList = some ("https".toList, '/' :: '/' :: 'a' :: "pp.example".toList) ∧
    redirectUriAllowed sampleRedirects listingConfig "http://127.0.0.1:8765/callback" = some true ∧
    absolute sampleGateway.scheme "http://127.0.0.1:8765/callback".toList = true ∧
    redirectUriAllowed sampleRedirects listingConfig " https://localhost/cb" = some true ∧
    sampleBrowser.resolve sampleGateway (location (destination " https://localhost/cb" "code" "state")) = some sampleGateway ∧
    sampleBrowser.resolve sampleGateway "https://app.example".toList ≠ some sampleGateway := by
  decide +kernel

private theorem listingConfig_configured : Configured listingConfig where
  some := List.cons_ne_nil _ _
  origins := by
    intro origin member
    rw [List.mem_singleton.mp member]
    have plain : ('a' :: "pp.example".toList).all unreserved = true := by decide
    exact ⟨"https".toList, 'a', "pp.example".toList, sampleRedirects_facts.1, by decide, fun d inside =>
      .inl (List.all_eq_true.mp plain d inside)⟩

theorem redirect_confined_local : Confined sampleBrowser sampleGateway listingConfig
    (location (destination "http://127.0.0.1:8765/callback" "code" "state")) :=
  (redirect_confined_iff sampleBrowser sampleGateway (by decide) (fun _ => rfl : Parses sampleRedirects sampleTexts)
    listingConfig_configured sampleRedirects_facts.2.1 "code" "state").mpr (.inl sampleRedirects_facts.2.2.1)

/-- A space before the scheme is dropped by the gateway and escaped in the location. -/
theorem space_leads_back : ¬ ∀ (lib : Library) (p : Texts) (b : Browser) (base : Target) (config : Config) (uri code state : String),
    Parses lib p → Configured config → redirectUriAllowed lib config uri = some true →
      Confined b base config (location (destination uri code state)) := by
  intro confined
  obtain ⟨-, -, -, allowed, back, elsewhere⟩ := sampleRedirects_facts
  have leads := confined sampleRedirects sampleTexts sampleBrowser sampleGateway listingConfig " https://localhost/cb" "code"
    "state" (fun _ => rfl) listingConfig_configured allowed sampleGateway back
  rcases leads with host | ⟨origin, member, same⟩
  · exact absurd host (by decide)
  · rw [List.mem_singleton.mp member] at same
    exact elsewhere same

end MetadataGraph.Gateway
