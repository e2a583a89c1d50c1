import MetadataGraph.Lib.Executions
import MetadataGraph.Events.Models
import Mathlib.Algebra.Field.Rat

namespace MetadataGraph.Events

open Runs

inductive Method where
  | post | get
  deriving DecidableEq

structure Request where
  method : Method
  url : String
  headers : List (String × String)
  json : Option Json

/-- What the worker looks at in a response of the client. -/
structure Response where
  statusCode : Nat
  isRedirect : Bool := false
  location : Option String := none
  text : String := ""

/-- What the client returns or raises. -/
inductive Answer where
  | response (response : Response)
  | tooManyRedirects
  | timeout
  | requestError (text : String)
  | other (text : String)

/-- What an attempt meets: the safety check at each hop, the client, and `urljoin`, which may raise. -/
structure Surroundings where
  isSafeUrl : Nat → String → Bool
  answer : Nat → Request → Answer
  urljoin : String → String → Except String String

/-- How `_post_with_redirect_ssrf_check` ends. -/
inductive Posted where
  | answered (answer : Answer)
  | blocked (message : String)

def maxRedirects : Nat := 10

/-- The headers of a redirected GET. -/
def redirectHeaders (headers : List (String × String)) : List (String × String) :=
  headers.filter fun header => header.1.toLower ∉ ["content-type", "content-length", "transfer-encoding"]

def makeRequest (payload : Json) (headers : List (String × String)) (url : String) : Method → Request
  | .post => { method := .post, url, headers, json := some payload }
  | .get => { method := .get, url, headers := redirectHeaders headers, json := none }

/-- The loop over the hops that are left: the requests that it issues, and how it ends. -/
def postHops (env : Surroundings) (payload : Json) (headers : List (String × String)) :
    Nat → Nat → Method → String → List Request × Posted
  | 0, _, _, _ => ([], .answered .tooManyRedirects)
  | left + 1, hop, method, url =>
    let request := makeRequest payload headers url method
    match env.answer hop request with
    | .response response =>
      if response.isRedirect then match env.urljoin url (response.location.getD "") with
        | .error text => ([request], .answered (.other text))
        | .ok next =>
          if env.isSafeUrl (hop + 1) next then
            let method := if response.statusCode ∈ [301, 302, 303] then .get else method
            let later := postHops env payload headers left (hop + 1) method next
            (request :: later.1, later.2)
          else ([request], .blocked ("Blocked redirect to restricted address: " ++ next))
      else ([request], .answered (.response response))
    | answer => ([request], .answered answer)

def postWithRedirectSsrfCheck (env : Surroundings) (url : String) (payload : Json)
    (headers : List (String × String)) : List Request × Posted :=
  postHops env payload headers maxRedirects 0 .post url

inductive DeliveryStatus where
  | success | failed | retrying | dropped
  deriving DecidableEq

/-- What the worker reports of an attempt; the time of a delivery is left out. -/
structure DeliveryResult where
  eventId : String
  subscriptionId : String
  webhookUrl : String
  status : DeliveryStatus
  attempt : Nat
  maxAttempts : Nat
  statusCode : Option Nat := none
  errorMessage : Option String := none

/-- An item of the queue. `delivery` numbers the calls of `enqueue`. -/
structure DeliveryItem where
  event : Event
  webhookUrl : String
  attempt : Nat := 1
  delivery : Nat

/-- The settings of the worker. No times between retries stand for the default ones. Every caller allows an
attempt, and no time that `sleep` refuses. -/
structure DeliverySettings where
  maxAttempts : Nat := 3
  positive : 0 < maxAttempts := by decide
  backoffTimes : List ℚ≥0 := [1 / 2, 2, 5]

/-- What an attempt does: the result that it reports, the time that it waits and the item that it puts
back, and the requests that it issues, if it posts. -/
structure Attempt where
  result : DeliveryResult
  retry : Option (ℚ≥0 × DeliveryItem) := none
  requests : Option (List Request) := none

namespace DeliverySettings

variable (settings : DeliverySettings)

def result (item : DeliveryItem) (status : DeliveryStatus) (statusCode : Option Nat) (errorMessage : Option String) :
    DeliveryResult where
  eventId := item.event.eventId
  subscriptionId := (item.event.subscription.map SubscriptionInfo.id).getD ""
  webhookUrl := item.webhookUrl
  status
  attempt := item.attempt
  maxAttempts := settings.maxAttempts
  statusCode
  errorMessage

def backoffTime (attempt : Nat) : ℚ≥0 :=
  let times := if settings.backoffTimes = [] then [1 / 2, 2, 5] else settings.backoffTimes
  times.getD (min (attempt - 1) (times.length - 1)) 0

/-- `_handle_failure`. -/
def handleFailure (item : DeliveryItem) (requests : List Request) (statusCode : Option Nat) (errorMessage : String) :
    Attempt :=
  if item.attempt < settings.maxAttempts then
    { result := settings.result item .retrying statusCode (some errorMessage)
      retry := some (settings.backoffTime item.attempt, { item with attempt := item.attempt + 1 })
      requests := some requests }
  else { result := settings.result item .dropped statusCode (some errorMessage), requests := some requests }

def headers (event : Event) : List (String × String) := [
  ("Content-Type", "application/json"), ("User-Agent", "CommunityGraph-Events/1.0"), ("X-Event-ID", event.eventId),
  ("X-Event-Type", eventTypeValue event.eventType)]

/-- `_deliver`. -/
def deliver (env : Surroundings) (item : DeliveryItem) : Attempt :=
  if env.isSafeUrl 0 item.webhookUrl then
    let posted := postWithRedirectSsrfCheck env item.webhookUrl item.event.toWebhookPayload (headers item.event)
    let dropped (message : String) : Attempt :=
      { result := settings.result item .dropped none (some message), requests := some posted.1 }
    match posted.2 with
    | .answered (.response response) =>
      if 200 ≤ response.statusCode ∧ response.statusCode < 300 then
        { result := settings.result item .success (some response.statusCode) none, requests := some posted.1 }
      else
        let text := String.ofList (response.text.toList.take 200)
        settings.handleFailure item posted.1 (some response.statusCode) (s!"HTTP {response.statusCode}: " ++ text)
    | .blocked message => dropped message
    | .answered .tooManyRedirects => dropped "Exceeded redirect limit"
    | .answered .timeout => settings.handleFailure item posted.1 none "Request timed out"
    | .answered (.requestError text) => settings.handleFailure item posted.1 none text
    | .answered (.other text) => settings.handleFailure item posted.1 none ("Unexpected error: " ++ text)
  else { result := settings.result item .dropped none (some "Blocked attempt to send webhook to restricted IP address") }

end DeliverySettings

/-- The worker: its queue, and how many deliveries were enqueued. -/
structure DeliveryWorker where
  queue : List DeliveryItem := []
  enqueued : Nat := 0

/-- A caller enqueues an event, or the worker takes the next item. -/
inductive DeliveryEvent where
  | enqueue (event : Event) (webhookUrl : String)
  | work (env : Surroundings)

inductive DeliveryOutput where
  | enqueued (delivery : Nat)
  | worked (item : DeliveryItem) (attempt : Attempt)
  | idle

/-- A step of the worker while it runs. An attempt is one step, since the worker sees the queue again
only when it has put back its item. -/
def DeliveryWorker.step (settings : DeliverySettings) (w : DeliveryWorker) :
    DeliveryEvent → Option (DeliveryWorker × DeliveryOutput)
  | .enqueue event webhookUrl =>
    let item : DeliveryItem := { event, webhookUrl, delivery := w.enqueued }
    some ({ queue := w.queue ++ [item], enqueued := w.enqueued + 1 }, .enqueued w.enqueued)
  | .work env => match w.queue with
    | [] => some (w, .idle)
    | item :: queue =>
      let attempt := settings.deliver env item
      some ({ w with queue := queue ++ (attempt.retry.map Prod.snd).toList }, .worked item attempt)

/-- A status after which a delivery is not tried again. -/
def DeliveryStatus.Final (status : DeliveryStatus) : Prop := status = .success ∨ status = .dropped

section

variable {settings : DeliverySettings} {env : Surroundings} {item : DeliveryItem} {w w' : DeliveryWorker}

/-- An attempt ends the delivery, or puts it back for the next attempt while there is one. -/
structure Attempts (settings : DeliverySettings) (item : DeliveryItem) (attempt : Attempt) : Prop where
  numbered : attempt.result.attempt = item.attempt
  named : attempt.result.eventId = item.event.eventId ∧ attempt.result.webhookUrl = item.webhookUrl
  goesOn : (attempt.result.status.Final ∧ attempt.retry = none) ∨
    (attempt.result.status = .retrying ∧ item.attempt < settings.maxAttempts ∧
      ∃ time, attempt.retry = some (time, { item with attempt := item.attempt + 1 }))

theorem handleFailure_attempts (requests : List Request) (statusCode : Option Nat) (errorMessage : String) :
    Attempts settings item (settings.handleFailure item requests statusCode errorMessage) := by
  rw [DeliverySettings.handleFailure]
  split
  · rename_i more
    exact ⟨rfl, ⟨rfl, rfl⟩, .inr ⟨rfl, more, _, rfl⟩⟩
  · exact ⟨rfl, ⟨rfl, rfl⟩, .inl ⟨.inr rfl, rfl⟩⟩

theorem deliver_attempts (settings : DeliverySettings) (env : Surroundings) (item : DeliveryItem) :
    Attempts settings item (settings.deliver env item) := by
  rw [DeliverySettings.deliver]
  split
  · dsimp only
    split
    · split
      · exact ⟨rfl, ⟨rfl, rfl⟩, .inl ⟨.inl rfl, rfl⟩⟩
      · exact handleFailure_attempts ..
    · exact ⟨rfl, ⟨rfl, rfl⟩, .inl ⟨.inr rfl, rfl⟩⟩
    · exact ⟨rfl, ⟨rfl, rfl⟩, .inl ⟨.inr rfl, rfl⟩⟩
    · exact handleFailure_attempts ..
    · exact handleFailure_attempts ..
    · exact handleFailure_attempts ..
  · exact ⟨rfl, ⟨rfl, rfl⟩, .inl ⟨.inr rfl, rfl⟩⟩

/-- Requests, each to a URL that was found safe at its hop. -/
def Checked (env : Surroundings) (hop : Nat) (requests : List Request) : Prop :=
  ∀ (i : Nat) request, requests[i]? = some request → env.isSafeUrl (hop + i) request.url = true

theorem Checked.cons {hop : Nat} {request : Request} {later : List Request}
    (safe : env.isSafeUrl hop request.url = true) (checked : Checked env (hop + 1) later) :
    Checked env hop (request :: later) := by
  intro i other here
  cases i with
  | zero =>
    cases here
    exact safe
  | succ i =>
    have shifted : hop + (i + 1) = hop + 1 + i := by omega
    rw [shifted]
    exact checked i other here

/-- The requests of a chain are no more than the hops that were left, and all of them are checked. -/
theorem postHops_guarded (payload : Json) (headers : List (String × String)) (left hop : Nat) (method : Method)
    {url : String} (safe : env.isSafeUrl hop url = true) :
    (postHops env payload headers left hop method url).1.length ≤ left ∧
      Checked env hop (postHops env payload headers left hop method url).1 := by
  induction left generalizing hop method url with
  | zero => exact ⟨Nat.le_refl 0, fun _ _ no => (nomatch no)⟩
  | succ left ih =>
    have named : (makeRequest payload headers url method).url = url := by cases method <;> rfl
    have first : env.isSafeUrl hop (makeRequest payload headers url method).url = true := by
      rw [named]
      exact safe
    have alone : Checked env hop [makeRequest payload headers url method] :=
      .cons first fun _ _ no => (nomatch no)
    have one : [makeRequest payload headers url method].length ≤ left + 1 := Nat.le_add_left 1 left
    rw [postHops]
    dsimp only
    split
    · split
      · split
        · exact ⟨one, alone⟩
        · split
          · rename_i next _ nextSafe
            obtain ⟨fewer, later⟩ := ih (hop + 1) _ nextSafe
            exact ⟨Nat.succ_le_succ fewer, .cons first later⟩
          · exact ⟨one, alone⟩
      · exact ⟨one, alone⟩
    · exact ⟨one, alone⟩

/-- The requests of an attempt are no more than the hops that are allowed, and all of them are checked. -/
structure Guarded (env : Surroundings) (item : DeliveryItem) (attempt : Attempt) : Prop where
  refused : env.isSafeUrl 0 item.webhookUrl = false → attempt.requests = none
  limited : ∀ requests, attempt.requests = some requests → requests.length ≤ maxRedirects
  checked : ∀ requests, attempt.requests = some requests → Checked env 0 requests

theorem deliver_guarded (settings : DeliverySettings) (env : Surroundings) (item : DeliveryItem) :
    Guarded env item (settings.deliver env item) := by
  by_cases safe : env.isSafeUrl 0 item.webhookUrl = true
  · have posted : (settings.deliver env item).requests = some (postWithRedirectSsrfCheck env item.webhookUrl
        item.event.toWebhookPayload (DeliverySettings.headers item.event)).1 := by
      rw [DeliverySettings.deliver, if_pos safe]
      dsimp only
      split
      · split
        · rfl
        · rw [DeliverySettings.handleFailure]
          split <;> rfl
      · rfl
      · rfl
      · rw [DeliverySettings.handleFailure]
        split <;> rfl
      · rw [DeliverySettings.handleFailure]
        split <;> rfl
      · rw [DeliverySettings.handleFailure]
        split <;> rfl
    obtain ⟨limited, checked⟩ := postHops_guarded item.event.toWebhookPayload (DeliverySettings.headers item.event)
      maxRedirects 0 .post safe
    refine ⟨fun no => absurd safe (by rw [no]; exact Bool.false_ne_true), fun requests same => ?_, fun requests same => ?_⟩
    · obtain rfl := Option.some.inj (posted.symm.trans same)
      exact limited
    · obtain rfl := Option.some.inj (posted.symm.trans same)
      exact checked
  · have unposted : (settings.deliver env item).requests = none := by
      rw [DeliverySettings.deliver, if_neg safe]
    refine ⟨fun _ => unposted, fun requests same => ?_, fun requests same => ?_⟩
    · cases unposted.symm.trans same
    · cases unposted.symm.trans same

end

/-- The attempts of a delivery, in their order. -/
def attemptsOf (d : Nat) (history : List (DeliveryEvent × DeliveryOutput)) : List Attempt :=
  history.filterMap fun
    | (_, .worked item attempt) => if item.delivery = d then some attempt else none
    | _ => none

/-- The items of a delivery in the queue. -/
def DeliveryWorker.itemsOf (w : DeliveryWorker) (d : Nat) : List DeliveryItem :=
  w.queue.filter fun item => item.delivery = d

/-- Attempts that failed with another one to follow. -/
def Retried (attempts : List Attempt) : Prop :=
  ∀ (i : Nat) attempt, attempts[i]? = some attempt → attempt.result.attempt = i + 1 ∧ attempt.result.status = .retrying

/-- What the attempts of a delivery report and what of it is in the queue: it waits for its next attempt,
or its last one was final. -/
inductive Course (settings : DeliverySettings) (event : Event) (webhookUrl : String) (d : Nat) :
    List Attempt → List DeliveryItem → Prop
  | waiting {attempts} : Retried attempts → attempts.length < settings.maxAttempts →
      Course settings event webhookUrl d attempts [{ event, webhookUrl, attempt := attempts.length + 1, delivery := d }]
  | ended {attempts last} : Retried attempts → last.result.attempt = attempts.length + 1 → last.result.status.Final →
      attempts.length < settings.maxAttempts → Course settings event webhookUrl d (attempts ++ [last]) []

section

variable {settings : DeliverySettings} {event : Event} {webhookUrl : String} {d : Nat}
variable {attempts : List Attempt} {items : List DeliveryItem} {item : DeliveryItem} {attempt : Attempt}
variable {history : List (DeliveryEvent × DeliveryOutput)} {w w' : DeliveryWorker}

theorem Retried.append (retried : Retried attempts) (numbered : attempt.result.attempt = attempts.length + 1)
    (again : attempt.result.status = .retrying) : Retried (attempts ++ [attempt]) := by
  intro i other here
  rcases Nat.lt_trichotomy i attempts.length with before | rfl | after
  · rw [List.getElem?_append_left before] at here
    exact retried i other here
  · rw [List.getElem?_append_right (Nat.le_refl _), Nat.sub_self] at here
    cases here
    exact ⟨numbered, again⟩
  · rw [List.getElem?_eq_none (by rw [List.length_append]; exact after)] at here
    cases here

/-- An attempt takes a delivery that waits one further. -/
theorem Course.work (course : Course settings event webhookUrl d attempts (item :: items))
    (made : Attempts settings item attempt) :
    item.event = event ∧ item.webhookUrl = webhookUrl ∧ items = [] ∧
      Course settings event webhookUrl d (attempts ++ [attempt]) (attempt.retry.map Prod.snd).toList := by
  cases course with
  | waiting retried more =>
    refine ⟨rfl, rfl, rfl, ?_⟩
    rcases made.goesOn with ⟨final, none⟩ | ⟨again, less, time, retry⟩
    · rw [none]
      exact .ended retried made.numbered final more
    · rw [retry]
      have fewer : (attempts ++ [attempt]).length < settings.maxAttempts := by
        rw [List.length_append]
        exact less
      have further : Course settings event webhookUrl d (attempts ++ [attempt]) _ :=
        .waiting (retried.append made.numbered again) fewer
      rw [List.length_append] at further
      exact further

theorem attemptsOf_append (step : DeliveryEvent × DeliveryOutput) :
    attemptsOf d (history ++ [step]) = attemptsOf d history ++ attemptsOf d [step] := by
  rw [attemptsOf, List.filterMap_append]
  rfl

theorem attemptsOf_own (env : Surroundings) (item : DeliveryItem) (attempt : Attempt) :
    attemptsOf item.delivery [(.work env, .worked item attempt)] = [attempt] := by
  simp [attemptsOf]

theorem attemptsOf_other (env : Surroundings) (attempt : Attempt) (other : ¬ item.delivery = d) :
    attemptsOf d [(.work env, .worked item attempt)] = [] := by
  simp [attemptsOf, other]

/-- What holds of the worker after every run. -/
structure Kept (settings : DeliverySettings) (history : List (DeliveryEvent × DeliveryOutput)) (w : DeliveryWorker) :
    Prop where
  numbered : ∀ {event webhookUrl d}, (.enqueue event webhookUrl, .enqueued d) ∈ history → d < w.enqueued
  known : ∀ {item}, item ∈ w.queue → ∃ event webhookUrl, (.enqueue event webhookUrl, .enqueued item.delivery) ∈ history
  unborn : ∀ {d}, w.enqueued ≤ d → attemptsOf d history = []
  courses : ∀ {event webhookUrl d}, (.enqueue event webhookUrl, .enqueued d) ∈ history →
    Course settings event webhookUrl d (attemptsOf d history) (w.itemsOf d)
  made : ∀ {env item attempt}, (.work env, .worked item attempt) ∈ history → attempt = settings.deliver env item ∧
    (.enqueue item.event item.webhookUrl, .enqueued item.delivery) ∈ history

theorem Kept.init (settings : DeliverySettings) : Kept settings [] {} where
  numbered := fun no => nomatch no
  known := fun no => nomatch no
  unborn := fun _ => rfl
  courses := fun no => nomatch no
  made := fun no => nomatch no

theorem Kept.enqueue (kept : Kept settings history w) (event : Event) (webhookUrl : String) :
    Kept settings (history ++ [(.enqueue event webhookUrl, .enqueued w.enqueued)])
      { queue := w.queue ++ [{ event, webhookUrl, delivery := w.enqueued }], enqueued := w.enqueued + 1 } where
  numbered := fun {_ _ d} listed => by
    rcases List.mem_append.mp listed with old | new
    · exact Nat.lt_succ_of_lt (kept.numbered old)
    · cases List.mem_singleton.mp new
      exact Nat.lt_succ_self _
  known := fun {item} queued => by
    rcases List.mem_append.mp queued with old | new
    · obtain ⟨event, webhookUrl, listed⟩ := kept.known old
      exact ⟨event, webhookUrl, List.mem_append_left _ listed⟩
    · cases List.mem_singleton.mp new
      exact ⟨event, webhookUrl, List.mem_append_right _ (List.mem_singleton_self _)⟩
  unborn := fun {d} later => by
    rw [attemptsOf_append, kept.unborn (Nat.le_of_succ_le later)]
    rfl
  courses := fun {event' webhookUrl' d} listed => by
    have same : attemptsOf d (history ++ [(.enqueue event webhookUrl, .enqueued w.enqueued)]) = attemptsOf d history := by
      rw [attemptsOf_append]
      exact List.append_nil _
    rw [same, DeliveryWorker.itemsOf, List.filter_append]
    rcases List.mem_append.mp listed with old | new
    · have other : ¬ w.enqueued = d := Nat.ne_of_gt (kept.numbered old)
      rw [List.filter_cons_of_neg (by simpa using other), List.filter_nil, List.append_nil]
      exact kept.courses old
    · cases List.mem_singleton.mp new
      have none : w.queue.filter (fun item => item.delivery = w.enqueued) = [] := by
        refine List.filter_eq_nil_iff.mpr fun item queued => ?_
        obtain ⟨_, _, listed⟩ := kept.known queued
        simpa using Nat.ne_of_lt (kept.numbered listed)
      rw [none, kept.unborn (Nat.le_refl _), List.filter_cons_of_pos (by simp), List.filter_nil]
      exact .waiting (fun _ _ no => nomatch no) settings.positive
  made := fun listed => by
    rcases List.mem_append.mp listed with old | new
    · obtain ⟨made, enqueued⟩ := kept.made old
      exact ⟨made, List.mem_append_left _ enqueued⟩
    · cases List.mem_singleton.mp new

theorem Kept.idle (kept : Kept settings history w) (env : Surroundings) :
    Kept settings (history ++ [(.work env, .idle)]) w where
  numbered := fun listed => by
    rcases List.mem_append.mp listed with old | new
    · exact kept.numbered old
    · cases List.mem_singleton.mp new
  known := fun queued => by
    obtain ⟨event, webhookUrl, listed⟩ := kept.known queued
    exact ⟨event, webhookUrl, List.mem_append_left _ listed⟩
  unborn := fun later => by
    rw [attemptsOf_append, kept.unborn later]
    rfl
  courses := fun {_ _ d} listed => by
    rw [attemptsOf_append, show attemptsOf d [(.work env, .idle)] = [] from rfl, List.append_nil]
    rcases List.mem_append.mp listed with old | new
    · exact kept.courses old
    · cases List.mem_singleton.mp new
  made := fun listed => by
    rcases List.mem_append.mp listed with old | new
    · obtain ⟨made, enqueued⟩ := kept.made old
      exact ⟨made, List.mem_append_left _ enqueued⟩
    · cases List.mem_singleton.mp new

theorem Kept.worked {queue : List DeliveryItem} (kept : Kept settings history w) (front : w.queue = item :: queue)
    (env : Surroundings) :
    Kept settings (history ++ [(.work env, .worked item (settings.deliver env item))])
      { w with queue := queue ++ ((settings.deliver env item).retry.map Prod.snd).toList } := by
  have made := deliver_attempts settings env item
  obtain ⟨event, webhookUrl, enqueued⟩ := kept.known (by rw [front]; exact List.mem_cons_self)
  have course := kept.courses enqueued
  rw [DeliveryWorker.itemsOf, front, List.filter_cons_of_pos (by simp)] at course
  obtain ⟨rfl, rfl, none, further⟩ := course.work made
  -- What is put back is an item of the same delivery.
  have back : ∀ again ∈ ((settings.deliver env item).retry.map Prod.snd).toList, again.delivery = item.delivery := by
    intro again put
    rcases made.goesOn with ⟨_, unput⟩ | ⟨_, _, time, retry⟩
    · rw [unput] at put
      cases put
    · rw [retry] at put
      cases List.mem_singleton.mp put
      rfl
  have older : ∀ {event' webhookUrl' d}, (.enqueue event' webhookUrl', .enqueued d) ∈
      history ++ [(.work env, .worked item (settings.deliver env item))] →
        (.enqueue event' webhookUrl', .enqueued d) ∈ history := fun listed => by
    rcases List.mem_append.mp listed with old | new
    · exact old
    · cases List.mem_singleton.mp new
  refine ⟨fun listed => kept.numbered (older listed), fun {again} queued => ?_, fun {d} later => ?_,
    fun {event' webhookUrl' d} listed => ?_, fun listed => ?_⟩
  · rcases List.mem_append.mp queued with old | put
    · obtain ⟨event', webhookUrl', listed⟩ := kept.known (by rw [front]; exact List.mem_cons_of_mem _ old)
      exact ⟨event', webhookUrl', List.mem_append_left _ listed⟩
    · rw [back again put]
      exact ⟨item.event, item.webhookUrl, List.mem_append_left _ enqueued⟩
  · have other : ¬ item.delivery = d := Nat.ne_of_lt (Nat.lt_of_lt_of_le (kept.numbered enqueued) later)
    rw [attemptsOf_append, kept.unborn later, attemptsOf_other env _ other, List.nil_append]
  · have course := kept.courses (older listed)
    rw [attemptsOf_append, DeliveryWorker.itemsOf, List.filter_append]
    by_cases same : item.delivery = d
    · subst same
      have all : ((settings.deliver env item).retry.map Prod.snd).toList.filter (fun again => again.delivery = item.delivery)
          = ((settings.deliver env item).retry.map Prod.snd).toList :=
        List.filter_eq_self.mpr fun again put => decide_eq_true (back again put)
      rw [DeliveryWorker.itemsOf, front, List.filter_cons_of_pos (by simp)] at course
      rw [attemptsOf_own, none, all]
      exact (course.work made).2.2.2
    · have nothing : ((settings.deliver env item).retry.map Prod.snd).toList.filter (fun again => again.delivery = d) = [] :=
        List.filter_eq_nil_iff.mpr fun again put => by
          rw [back again put]
          simpa using same
      rw [DeliveryWorker.itemsOf, front, List.filter_cons_of_neg (by simpa using same)] at course
      rw [attemptsOf_other env _ same, nothing, List.append_nil, List.append_nil]
      exact course
  · rcases List.mem_append.mp listed with old | new
    · obtain ⟨made, listed⟩ := kept.made old
      exact ⟨made, List.mem_append_left _ listed⟩
    · cases List.mem_singleton.mp new
      exact ⟨rfl, List.mem_append_left _ enqueued⟩

theorem Kept.run (run : Run (DeliveryWorker.step settings) (fun _ _ _ => True) {} history w) :
    Kept settings history w := by
  refine run.invariant (Kept settings) (Kept.init settings) fun {history w label w' output} kept _ stepped => ?_
  cases label with
  | enqueue event webhookUrl =>
    cases stepped
    exact kept.enqueue event webhookUrl
  | work env =>
    rw [DeliveryWorker.step] at stepped
    split at stepped
    · cases stepped
      exact kept.idle env
    · rename_i item queue front
      cases stepped
      exact kept.worked front env

theorem Course.limited (course : Course settings event webhookUrl d attempts items) :
    attempts.length ≤ settings.maxAttempts := by
  cases course with
  | waiting _ more => exact Nat.le_of_lt more
  | ended _ _ _ more =>
    rw [List.length_append]
    exact more

/-- An item of a delivery, by the attempts that are left to it and its place in the queue. -/
def Waits (settings : DeliverySettings) (d : Nat) (rank : Nat × Nat) (w : DeliveryWorker) : Prop :=
  ∃ item, w.queue[rank.2]? = some item ∧ item.delivery = d ∧ item.attempt + rank.1 = settings.maxAttempts

/-- The last attempt of a delivery was final. -/
def Ended (attempts : List Attempt) : Prop :=
  ∃ retried last, attempts = retried ++ [last] ∧ last.result.status.Final

theorem Course.waits (course : Course settings event webhookUrl d attempts (w.itemsOf d)) :
    Ended attempts ∨ ∃ rank, Waits settings d rank w := by
  generalize listed : w.itemsOf d = items at course
  cases course with
  | waiting _ more =>
    obtain ⟨queued, named⟩ := List.mem_filter.mp (listed ▸ List.mem_singleton_self _)
    obtain ⟨place, here⟩ := List.getElem?_of_mem queued
    exact .inr ⟨(settings.maxAttempts - (attempts.length + 1), place), _, here, rfl, Nat.add_sub_of_le more⟩
  | ended _ _ final _ => exact .inl ⟨_, _, rfl, final⟩

/-- An item keeps its place while the worker does not work. -/
theorem Waits.enqueue {rank : Nat × Nat} (waits : Waits settings d rank w) (item : DeliveryItem) (enqueued : Nat) :
    Waits settings d rank { queue := w.queue ++ [item], enqueued } := by
  obtain ⟨own, here, named, left⟩ := waits
  exact ⟨own, List.getElem?_append_left (List.getElem?_eq_some_iff.mp here).1 ▸ here, named, left⟩

/-- The worker takes the item, which ends the delivery or uses up one of its attempts, or takes the item
that is first before it. -/
theorem Waits.worked {rank : Nat × Nat} {queue : List DeliveryItem} (waits : Waits settings d rank w)
    (front : w.queue = item :: queue) (made : Attempts settings item attempt) :
    (item.delivery = d ∧ attempt.result.status.Final) ∨ ∃ rank', Prod.Lex (· < ·) (· < ·) rank' rank ∧
      Waits settings d rank' { w with queue := queue ++ (attempt.retry.map Prod.snd).toList } := by
  obtain ⟨left, place⟩ := rank
  obtain ⟨own, here, named, enough⟩ := waits
  rw [front] at here
  cases place with
  | zero =>
    cases here
    rcases made.goesOn with ⟨final, _⟩ | ⟨_, less, time, retry⟩
    · exact .inl ⟨named, final⟩
    · refine .inr ⟨(left - 1, queue.length), .left _ _ (by omega), { item with attempt := item.attempt + 1 }, ?_,
        named, ?_⟩
      · rw [retry]
        exact List.getElem?_concat_length
      · change item.attempt + 1 + (left - 1) = _
        omega
  | succ place =>
    refine .inr ⟨(left, place), .right _ (Nat.lt_succ_self _), own, ?_, named, enough⟩
    exact List.getElem?_append_left (List.getElem?_eq_some_iff.mp here).1 ▸ here

theorem Retried.not_ended (retried : Retried attempts) : ¬ Ended attempts := by
  rintro ⟨earlier, last, rfl, final⟩
  have again := (retried earlier.length last List.getElem?_concat_length).2
  rcases final with success | dropped
  · rw [again] at success
    cases success
  · rw [again] at dropped
    cases dropped

theorem Course.finished (course : Course settings event webhookUrl d attempts items) (ended : Ended attempts) :
    items = [] ∧ ∃ retried last, attempts = retried ++ [last] ∧ Retried retried ∧
      last.result.attempt = retried.length + 1 ∧ last.result.status.Final := by
  cases course with
  | waiting retried _ => exact absurd ended retried.not_ended
  | ended retried numbered final _ => exact ⟨rfl, _, _, rfl, retried, numbered, final⟩

/-- Steps in which the worker works. -/
def DeliveryEvent.IsWork : DeliveryEvent → Prop
  | .work _ => True
  | .enqueue .. => False

theorem Execution.kept (e : Execution (DeliveryWorker.step settings)) (fresh : e.states 0 = {}) (n : Nat) :
    Kept settings (e.history n) (e.states n) := by
  have run := e.run n
  rw [fresh] at run
  exact Kept.run run

/-- An item keeps its rank until the worker works. -/
theorem Execution.quiet (e : Execution (DeliveryWorker.step settings)) (n : Nat) (rank : Nat × Nat)
    (waits : Waits settings d rank (e.states n)) (idle : ¬ (e.labels n).IsWork) :
    Waits settings d rank (e.states (n + 1)) := by
  have stepped := e.stepped n
  cases label : e.labels n with
  | enqueue event webhookUrl =>
    rw [label] at stepped
    rw [← (Prod.mk.inj (Option.some.inj stepped)).1]
    exact waits.enqueue _ _
  | work env =>
    rw [label] at idle
    exact absurd trivial idle

/-- The worker lowers the rank of an item or ends its delivery. -/
theorem Execution.lower (e : Execution (DeliveryWorker.step settings)) (n : Nat) (rank : Nat × Nat)
    (waits : Waits settings d rank (e.states n)) (works : (e.labels n).IsWork) :
    Ended (attemptsOf d (e.history (n + 1))) ∨ ∃ rank', Prod.Lex (· < ·) (· < ·) rank' rank ∧
      Waits settings d rank' (e.states (n + 1)) := by
  have stepped := e.stepped n
  cases label : e.labels n with
  | enqueue event webhookUrl =>
    rw [label] at works
    exact works.elim
  | work env =>
    rw [label, DeliveryWorker.step] at stepped
    split at stepped
    · rename_i empty
      obtain ⟨own, here, _⟩ := waits
      rw [empty] at here
      cases here
    · rename_i item queue front
      obtain ⟨next, output⟩ := Prod.mk.inj (Option.some.inj stepped)
      rcases waits.worked front (deliver_attempts settings env item) with ⟨rfl, final⟩ | ⟨rank', lower, waits'⟩
      · refine .inl ⟨attemptsOf item.delivery (e.history n), settings.deliver env item, ?_, final⟩
        rw [Execution.history, attemptsOf_append, label, ← output, attemptsOf_own]
      · refine .inr ⟨rank', lower, ?_⟩
        rw [← next]
        exact waits'

/-- A delivery comes to an end while the worker works again and again. -/
theorem Execution.ends (e : Execution (DeliveryWorker.step settings)) (fresh : e.states 0 = {})
    (working : e.Recurs DeliveryEvent.IsWork) {n : Nat}
    (enqueued : (.enqueue event webhookUrl, .enqueued d) ∈ e.history n) :
    ∃ m, n ≤ m ∧ Ended (attemptsOf d (e.history m)) := by
  rcases ((Execution.kept e fresh n).courses enqueued).waits with ended | ⟨rank, waiting⟩
  · exact ⟨n, Nat.le_refl n, ended⟩
  · have wf : WellFounded (Prod.Lex (· < · : Nat → Nat → Prop) (· < · : Nat → Nat → Prop)) :=
      (Prod.lex Nat.lt_wfRel Nat.lt_wfRel).wf
    obtain ⟨m, later, ended⟩ := e.eventually wf working (Waits settings d)
      (fun m => Ended (attemptsOf d (e.history (m + 1)))) (Execution.quiet e) (Execution.lower e) waiting
    exact ⟨m + 1, Nat.le_succ_of_le later, ended⟩

/-- No attempt follows a final one. -/
theorem Execution.stays (e : Execution (DeliveryWorker.step settings)) (fresh : e.states 0 = {}) {n m : Nat}
    (enqueued : (.enqueue event webhookUrl, .enqueued d) ∈ e.history n) (later : n ≤ m)
    (ended : Ended (attemptsOf d (e.history n))) :
    attemptsOf d (e.history m) = attemptsOf d (e.history n) := by
  induction m, later using Nat.le_induction with
  | base => rfl
  | succ m later same =>
    have listed : (.enqueue event webhookUrl, .enqueued d) ∈ e.history m := e.history_mem later enqueued
    have emptied := (((Execution.kept e fresh m).courses listed).finished (same ▸ ended)).1
    have stepped := e.stepped m
    rw [Execution.history, attemptsOf_append, same]
    cases label : e.labels m with
    | enqueue event webhookUrl =>
      rw [label] at stepped
      rw [← (Prod.mk.inj (Option.some.inj stepped)).2]
      exact List.append_nil _
    | work env =>
      rw [label, DeliveryWorker.step] at stepped
      split at stepped
      · rw [← (Prod.mk.inj (Option.some.inj stepped)).2]
        exact List.append_nil _
      · rename_i item queue front
        have other : ¬ item.delivery = d := fun own => by
          have queued : item ∈ (e.states m).itemsOf d := by
            rw [DeliveryWorker.itemsOf, front]
            exact List.mem_filter.mpr ⟨List.mem_cons_self, decide_eq_true own⟩
          rw [emptied] at queued
          cases queued
        rw [← (Prod.mk.inj (Option.some.inj stepped)).2, attemptsOf_other env _ other, List.append_nil]

end

/-- How many of the attempts posted. -/
def posts (attempts : List Attempt) : Nat := attempts.countP fun attempt => attempt.requests.isSome

section

private def created : Event where
  eventId := "e1"
  eventType := .nodeCreate
  occurredAt := "2026-01-01T00:00:00+00:00"
  entity := { kind := .node, id := "n1", type := "Dataset" }

/-- Every URL is safe, and the receiver answers with this status. -/
private def answering (statusCode : Nat) : Surroundings where
  isSafeUrl := fun _ _ => true
  answer := fun _ _ => .response { statusCode }
  urljoin := fun _ url => .ok url

example : (behaviour (DeliveryWorker.step {}) {} [.enqueue created "https://hooks.example/in", .work (answering 503),
    .work (answering 200), .work (answering 200)]).map (fun ended => (ended.1.map fun
      | .worked _ attempt => some (attempt.result.attempt, attempt.result.status)
      | _ => none)) = some [none, some (1, .retrying), some (2, .success), none] := rfl

end

end MetadataGraph.Events
