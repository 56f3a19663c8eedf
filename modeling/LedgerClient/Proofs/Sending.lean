import LedgerClient.Client.Exchange
import LedgerClient.Proofs.HeaderFields
import LedgerClient.Proofs.UrlPath

/-! When a call sends its request. Whatever is to be known about a request that went
out follows from how its address and the request itself are made. -/

namespace LedgerClient.Client

/-- The request goes out when the call is made, with or without a signal that may end it. -/
def Sends (client : Client) (endpoint : Endpoint α) (options : Options) (request : Request) : Prop :=
  ∃ server, (client.execute endpoint options server).request = some request ∨
    ∃ signal, (client.executeUntil endpoint options signal server).request = some request

/-- What comes of a call that no signal ends, by how far it gets. -/
inductive Course (client : Client) (endpoint : Endpoint α) (options : Options) :
    Option Reply → Exchange α → Prop where
  | unaddressed {server : Option Reply} {error : ClientError} (failed : client.url endpoint = .error error) :
      Course client endpoint options server ⟨none, [], .error error⟩
  | unmade {server : Option Reply} {url : Url} {error : ClientError} (built : client.url endpoint = .ok url)
      (failed : client.request endpoint options url = .error error) :
      Course client endpoint options server ⟨none, [opening endpoint url], .error error⟩
  | foreign {server : Option Reply} {url : Url} {request : Request} (built : client.url endpoint = .ok url)
      (made : client.request endpoint options url = .ok request) (other : ¬url.IsWeb) :
      Course client endpoint options server ⟨none, [opening endpoint url], .error (.http .badScheme)⟩
  | tooLong {server : Option Reply} {url : Url} {request : Request} (built : client.url endpoint = .ok url)
      (made : client.request endpoint options url = .ok request) (web : url.IsWeb) (long : isTooLong url = true) :
      Course client endpoint options server ⟨none, [opening endpoint url], .error (.http .longAddress)⟩
  | unreachable {url : Url} {request : Request} (built : client.url endpoint = .ok url)
      (made : client.request endpoint options url = .ok request) (web : url.IsWeb) (short : isTooLong url = false) :
      Course client endpoint options none ⟨none, [opening endpoint url], .error (.http .unreachable)⟩
  | sent {reply : Reply} {url : Url} {request : Request} (built : client.url endpoint = .ok url)
      (made : client.request endpoint options url = .ok request) (web : url.IsWeb) (short : isTooLong url = false) :
      Course client endpoint options (some reply)
        ⟨some request, opening endpoint url :: (receive endpoint reply).1, (receive endpoint reply).2⟩

private theorem prepare_of_made {client : Client} {endpoint : Endpoint α} {options : Options} {url : Url}
    {request : Request} (made : client.request endpoint options url = .ok request) :
    client.prepare endpoint options url =
      if url.scheme ≠ "http" ∧ url.scheme ≠ "https" then .error (.http .badScheme)
      else if isTooLong url then .error (.http .longAddress)
      else .ok request := by
  rw [prepare, made]
  rfl

theorem execute_course (client : Client) (endpoint : Endpoint α) (options : Options) (server : Option Reply) :
    Course client endpoint options server (client.execute endpoint options server) := by
  rw [execute]
  cases built : client.url endpoint with
  | error error => exact .unaddressed built
  | ok url =>
    dsimp only
    cases made : client.request endpoint options url with
    | error error =>
      rw [prepare, made]
      exact .unmade built made
    | ok request =>
      rw [prepare_of_made made]
      by_cases other : url.scheme ≠ "http" ∧ url.scheme ≠ "https"
      · rw [if_pos other]
        exact .foreign built made fun web => web.elim other.1 other.2
      · have web : url.IsWeb := Decidable.or_iff_not_not_and_not.mpr other
        rw [if_neg other]
        cases long : isTooLong url with
        | true => exact .tooLong built made web long
        | false =>
          cases server with
          | none => exact .unreachable built made web long
          | some reply => exact .sent built made web long

private theorem execute_request {client : Client} {endpoint : Endpoint α} {options : Options} {server : Option Reply}
    {request : Request} (sent : (client.execute endpoint options server).request = some request) :
    ∃ url, client.url endpoint = .ok url ∧ client.request endpoint options url = .ok request := by
  generalize client.execute endpoint options server = exchange,
    execute_course client endpoint options server = course at sent
  cases course with
  | sent built made _ _ =>
    cases sent
    exact ⟨_, built, made⟩
  | _ => cases sent

/-- A signal may end a call, but never changes what it sends. -/
theorem execute_of_executeUntil {client : Client} {endpoint : Endpoint α} {options : Options} {signal : Signal}
    {server : Option Reply} {request : Request}
    (sent : (client.executeUntil endpoint options signal server).request = some request) :
    (client.execute endpoint options server).request = some request := by
  simp only [executeUntil] at sent
  split at sent
  next ready => cases sent
  next waiting =>
    split at sent
    next ended => exact sent
    next whole => exact sent

private theorem Sends.executed {client : Client} {endpoint : Endpoint α} {options : Options} {request : Request}
    (sent : client.Sends endpoint options request) :
    ∃ server, (client.execute endpoint options server).request = some request := by
  obtain ⟨server, sent | ⟨signal, sent⟩⟩ := sent
  · exact ⟨server, sent⟩
  · exact ⟨server, execute_of_executeUntil sent⟩

theorem Sends.made {client : Client} {endpoint : Endpoint α} {options : Options} {request : Request}
    (sent : client.Sends endpoint options request) :
    ∃ url, client.url endpoint = .ok url ∧ client.request endpoint options url = .ok request := by
  obtain ⟨server, sent⟩ := sent.executed
  exact execute_request sent

/-- Requests go to addresses of the web only, and to none that is too long. -/
theorem Sends.addressed {client : Client} {endpoint : Endpoint α} {options : Options} {request : Request}
    (sent : client.Sends endpoint options request) :
    ∃ url, client.url endpoint = .ok url ∧ url.IsWeb ∧ isTooLong url = false := by
  obtain ⟨server, sent⟩ := sent.executed
  generalize client.execute endpoint options server = exchange,
    execute_course client endpoint options server = course at sent
  cases course with
  | sent built _ web short => exact ⟨_, built, web, short⟩
  | _ => cases sent

section Made

variable {client : Client} {endpoint : Endpoint α} {options : Options} {url : Url} {request : Request}

theorem prepare_of_short (made : client.request endpoint options url = .ok request) (web : url.IsWeb)
    (short : isTooLong url = false) : client.prepare endpoint options url = .ok request := by
  have near : ¬(url.scheme ≠ "http" ∧ url.scheme ≠ "https") := Decidable.or_iff_not_not_and_not.mp web
  rw [prepare_of_made made, if_neg near, short, if_neg Bool.false_ne_true]

variable (built : client.url endpoint = .ok url) (made : client.request endpoint options url = .ok request)
  (web : url.IsWeb)
include built made web

theorem execute_of_short (short : isTooLong url = false) (reply : Reply) :
    client.execute endpoint options (some reply) =
      ⟨some request, opening endpoint url :: (receive endpoint reply).1, (receive endpoint reply).2⟩ := by
  rw [execute, built]
  dsimp only
  rw [prepare_of_short made web short]
  rfl

theorem sends_of_made (short : isTooLong url = false) : client.Sends endpoint options request :=
  ⟨some .silent, .inl (by rw [execute_of_short built made web short])⟩

end Made

def ownFields (url : Url) : Headers :=
  match credentials? url with
  | some credentials => [(.authorization, credentials)]
  | none => []

def typed (body : Option Body) (fields : Headers) : Headers :=
  match body with
  | some body => fields.append .contentType body.contentType
  | none => fields

/-- All there is to a request. -/
theorem request_eq_ok_iff {client : Client} {endpoint : Endpoint α} {options : Options} {url : Url}
    {request : Request} : client.request endpoint options url = .ok request ↔
      ∃ fields body, options.fields = .ok fields ∧ endpoint.body = .ok body ∧
        let headers := (typed body ((ownFields url).replace fields)).fill client.headers
        let octets := (body.map Body.octets).getD []
        request = { method := endpoint.method, target := String.ofList url.target
                    headers := headers.coded octets, body := headers.framed octets } := by
  constructor
  · intro made
    obtain ⟨fields, read, made⟩ := bind_eq_ok.mp made
    obtain ⟨body, found, made⟩ := bind_eq_ok.mp made
    cases made
    exact ⟨fields, body, read, found, rfl⟩
  · rintro ⟨fields, body, read, found, rfl⟩
    exact bind_eq_ok.mpr ⟨fields, read, bind_eq_ok.mpr ⟨body, found, rfl⟩⟩

end LedgerClient.Client
