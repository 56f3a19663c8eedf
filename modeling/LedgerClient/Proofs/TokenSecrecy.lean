import LedgerClient.Client.Call
import LedgerClient.Client.Service
import LedgerClient.Node.Calls
import LedgerClient.Proofs.RequestHeaders

/-! What a token has an influence on. Two clients that differ in their tokens are made or
refused alike, and whatever they do can be told apart only by the values under the one
header that the token goes out in. -/

namespace LedgerClient

namespace Headers

/-- What is seen of fields when the values under one name are hidden. -/
def veiled (name : HeaderName) (headers : Headers) : List (HeaderName × Option HeaderValue) :=
  headers.map fun field => (field.1, if field.1 = name then none else some field.2)

variable {name : HeaderName} {headers others : Headers}

private theorem veiled_append (more : Headers) :
    (headers ++ more).veiled name = headers.veiled name ++ more.veiled name :=
  List.map_append

private theorem veiled_filter (keeps : HeaderName → Bool) (headers : Headers) :
    veiled name (headers.filter fun field => keeps field.1) =
      (headers.veiled name).filter fun field => keeps field.1 := by
  rw [veiled, veiled, List.filter_map]
  rfl

private theorem veiled_insert_self (value other : HeaderValue) :
    (headers.insert name value).veiled name = (headers.insert name other).veiled name := by
  rw [insert, insert, veiled_append, veiled_append]
  simp only [veiled, List.map_cons, ite_true]

private theorem veiled_insert (same : headers.veiled name = others.veiled name) (other : HeaderName)
    (value : HeaderValue) :
    (headers.insert other value).veiled name = (others.insert other value).veiled name := by
  rw [insert, insert, veiled_append, veiled_append, veiled_filter (· ≠ other), veiled_filter (· ≠ other), same]

private theorem has_of_veiled (same : headers.veiled name = others.veiled name) (other : HeaderName) :
    headers.has other = others.has other := by
  have seen : ∀ headers : Headers, headers.has other = (headers.veiled name).any (·.1 = other) := fun headers => by
    rw [has, veiled, List.any_map]
    rfl
  rw [seen, seen, same]

private theorem values_of_veiled (same : headers.veiled name = others.veiled name) {other : HeaderName}
    (different : other ≠ name) : headers.values other = others.values other := by
  have seen : ∀ headers : Headers,
      (headers.values other).map some = ((headers.veiled name).filter (·.1 = other)).map (·.2) := by
    intro headers
    rw [← veiled_filter (· = other), values, veiled, List.map_map, List.map_map]
    refine List.map_congr_left fun field inside => ?_
    have named : field.1 = other := of_decide_eq_true (List.mem_filter.mp inside).2
    rw [Function.comp_apply, Function.comp_apply, named, if_neg different]
  have equal : (headers.values other).map some = (others.values other).map some := by rw [seen, seen, same]
  exact (List.map_inj_right fun _ _ => Option.some.inj).mp equal

private theorem veiled_fill (front : Headers) (same : headers.veiled name = others.veiled name) :
    (front.fill headers).veiled name = (front.fill others).veiled name := by
  rw [fill, fill, veiled_append, veiled_append, veiled_filter fun name => !front.has name,
    veiled_filter fun name => !front.has name, same]

/-- Where there are values under the hidden name already, none is filled in. -/
theorem fill_of_veiled {front : Headers} (given : front.has name = true)
    (same : headers.veiled name = others.veiled name) : front.fill headers = front.fill others := by
  have bare : ∀ headers : Headers, (headers.filter fun field => !front.has field.1).map
      (fun field => (field.1, some field.2)) = (headers.veiled name).filter fun field => !front.has field.1 := by
    intro headers
    rw [← veiled_filter fun name => !front.has name]
    refine List.map_congr_left fun field inside => ?_
    have missing := (List.mem_filter.mp inside).2
    have different : field.1 ≠ name := by
      intro same
      rw [same, given] at missing
      cases missing
    rw [if_neg different]
  have equal := (bare headers).trans ((congrArg _ same).trans (bare others).symm)
  rw [fill, fill, (List.map_inj_right fun field other seen => ?_).mp equal]
  exact Prod.ext (Prod.mk.inj seen).1 (Option.some.inj (Prod.mk.inj seen).2)

private theorem framed_of_veiled (same : headers.veiled name = others.veiled name) (sized : name ≠ .contentLength)
    (octets : List UInt8) : headers.framed octets = others.framed octets := by
  rw [framed, framed, declaredLength?, declaredLength?, has_of_veiled same, values_of_veiled same sized.symm]

private theorem veiled_coded (same : headers.veiled name = others.veiled name) (uncoded : name ≠ .transferEncoding)
    (octets : List UInt8) : (headers.coded octets).veiled name = (others.coded octets).veiled name := by
  rw [coded, coded, values_of_veiled same uncoded.symm, veiled_append, veiled_append,
    veiled_filter (· ≠ .transferEncoding), veiled_filter (· ≠ .transferEncoding), same]

end Headers

/-- Computations that fail with the same error, or succeed with results that are related. -/
inductive Paired (related : α → β → Prop) : Except ε α → Except ε β → Prop where
  | failed (error : ε) : Paired related (.error error) (.error error)
  | made {value : α} {other : β} (alike : related value other) : Paired related (.ok value) (.ok other)

private theorem Paired.refl (computation : Except ε α) : Paired Eq computation computation := by
  cases computation with
  | error error => exact .failed error
  | ok value => exact .made rfl

private theorem Paired.bind {r : α → β → Prop} {s : γ → δ → Prop} {first : Except ε α} {second : Except ε β}
    {next : α → Except ε γ} {next' : β → Except ε δ} (paired : Paired r first second)
    (rest : ∀ {value other}, r value other → Paired s (next value) (next' other)) :
    Paired s (first >>= next) (second >>= next') := by
  cases paired with
  | failed error => exact .failed error
  | made alike => exact rest alike

variable {name : HeaderName}

/-- Requests that differ at most in the values under one name, and not even there if the
name is among those that are settled. -/
structure Request.Alike (name : HeaderName) (settled : Prop) (request other : Request) : Prop where
  method : request.method = other.method
  target : request.target = other.target
  body : request.body = other.body
  headers : request.headers.veiled name = other.headers.veiled name
  equal : settled → request = other

/-- Exchanges of which everything but the request is the same. -/
structure Exchange.Alike (name : HeaderName) (settled : Prop) (exchange other : Exchange α) : Prop where
  log : exchange.log = other.log
  result : exchange.result = other.result
  request : Option.Rel (Request.Alike name settled) exchange.request other.request

namespace Client

/-- Clients that differ at most in the values of one header. -/
structure Alike (name : HeaderName) (client other : Client) : Prop where
  base : client.base = other.base
  timeout : client.timeout = other.timeout
  headers : client.headers.veiled name = other.headers.veiled name

section Alike

variable {client other : Client} (alike : client.Alike name other)
include alike

private theorem Alike.url (endpoint : Endpoint α) : client.url endpoint = other.url endpoint := by
  rw [Client.url, Client.url, alike.base]

variable (sized : name ≠ .contentLength) (uncoded : name ≠ .transferEncoding)
include sized uncoded

private theorem Alike.request (endpoint : Endpoint α) (options : Options) (url : Url) :
    Paired (Request.Alike name (name.texts options.headers ≠ [])) (client.request endpoint options url)
      (other.request endpoint options url) := by
  refine Paired.bind (r := fun fields fields' => fields = fields' ∧ options.fields = .ok fields) ?_ ?_
  · cases options.fields with
    | error error => exact .failed error
    | ok fields => exact .made ⟨rfl, rfl⟩
  rintro fields _ ⟨rfl, read⟩
  refine (Paired.refl endpoint.body).bind ?_
  rintro body _ rfl
  have veiled := Headers.veiled_fill (typed body ((ownFields url).replace fields)) alike.headers
  refine .made ⟨rfl, rfl, Headers.framed_of_veiled veiled sized _, Headers.veiled_coded veiled uncoded _,
    fun settled => ?_⟩
  have given : (typed body ((ownFields url).replace fields)).has name = true := by
    refine eq_true_of_ne_false fun missing => ?_
    have none := (Headers.has_eq_false name).mp missing
    rw [texts_typed, Headers.texts_replace, Options.texts_fields read, if_neg settled] at none
    exact settled (List.append_eq_nil_iff.mp none).1
  let octets := (body.map Body.octets).getD []
  exact congrArg (fun headers : Headers =>
    ({ method := endpoint.method, target := String.ofList url.target
       headers := headers.coded octets, body := headers.framed octets } : Request))
    (Headers.fill_of_veiled given alike.headers)

private theorem Alike.prepare (endpoint : Endpoint α) (options : Options) (url : Url) :
    Paired (Request.Alike name (name.texts options.headers ≠ [])) (client.prepare endpoint options url)
      (other.prepare endpoint options url) := by
  refine (alike.request sized uncoded endpoint options url).bind fun same => ?_
  split
  · exact .failed _
  split
  · exact .failed _
  · exact .made same

private theorem Alike.execute (endpoint : Endpoint α) (options : Options) (server : Option Reply) :
    Exchange.Alike name (name.texts options.headers ≠ []) (client.execute endpoint options server)
      (other.execute endpoint options server) := by
  rw [Client.execute, Client.execute, ← alike.url]
  cases client.url endpoint with
  | error error => exact ⟨rfl, rfl, .none⟩
  | ok url =>
    dsimp only
    generalize client.prepare endpoint options url = first, other.prepare endpoint options url = second,
      alike.prepare sized uncoded endpoint options url = paired
    cases paired with
    | failed error => exact ⟨rfl, rfl, .none⟩
    | made same =>
      cases server with
      | none => exact ⟨rfl, rfl, .none⟩
      | some reply => exact ⟨rfl, rfl, .some same⟩

private theorem Alike.executeUntil (endpoint : Endpoint α) (options : Options) (signal : Signal)
    (server : Option Reply) :
    Exchange.Alike name (name.texts options.headers ≠ []) (client.executeUntil endpoint options signal server)
      (other.executeUntil endpoint options signal server) := by
  have whole := alike.execute sized uncoded endpoint options server
  have sent : (client.execute endpoint options server).request.isSome =
      (other.execute endpoint options server).request.isSome := by
    generalize (client.execute endpoint options server).request = first,
      (other.execute endpoint options server).request = second, whole.request = paired
    cases paired <;> rfl
  simp only [Client.executeUntil, ← sent, ← alike.timeout]
  split
  · exact ⟨rfl, rfl, .none⟩
  split
  · exact ⟨congrArg (· ++ _) whole.log, rfl, whole.request⟩
  · exact whole

end Alike

/-- Settings with one or another token, both of them such as may stand in a header. -/
theorem ofConfig_of_tokens (config : ClientConfig) (tokenHeader : HeaderName) {first second : String}
    (filled : first ≠ "") (filled' : second ≠ "") (valid : (HeaderValue.parse? first).isSome)
    (valid' : (HeaderValue.parse? second).isSome) : Paired (Client.Alike tokenHeader)
      (ofConfig (config.withToken first) tokenHeader) (ofConfig (config.withToken second) tokenHeader) := by
  obtain ⟨value, read⟩ := Option.isSome_iff_exists.mp valid
  obtain ⟨value', read'⟩ := Option.isSome_iff_exists.mp valid'
  rw [ofConfig_eq, ofConfig_eq]
  refine (Paired.refl _).bind ?_
  rintro headers _ rfl
  refine Paired.bind (r := fun headers others => headers.veiled tokenHeader = others.veiled tokenHeader) ?_ ?_
  · rw [withToken, withToken, ClientConfig.withToken, ClientConfig.withToken, if_neg filled, if_neg filled',
      read, read']
    exact .made (Headers.veiled_insert_self value value')
  intro headers others same
  refine Paired.bind (r := fun headers others => headers.veiled tokenHeader = others.veiled tokenHeader) ?_ ?_
  · rw [withUserAgent, withUserAgent, ClientConfig.withToken, ClientConfig.withToken]
    cases config.userAgent with
    | none => exact .made same
    | some userAgent =>
      dsimp only
      cases HeaderValue.parse? userAgent with
      | none => exact .failed _
      | some userAgent => exact .made (Headers.veiled_insert same _ _)
  exact fun same => .made ⟨rfl, rfl, same⟩

/-- A token that may not stand in a header is refused, and nothing of it is said. -/
theorem ofConfig_of_bad_tokens (config : ClientConfig) (tokenHeader : HeaderName) {first second : String}
    (bad : HeaderValue.parse? first = none) (bad' : HeaderValue.parse? second = none) :
    Paired (fun _ _ => False) (ofConfig (config.withToken first) tokenHeader)
      (ofConfig (config.withToken second) tokenHeader) := by
  have refused : ∀ {token : String}, HeaderValue.parse? token = none → ∀ headers,
      withToken (config.withToken token) tokenHeader headers = .error (.invalidHeader (.value tokenHeader.text)) := by
    intro token bad headers
    have filled : token ≠ "" := by
      rintro rfl
      cases bad
    rw [withToken, ClientConfig.withToken, if_neg filled, bad]
  rw [ofConfig_eq, ofConfig_eq]
  refine (Paired.refl _).bind ?_
  rintro headers _ rfl
  refine Paired.bind (r := fun _ _ => False) ?_ False.elim
  rw [refused bad, refused bad']
  exact .failed _

/-- Two tokens of one service lead to the same addresses, records and results for every
call, and the settings that hold them are shown alike. Only the values of the header that
a token goes out in can differ, unless the call sets that header itself. Tokens that may
not stand in a header are refused with one and the same error. -/
theorem token_stays_in_its_header {service : Service} (known : service = .node ∨ service = .indexer)
    (config : ClientConfig) (first second : String) :
    (first ≠ "" → second ≠ "" → (HeaderValue.parse? first).isSome → (HeaderValue.parse? second).isSome →
      (config.withToken first).label = (config.withToken second).label ∧
      Paired (fun client other => ∀ (α : Type) (endpoint : Endpoint α) (options : Options),
          client.url endpoint = other.url endpoint ∧ ∀ server,
            Exchange.Alike service.tokenHeader (service.tokenHeader.texts options.headers ≠ [])
              (client.execute endpoint options server) (other.execute endpoint options server) ∧
            ∀ signal, Exchange.Alike service.tokenHeader (service.tokenHeader.texts options.headers ≠ [])
              (client.executeUntil endpoint options signal server)
              (other.executeUntil endpoint options signal server))
        (service.connectWith (config.withToken first)) (service.connectWith (config.withToken second))) ∧
    (HeaderValue.parse? first = none → HeaderValue.parse? second = none →
      ∃ error, service.connectWith (config.withToken first) = .error error ∧
        service.connectWith (config.withToken second) = .error error) := by
  refine ⟨fun filled filled' valid valid' => ⟨?_, ?_⟩, fun bad bad' => ?_⟩
  · have redacted : (config.withToken first).token ≠ "" := filled
    have redacted' : (config.withToken second).token ≠ "" := filled'
    unfold ClientConfig.label
    rw [if_neg redacted, if_neg redacted']
    rfl
  · have sized : service.tokenHeader ≠ .contentLength := by
      rcases known with rfl | rfl <;> decide
    have uncoded : service.tokenHeader ≠ .transferEncoding := by
      rcases known with rfl | rfl <;> decide
    have paired := ofConfig_of_tokens config service.tokenHeader filled filled' valid valid'
    rw [Service.connectWith, Service.connectWith]
    generalize ofConfig (config.withToken first) service.tokenHeader = made,
      ofConfig (config.withToken second) service.tokenHeader = made' at paired
    cases paired with
    | failed error => exact .failed error
    | made alike =>
      exact .made fun α endpoint options => ⟨alike.url endpoint, fun server =>
        ⟨alike.execute sized uncoded endpoint options server, fun signal =>
          alike.executeUntil sized uncoded endpoint options signal server⟩⟩
  · have paired := ofConfig_of_bad_tokens config service.tokenHeader bad bad'
    rw [Service.connectWith, Service.connectWith]
    generalize ofConfig (config.withToken first) service.tokenHeader = made,
      ofConfig (config.withToken second) service.tokenHeader = made' at paired
    cases paired with
    | failed error => exact ⟨error, rfl, rfl⟩
    | made impossible => exact impossible.elim

/-- Settings that give the header of the token as well, in another spelling. -/
def spelledConfig : ClientConfig := fullConfig.withHeader "X-Algo-API-Token" "mine"

theorem token_stays_in_its_header_status :
    let call := Node.status.header "x-algo-api-token" "own"
    ∃ client other, Service.node.connectWith (spelledConfig.withToken "first") = .ok client ∧
      Service.node.connectWith (spelledConfig.withToken "second") = .ok other ∧
      ((Node.status.execute client (some .closed)).request.map (·.headers.texts Service.node.tokenHeader)) =
        some ["first"] ∧
      ((Node.status.execute other (some .closed)).request.map (·.headers.texts Service.node.tokenHeader)) =
        some ["second"] ∧
      Exchange.Alike Service.node.tokenHeader False (Node.status.execute client (some .closed))
        (Node.status.execute other (some .closed)) ∧
      Exchange.Alike Service.node.tokenHeader True (call.execute client (some .closed))
        (call.execute other (some .closed)) ∧
      (spelledConfig.withToken "first").label = (spelledConfig.withToken "second").label ∧
      ∃ error, Service.node.connectWith (spelledConfig.withToken "a\n") = .error error ∧
        Service.node.connectWith (spelledConfig.withToken "\x00") = .error error := by
  intro call
  let base := fullConfig.address
  let headers := fun token : HeaderValue => ([
    (.accept, ⟨"*/*", by decide⟩), (.authorization, ⟨"none", by decide⟩), (⟨"x-trace", by decide⟩, ⟨"0", by decide⟩),
    (⟨"x-kind", by decide⟩, ⟨"test", by decide⟩), (Service.node.tokenHeader, token),
    (.userAgent, ⟨"ledger", by decide⟩)] : Headers)
  have made : Service.node.connectWith (spelledConfig.withToken "first") =
    .ok { base, headers := headers ⟨"first", by decide⟩, timeout := .ofSeconds 30 } := rfl
  have made' : Service.node.connectWith (spelledConfig.withToken "second") =
    .ok { base, headers := headers ⟨"second", by decide⟩, timeout := .ofSeconds 30 } := rfl
  obtain ⟨shown, paired⟩ := (token_stays_in_its_header (.inl rfl) spelledConfig "first" "second").1
    (by decide) (by decide) (by decide) (by decide)
  have refused := (token_stays_in_its_header (.inl rfl) spelledConfig "a\n" "\x00").2 (by decide) (by decide)
  rw [made, made'] at paired
  cases paired with
  | made alike =>
    have silent : (Service.node.tokenHeader.texts Node.status.options.headers ≠ []) = False := by decide
    have given : (Service.node.tokenHeader.texts call.options.headers ≠ []) = True := by decide
    have exchanges := ((alike _ Node.status.endpoint Node.status.options).2 (some .closed)).1
    have exchanges' := ((alike _ call.endpoint call.options).2 (some .closed)).1
    rw [silent] at exchanges
    rw [given] at exchanges'
    exact ⟨_, _, made, made', by decide +kernel, by decide +kernel, exchanges, exchanges', shown, refused⟩

end Client
end LedgerClient
