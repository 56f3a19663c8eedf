import LedgerClient.Proofs.CallAddress
import LedgerClient.Proofs.ClientHeaders
import LedgerClient.Proofs.Sending

/-! The header fields of a request. For each name there is one source that decides: the
call, then the credentials in the address, then the settings of the client. -/

namespace LedgerClient

/-- A character of ASCII that may stand in a field. -/
def HeaderValue.isPlain (c : Char) : Bool := c.toNat < 0x80 && admits (UInt8.ofNat c.toNat)

private theorem HeaderValue.parse?_of_plain {text : String} (plain : text.toList.all isPlain = true) :
    ∃ value, parse? text = some value ∧ value.text = text := by
  simp only [isPlain, List.all_eq_true, Bool.and_eq_true, decide_eq_true_eq] at plain
  have valid : (Utf8.encode text.toList).all admits = true := by
    rw [Utf8.encode_ascii fun c inside => (plain c inside).1, List.all_map, List.all_eq_true]
    exact fun c inside => (plain c inside).2
  exact ⟨⟨text, valid⟩, dif_pos valid, rfl⟩

private theorem Base64.plain_symbol (n : Nat) : HeaderValue.isPlain (symbol n) = true := by
  have checked : ∀ n < 64, HeaderValue.isPlain (symbol n) = true := by decide
  by_cases small : n < 64
  · exact checked n small
  · have last : symbol n = '/' := by
      rw [symbol, if_neg (by omega), if_neg (by omega), if_neg (by omega), if_neg (by omega)]
    rw [last]
    decide

private theorem Base64.plain_encode (octets : List UInt8) : (encode octets).all HeaderValue.isPlain = true := by
  rw [List.all_eq_true]
  intro c inside
  rcases List.mem_append.mp inside with inside | inside
  · obtain ⟨n, _, rfl⟩ := List.mem_map.mp inside
    exact plain_symbol n
  · rw [List.eq_of_mem_replicate inside]
    decide

/-- What a server gets for the user and the password in an address, escapes undone. There
is nothing to get if the user is no text; a password that is no text is left out. -/
def Url.basic? (url : Url) : Option String := do
  let authority ← url.authority?
  let user ← Percent.read? authority.user.toList
  let password := authority.password.bind fun password => Percent.read? password.toList
  if user = [] ∧ password = none then none
  else some ("Basic " ++ String.ofList (Base64.encode (Utf8.encode (user ++ ':' :: password.getD []))))

private theorem plain_basic (octets : List UInt8) :
    ("Basic " ++ String.ofList (Base64.encode octets)).toList.all HeaderValue.isPlain = true := by
  have scheme : "Basic ".toList.all HeaderValue.isPlain = true := by decide
  rw [String.toList_append, List.all_append, scheme, String.toList_ofList, Base64.plain_encode]
  rfl

namespace Client

private theorem text_credentials? (url : Url) : (credentials? url).map (·.text) = url.basic? := by
  unfold credentials? Url.basic?
  cases url.authority? with
  | none => rfl
  | some authority =>
    have read : ∀ text : String, Utf8.decode? (Percent.decode (Utf8.encode text.toList)) = Percent.read? text.toList :=
      fun _ => rfl
    simp only [read, Option.bind_eq_bind, Option.bind_some]
    cases Percent.read? authority.user.toList with
    | none => rfl
    | some user =>
      simp only [Option.bind_some]
      split
      next empty => rfl
      next filled =>
        obtain ⟨value, made, text⟩ := HeaderValue.parse?_of_plain (plain_basic
          (Utf8.encode (user ++ ':' :: (authority.password.bind fun text => Percent.read? text.toList).getD [])))
        rw [made, Option.map_some, text]

private theorem basic?_of_url {client : Client} {endpoint : Endpoint α} {url : Url}
    (built : client.url endpoint = .ok url) :
    url.basic? = client.base.basic? := by
  obtain ⟨_, _, _, _, _, rfl⟩ := url_eq_ok_iff.mp built
  rfl

private theorem texts_ownFields (url : Url) (name : HeaderName) :
    (ownFields url).texts name = (if name = .authorization then url.basic? else none).toList := by
  rw [ownFields, ← text_credentials?]
  cases credentials? url with
  | none =>
    rw [Option.map_none, ite_self]
    rfl
  | some credentials => exact Headers.texts_single name .authorization credentials

theorem texts_typed (body : Option Body) (fields : Headers) (name : HeaderName) :
    (typed body fields).texts name =
      fields.texts name ++ (if name = .contentType then body.map (·.contentType.text) else none).toList := by
  cases body with
  | none =>
    rw [Option.map_none, ite_self]
    exact (List.append_nil _).symm
  | some body =>
    rw [typed, Headers.append, Headers.texts_append, Headers.texts_single]
    rfl

/-- Where no type of a body stands behind them, the values under a name have one source. -/
theorem texts_of_request {client : Client} {endpoint : Endpoint α} {options : Options} {url : Url} {request : Request}
    (composed : client.request endpoint options url = .ok request) {body : Option Body}
    (found : endpoint.body = .ok body) {name : HeaderName} (bodiless : name = .contentType → body = none) :
    request.headers.texts name = name.outgoing ((body.map Body.octets).getD [])
      (if name.texts options.headers = [] then
        match if name = .authorization then url.basic? else none with
        | some credentials => [credentials]
        | none => client.headers.texts name
      else name.texts options.headers) := by
  obtain ⟨fields, body, read, found', rfl⟩ := request_eq_ok_iff.mp composed
  cases found.symm.trans found'
  have untyped : (if name = .contentType then body.map (·.contentType.text) else none) = none := by
    split
    next typed =>
      rw [bodiless typed]
      rfl
    next other => rfl
  rw [Headers.texts_coded, Headers.texts_fill, texts_typed, untyped, Option.toList_none, List.append_nil,
    Headers.texts_replace, Options.texts_fields read, texts_ownFields]
  refine congrArg _ ?_
  by_cases silent : name.texts options.headers = []
  · rw [if_pos silent, if_pos silent]
    cases if name = .authorization then url.basic? else none <;> rfl
  · rw [if_neg silent, if_neg silent, if_neg silent]

theorem texts_untyped {config : ClientConfig} {tokenHeader : HeaderName} {client : Client}
    (made : ofConfig config tokenHeader = .ok client) {endpoint : Endpoint α} {options : Options}
    {request : Request} (sent : client.Sends endpoint options request) {body : Option Body}
    (found : endpoint.body = .ok body) {name : HeaderName} (bodiless : name = .contentType → body = none) :
    request.headers.texts name = name.outgoing ((body.map Body.octets).getD [])
      (if name.texts options.headers = [] then
        ((if name = .authorization then config.address.basic? else none).or (config.text? tokenHeader name)).toList
      else name.texts options.headers) := by
  obtain ⟨based, _, standing⟩ := ofConfig_eq_ok made
  obtain ⟨url, built, composed⟩ := sent.made
  rw [texts_of_request composed found bodiless, basic?_of_url built, based, standing]
  cases if name = .authorization then config.address.basic? else none <;> rfl

private theorem texts_contentType {client : Client} {endpoint : Endpoint α} {options : Options} {request : Request}
    (sent : client.Sends endpoint options request) {body : Body} (found : endpoint.body = .ok (some body)) :
    request.headers.texts .contentType = HeaderName.contentType.texts options.headers ++ [body.contentType.text] := by
  obtain ⟨url, _, composed⟩ := sent.made
  obtain ⟨fields, _, read, found', rfl⟩ := request_eq_ok_iff.mp composed
  cases found.symm.trans found'
  have plain : HeaderName.contentType ≠ .authorization := by decide
  have before : ((ownFields url).replace fields).texts .contentType =
      HeaderName.contentType.texts options.headers := by
    rw [Headers.texts_replace, Options.texts_fields read, texts_ownFields, if_neg plain]
    split
    next none => exact none.symm
    next some => rfl
  rw [Headers.texts_coded, HeaderName.outgoing_of_ne (by decide), Headers.texts_fill, texts_typed, before, if_pos rfl,
    Option.map_some, if_neg]
  · rfl
  · exact List.append_ne_nil_of_right_ne_nil _ (List.cons_ne_nil _ _)

/-- The values under each name of the request of a call, except for the host and the length
of the body, which the HTTP library tells. The type of a body stands behind what the call
gives for it. Otherwise the values of the call are all there are, or the credentials if
there are none of these, or else what the client has. Transfer codings are made to fit the
body, and none goes out without one. -/
theorem texts_of_sends {config : ClientConfig} {tokenHeader : HeaderName} {client : Client}
    (made : ofConfig config tokenHeader = .ok client) {endpoint : Endpoint α} {options : Options}
    {request : Request} (sent : client.Sends endpoint options request) :
    ∃ body, endpoint.body = .ok body ∧
      (∀ typed, body = some typed → request.headers.texts .contentType =
        HeaderName.contentType.texts options.headers ++ [typed.contentType.text]) ∧
      ∀ name, name ≠ .host → name ≠ .contentLength → (name = .contentType → body = none) →
        request.headers.texts name = name.outgoing ((body.map Body.octets).getD [])
          (if name.texts options.headers = [] then
            ((if name = .authorization then config.address.basic? else none).or (config.text? tokenHeader name)).toList
          else name.texts options.headers) := by
  obtain ⟨url, _, composed⟩ := sent.made
  obtain ⟨_, body, _, found, _⟩ := request_eq_ok_iff.mp composed
  refine ⟨body, found, fun typed some => ?_, fun name _ _ bodiless => texts_untyped made sent found bodiless⟩
  subst some
  exact texts_contentType sent found

theorem exists_sends {client : Client} {endpoint : Endpoint α} {options : Options} {url : Url} {body : Option Body}
    (built : client.url endpoint = .ok url) (read : options.fields.isOk = true) (found : endpoint.body = .ok body)
    (web : url.IsWeb) (short : isTooLong url = false) : ∃ request, client.Sends endpoint options request := by
  cases fields : options.fields with
  | error error =>
    rw [fields] at read
    cases read
  | ok fields' =>
    obtain ⟨request, made⟩ : ∃ request, client.request endpoint options url = .ok request :=
      ⟨_, request_eq_ok_iff.mpr ⟨fields', body, fields, found, rfl⟩⟩
    exact ⟨request, sends_of_made built made web short⟩

def fullConfig : ClientConfig :=
  { address := ⟨"http", .authority ⟨"u", some "p", .name "localhost", some 4001⟩, .segments [""], none, none⟩
    token := "secret", timeout := .ofSeconds 30, userAgent := some "ledger"
    headers := .ofList [("Authorization", "none"), ("X-Trace", "0"), ("x-kind", "test")] }

/-- A transaction whose call sets a type and a transfer coding of its own. -/
theorem texts_of_sends_fullConfig :
    let call := ((((Node.rawTransaction [1, 2]).header "Content-Type" "text/plain").header "X-TRACE" "1").header
      "x-trace" "2").header "Transfer-Encoding" "gzip"
    ∃ client request, ofConfig fullConfig Service.node.tokenHeader = .ok client ∧
      client.Sends call.endpoint call.options request ∧
      call.endpoint.body = .ok (some (.binary [1, 2])) ∧
      request.headers.texts .contentType = ["text/plain", "application/x-binary"] ∧
      request.headers.texts .authorization = ["Basic dTpw"] ∧
      request.headers.texts ⟨"x-trace", by decide⟩ = ["1", "2"] ∧
      request.headers.texts .userAgent = ["ledger"] ∧
      request.headers.texts .transferEncoding = ["gzip, chunked"] := by
  intro call
  let client : Client :=
    { base := fullConfig.address, timeout := .ofSeconds 30
      headers := [
        (.accept, ⟨"*/*", by decide⟩), (.authorization, ⟨"none", by decide⟩),
        (⟨"x-trace", by decide⟩, ⟨"0", by decide⟩), (⟨"x-kind", by decide⟩, ⟨"test", by decide⟩),
        (Service.node.tokenHeader, ⟨"secret", by decide⟩), (.userAgent, ⟨"ledger", by decide⟩)] }
  have made : ofConfig fullConfig Service.node.tokenHeader = .ok client := rfl
  have found : call.endpoint.body = .ok (some (.binary [1, 2])) := rfl
  obtain ⟨request, sent⟩ : ∃ request, client.Sends call.endpoint call.options request :=
    exists_sends rfl (by decide +kernel) found (.inl rfl) (by decide +kernel)
  obtain ⟨body, given, behind, others⟩ := texts_of_sends made sent
  cases given.symm.trans found
  have other : ∀ {name : HeaderName}, name ≠ .contentType → name = .contentType → some (Body.binary [1, 2]) = none :=
    fun different same => absurd same different
  refine ⟨client, request, made, sent, found, behind (.binary [1, 2]) rfl, ?_, ?_, ?_, ?_⟩
  · exact others .authorization (by decide) (by decide) (other (by decide))
  · exact others ⟨"x-trace", by decide⟩ (by decide) (by decide) (other (by decide))
  · exact others .userAgent (by decide) (by decide) (other (by decide))
  · exact (others .transferEncoding (by decide) (by decide) (other (by decide))).trans (by decide +kernel)

/-- A call without a body that asks for a transfer coding. -/
def gzipStatus : Call [] NodeStatusResponse := Node.status.header "transfer-encoding" "gzip"

/-- A user whose name is no text leaves no trace in a request, and nor do transfer codings
where there is no body. -/
theorem user_without_text :
    (∃ client request, Service.node.connect "http://%FF@localhost:4001/" "" = .ok client ∧
      client.base.authority?.map (·.user) = some "%FF" ∧
      client.Sends Node.status.endpoint Node.status.options request ∧
      HeaderName.authorization.texts Node.status.options.headers = [] ∧
      request.headers.texts .authorization = []) ∧
    ∃ client request, Service.node.connect "http://localhost:4001/" "" = .ok client ∧
      client.Sends gzipStatus.endpoint gzipStatus.options request ∧
      HeaderName.transferEncoding.texts gzipStatus.options.headers = ["gzip"] ∧
      request.headers.texts .transferEncoding = [] := by
  let client : String → Client := fun user =>
    { base := ⟨"http", .authority ⟨user, none, .name "localhost", some 4001⟩, .segments [""], none, none⟩
      headers := standardHeaders, timeout := .ofSeconds 30 }
  have bare : Node.status.endpoint.body = .ok none := rfl
  obtain ⟨plain, unnamed⟩ : ∃ request, (client "%FF").Sends Node.status.endpoint Node.status.options request :=
    exists_sends rfl rfl bare (.inl rfl) (by decide +kernel)
  have read : gzipStatus.options.fields.isOk = true := by decide +kernel
  have empty : gzipStatus.endpoint.body = .ok none := rfl
  obtain ⟨coded, sent⟩ : ∃ request, (client "").Sends gzipStatus.endpoint gzipStatus.options request :=
    exists_sends rfl read empty (.inl rfl) (by decide +kernel)
  refine ⟨⟨client "%FF", plain, rfl, rfl, unnamed, rfl, ?_⟩, ⟨client "", coded, rfl, sent, by decide +kernel, ?_⟩⟩
  · obtain ⟨url, built, composed⟩ := unnamed.made
    rw [texts_of_request composed bare fun _ => rfl, basic?_of_url built]
    rfl
  · obtain ⟨_, _, composed⟩ := sent.made
    exact texts_of_request composed empty fun _ => rfl

end Client
end LedgerClient
