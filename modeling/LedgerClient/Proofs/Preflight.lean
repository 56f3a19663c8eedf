import LedgerClient.Proofs.CallAddress
import LedgerClient.Proofs.Redirects
import LedgerClient.Proofs.RequestHeaders

/-! What a call describes is what it sends. Before that it is checked stage by stage, and
the first stage that fails is all that comes of it. Two things that no stage looks at
come between a call and its request: addresses have a greatest length, and a length that
is declared for a body cuts it off. A server may ask for more requests than this one. -/

namespace LedgerClient

/-- What a computation fails with, if it fails. -/
def faultOf : Except ε α → Option ε
  | .ok _ => none
  | .error fault => some fault

private theorem faultOf_bind (first : Except ε α) (next : α → Except ε β) :
    faultOf (first >>= next) = match first with
      | .ok value => faultOf (next value)
      | .error fault => some fault := by
  cases first <;> rfl

private theorem faultOf_eq_some {computation : Except ε α} {fault : ε} :
    faultOf computation = some fault ↔ computation = .error fault := by
  cases computation with
  | ok value => exact iff_of_false (Option.some_ne_none fault).symm fun failed => nomatch failed
  | error other => exact ⟨fun same => congrArg _ (Option.some.inj same), fun same => by cases same; rfl⟩

/-- A traversal fails with what the first of its steps to fail does. -/
theorem faultOf_mapM (step : α → Except ε β) (items : List α) :
    faultOf (items.mapM step) = items.findSome? fun item => faultOf (step item) := by
  induction items with
  | nil => rfl
  | cons item items ih =>
    rw [List.mapM_cons, faultOf_bind, List.findSome?_cons, ← ih]
    cases step item with
    | error fault => rfl
    | ok value => cases items.mapM step <;> rfl

namespace Headers

/-- What a field is refused for. The name is looked at first. -/
def fault? (header : String × String) : Option ClientError :=
  if HeaderName.parse? header.1 = none then some (.invalidHeader (.name header.1))
  else if HeaderValue.parse? header.2 = none then some (.invalidHeader (.value header.1))
  else none

private theorem faultOf_field (header : String × String) : faultOf (field header.1 header.2) = fault? header := by
  rw [field, fault?]
  cases HeaderName.parse? header.1 with
  | none => rfl
  | some name => cases HeaderValue.parse? header.2 <;> rfl

theorem framed_eq {headers : Headers} {octets : List UInt8}
    (enough : ∀ length, headers.declaredLength? = some length → octets.length ≤ length) :
    headers.framed octets = octets := by
  rw [framed]
  split
  · rfl
  · split
    next length declared => exact List.take_of_length_le (enough length declared)
    next undeclared => rfl

/-- What goes out of a body is the same whether or not the transfer codings fit it already. -/
theorem framed_coded (headers : Headers) (octets : List UInt8) :
    (headers.coded octets).framed octets = headers.framed octets := by
  have lengths : (headers.coded octets).values .contentLength = headers.values .contentLength :=
    values_of_texts (by rw [texts_coded, HeaderName.outgoing_of_ne (by decide)])
  by_cases empty : octets = []
  · subst empty
    rw [framed_eq fun _ _ => Nat.zero_le _, framed_eq fun _ _ => Nat.zero_le _]
  · have bare : (headers.coded octets).has .transferEncoding = false ↔ headers.has .transferEncoding = false := by
      rw [has_eq_false, has_eq_false, texts_coded, HeaderName.outgoing_eq_nil empty]
    have chunked : (headers.coded octets).has .transferEncoding = headers.has .transferEncoding :=
      Bool.eq_iff_iff.mpr (by simpa only [Bool.not_eq_false] using not_congr bare)
    rw [framed, framed, declaredLength?, declaredLength?, lengths, chunked]

end Headers

private theorem Options.faultOf_fields (options : Options) :
    faultOf options.fields = options.headers.findSome? Headers.fault? := by
  unfold Options.fields
  rw [faultOf_mapM]
  exact congrArg (options.headers.findSome? ·) (funext Headers.faultOf_field)

/-- What is looked at before a request goes out, in this order. -/
inductive Stage
  | segments | base | query | headers | body
deriving DecidableEq, Repr

namespace Stage

def all : List Stage := [segments, base, query, headers, body]

private theorem findSome?_all (found : Stage → Option β) : all.findSome? found =
    (found segments).or ((found base).or ((found query).or ((found headers).or (found body)))) := by
  have step : ∀ (stage : Stage) (later : List Stage),
      (stage :: later).findSome? found = (found stage).or (later.findSome? found) := by
    intro stage later
    rw [List.findSome?_cons]
    cases found stage <;> rfl
  rw [all, step, step, step, step, step, List.findSome?_nil, Option.or_none]

end Stage

namespace Client

variable (client : Client) (endpoint : Endpoint α) (options : Options)

def faultAt : Stage → Option ClientError
  | .segments => (endpoint.path.find? isBadSegment).map fun entry => .invalidPath (.segment entry)
  | .base => match client.base.path with
    | .segments _ => none
    | .rootless _ => some (.invalidPath (.base client.base.text))
  | .query => faultOf endpoint.query
  | .headers => options.headers.findSome? Headers.fault?
  | .body => faultOf endpoint.body

/-- What the first stage to fail finds. -/
def fault? : Option ClientError := Stage.all.findSome? (client.faultAt endpoint options)

theorem faultOf_url : faultOf (client.url endpoint) = (client.faultAt endpoint options .segments).or
    ((client.faultAt endpoint options .base).or (client.faultAt endpoint options .query)) := by
  rw [Client.url, faultAt, faultAt, faultAt, Url.extend?]
  cases endpoint.path.find? isBadSegment with
  | some entry => rfl
  | none =>
    cases client.base.path with
    | rootless text => rfl
    | segments path =>
      dsimp only
      cases endpoint.query <;> rfl

private theorem faultOf_request (url : Url) : faultOf (client.request endpoint options url) =
    (client.faultAt endpoint options .headers).or (client.faultAt endpoint options .body) := by
  rw [request, faultAt, faultAt, ← Options.faultOf_fields]
  cases options.fields with
  | error fault => rfl
  | ok fields => cases endpoint.body <;> rfl

theorem fault?_eq (url : Url) : client.fault? endpoint options =
    (faultOf (client.url endpoint)).or (faultOf (client.request endpoint options url)) := by
  rw [fault?, Stage.findSome?_all, faultOf_url client endpoint options, faultOf_request, Option.or_assoc, Option.or_assoc]

variable {client endpoint options}

/-- Faults that are found before sending count as faults of transport, unless query or
body are none to begin with. -/
theorem kind_of_fault? {error : ClientError} (found : client.fault? endpoint options = some error) :
    error.kind = .transport ∨ endpoint.query = .error error ∨ endpoint.body = .error error := by
  obtain ⟨stage, _, found⟩ := List.exists_of_findSome?_eq_some found
  cases stage with
  | segments =>
    obtain ⟨entry, _, rfl⟩ := Option.map_eq_some_iff.mp found
    exact .inl rfl
  | base =>
    rw [faultAt] at found
    split at found
    · cases found
    · cases found
      exact .inl rfl
  | query => exact .inr (.inl (faultOf_eq_some.mp found))
  | headers =>
    obtain ⟨header, _, refused⟩ := List.exists_of_findSome?_eq_some found
    rw [Headers.fault?] at refused
    split at refused
    · cases refused
      exact .inl rfl
    · split at refused
      · cases refused
        exact .inl rfl
      · cases refused
  | body => exact .inr (.inr (faultOf_eq_some.mp found))

theorem execute_of_fault? {error : ClientError} (found : client.fault? endpoint options = some error)
    (server : Option Reply) : (client.execute endpoint options server).request = none ∧
      (client.execute endpoint options server).result = .error error := by
  -- All courses past the making of the request are ruled out at once.
  have sound : ∀ {url : Url} {request : Request}, client.url endpoint = .ok url →
      client.request endpoint options url ≠ .ok request := by
    intro url request built made
    rw [fault?_eq client endpoint options url, built, made] at found
    cases found
  generalize client.execute endpoint options server = exchange, execute_course client endpoint options server = course
  cases course with
  | unaddressed failed =>
    rw [fault?_eq client endpoint options client.base, failed] at found
    cases found
    exact ⟨rfl, rfl⟩
  | unmade built failed =>
    rw [fault?_eq client endpoint options _, built, failed] at found
    cases found
    exact ⟨rfl, rfl⟩
  | foreign built made _ => exact absurd made (sound built)
  | tooLong built made _ _ => exact absurd made (sound built)
  | unreachable built made _ _ => exact absurd made (sound built)
  | sent built made _ _ => exact absurd made (sound built)

end Client

theorem Utf8.length_le_encode (text : List Char) : text.length ≤ (encode text).length := by
  induction text with
  | nil => exact Nat.le_refl _
  | cons c text ih =>
    have some := c.utf8Size_pos
    rw [encode_cons, List.length_append, List.length_cons, String.length_utf8EncodeChar]
    omega

private theorem Percent.length_le_encode (keeps : UInt8 → Bool) (text : List Char) :
    text.length ≤ (encode keeps text).length := by
  have each : ∀ octets : List UInt8, octets.length ≤ (encodeOctets keeps octets).length := by
    intro octets
    induction octets with
    | nil => exact Nat.le_refl _
    | cons octet octets ih =>
      have written : 1 ≤ (if keeps octet then [Char.ofNat octet.toNat] else spell octet).length := by
        split <;> exact Nat.succ_pos _
      have split : encodeOctets keeps (octet :: octets) =
        (if keeps octet then [Char.ofNat octet.toNat] else spell octet) ++ encodeOctets keeps octets := rfl
      rw [split, List.length_append, List.length_cons]
      omega
  exact Nat.le_trans (Utf8.length_le_encode text) (each _)

namespace Client

theorem isTooLong_of_target {url : Url} (long : addressLimit < url.target.length) : isTooLong url = true := by
  have same : (requested url).target = url.target := by
    rw [requested, Url.withoutUser]
    split
    · split <;> rfl
    · rfl
  have whole := Utf8.length_le_encode (requested url).text.toList
  rw [Url.text, String.toList_ofList, same] at whole
  simp only [List.length_append, List.length_cons] at whole
  rw [isTooLong, decide_eq_true_eq, Url.text, String.toList_ofList, same]
  omega

theorem isWeb_of_url {client : Client} (web : client.base.IsWeb) {endpoint : Endpoint α} {url : Url}
    (built : client.url endpoint = .ok url) : url.IsWeb := by
  obtain ⟨_, _, _, _, _, rfl⟩ := url_eq_ok_iff.mp built
  exact web

end Client
end LedgerClient
