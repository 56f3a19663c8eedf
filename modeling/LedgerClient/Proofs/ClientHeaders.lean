import LedgerClient.Proofs.HeaderFields

/-! The header fields that calls and clients bring along, told by the texts they were
set up with. A call keeps all that it is given, a client the last one for each name. -/

namespace LedgerClient

private theorem Headers.field_eq_ok {name value : String} {field : HeaderName × HeaderValue}
    (read : Headers.field name value = .ok field) :
    (∀ key : HeaderName, key.spells name = true ↔ key = field.1) ∧ field.2.text = value := by
  unfold Headers.field at read
  cases named : HeaderName.parse? name with
  | none => simp only [named, reduceCtorEq] at read
  | some key =>
    cases valued : HeaderValue.parse? value with
    | none => simp only [named, valued, reduceCtorEq] at read
    | some text =>
      simp only [named, valued, Except.ok.injEq] at read
      cases read
      exact ⟨fun _ => HeaderName.spells_iff_of_parse? named, Headers.text_of_parse? valued⟩

theorem Options.texts_fields {options : Options} {fields : Headers} (read : options.fields = .ok fields)
    (name : HeaderName) : fields.texts name = name.texts options.headers := by
  unfold Options.fields at read
  generalize options.headers = pairs at read
  induction pairs generalizing fields with
  | nil =>
    cases read
    rfl
  | cons pair pairs ih =>
    rw [List.mapM_cons] at read
    obtain ⟨field, first, read⟩ := bind_eq_ok.mp read
    obtain ⟨rest, more, read⟩ := bind_eq_ok.mp read
    cases read
    obtain ⟨spelt, text⟩ := Headers.field_eq_ok first
    rw [HeaderName.texts_cons, ← ih more, ← List.singleton_append, Headers.texts_append, Headers.texts_single]
    by_cases same : name = field.1
    · rw [if_pos same, if_pos ((spelt name).mpr same), ← text]
      rfl
    · rw [if_neg same, if_neg (mt (spelt name).mp same)]
      rfl

namespace ClientConfig

/-- The text that a client has for a name: a user agent and a token come before the
headers, of which the last one in the order of their keys counts. -/
def text? (config : ClientConfig) (tokenHeader name : HeaderName) : Option String :=
  if name = .userAgent ∧ config.userAgent.isSome then config.userAgent
  else if name = tokenHeader ∧ config.token ≠ "" then some config.token
  else (name.texts config.headers.entries).getLast?.or (if name = .accept then some "*/*" else none)

end ClientConfig

namespace Client

private theorem texts_standardHeaders (name : HeaderName) :
    standardHeaders.texts name = (if name = .accept then some "*/*" else none).toList :=
  Headers.texts_single name .accept _

/-- Putting fields in one after the other leaves the last one of a name. -/
theorem texts_foldlM {pairs : List (String × String)} {start headers : Headers}
    (made : pairs.foldlM (fun headers (name, value) => do
      let (field, text) ← Headers.field name value
      return headers.insert field text) start = .ok headers) (name : HeaderName) {before : Option String}
    (single : start.texts name = before.toList) :
    headers.texts name = ((name.texts pairs).getLast?.or before).toList := by
  induction pairs generalizing start before with
  | nil =>
    cases made
    exact single
  | cons pair pairs ih =>
    rw [List.foldlM_cons] at made
    obtain ⟨next, step, made⟩ := bind_eq_ok.mp made
    obtain ⟨field, read, step⟩ := bind_eq_ok.mp step
    cases step
    obtain ⟨spelt, text⟩ := Headers.field_eq_ok read
    rw [HeaderName.texts_cons]
    by_cases same : name = field.1
    · have single' : (start.insert field.1 field.2).texts name = (some pair.2).toList := by
        rw [Headers.texts_insert, if_pos same, text]
        rfl
      rw [ih made single', if_pos ((spelt name).mpr same), List.getLast?_cons]
      cases (name.texts pairs).getLast? <;> rfl
    · have single' : (start.insert field.1 field.2).texts name = before.toList := by
        rw [Headers.texts_insert, if_neg same, single]
      rw [ih made single', if_neg (mt (spelt name).mp same)]

def withToken (config : ClientConfig) (tokenHeader : HeaderName) (headers : Headers) : Except ClientError Headers :=
  if config.token = "" then .ok headers
  else match HeaderValue.parse? config.token with
    | some token => .ok (headers.insert tokenHeader token)
    | none => .error (.invalidHeader (.value tokenHeader.text))

def withUserAgent (config : ClientConfig) (headers : Headers) : Except ClientError Headers :=
  match config.userAgent with
  | none => .ok headers
  | some userAgent => match HeaderValue.parse? userAgent with
    | some userAgent => .ok (headers.insert .userAgent userAgent)
    | none => .error (.http .badUserAgent)

theorem ofConfig_eq (config : ClientConfig) (tokenHeader : HeaderName) : ofConfig config tokenHeader = do
    let headers ← config.headers.entries.foldlM
      (fun headers (name, value) => do
        let (field, text) ← Headers.field name value
        return headers.insert field text)
      standardHeaders
    let headers ← withToken config tokenHeader headers
    let headers ← withUserAgent config headers
    return { base := config.address, headers, timeout := config.timeout } := by
  unfold ofConfig
  congr 1
  funext headers
  unfold withToken withUserAgent
  by_cases empty : config.token = ""
  · simp only [if_pos empty]
    cases config.userAgent with
    | none => rfl
    | some userAgent =>
      dsimp only
      cases HeaderValue.parse? userAgent <;> rfl
  · simp only [if_neg empty]
    cases HeaderValue.parse? config.token with
    | none => rfl
    | some token =>
      cases config.userAgent with
      | none => rfl
      | some userAgent =>
        dsimp only
        cases HeaderValue.parse? userAgent <;> rfl

private theorem texts_withToken {config : ClientConfig} {tokenHeader : HeaderName} {before headers : Headers}
    (made : withToken config tokenHeader before = .ok headers) (name : HeaderName) :
    headers.texts name =
      if name = tokenHeader ∧ config.token ≠ "" then [config.token] else before.texts name := by
  unfold withToken at made
  split at made
  next empty =>
    cases made
    rw [if_neg fun both => both.2 empty]
  next filled =>
    split at made
    next value read =>
      cases made
      rw [Headers.texts_insert, Headers.text_of_parse? read]
      simp only [filled, ne_eq, not_false_eq_true, and_true]
    next bad => cases made

private theorem texts_withUserAgent {config : ClientConfig} {before headers : Headers}
    (made : withUserAgent config before = .ok headers) (name : HeaderName) :
    headers.texts name =
      if name = .userAgent ∧ config.userAgent.isSome then config.userAgent.toList else before.texts name := by
  unfold withUserAgent at made
  split at made
  next absent =>
    cases made
    rw [absent, if_neg fun both => Bool.false_ne_true both.2]
  next userAgent given =>
    split at made
    next value read =>
      cases made
      rw [Headers.texts_insert, Headers.text_of_parse? read, given]
      simp only [Option.isSome_some, and_true, Option.toList_some]
    next bad => cases made

theorem ofConfig_eq_ok {config : ClientConfig} {tokenHeader : HeaderName} {client : Client}
    (made : ofConfig config tokenHeader = .ok client) :
    client.base = config.address ∧ client.timeout = config.timeout ∧
      ∀ name, client.headers.texts name = (config.text? tokenHeader name).toList := by
  rw [ofConfig_eq] at made
  obtain ⟨first, folded, made⟩ := bind_eq_ok.mp made
  obtain ⟨second, tokened, made⟩ := bind_eq_ok.mp made
  obtain ⟨third, agented, made⟩ := bind_eq_ok.mp made
  cases made
  refine ⟨rfl, rfl, fun name => ?_⟩
  rw [texts_withUserAgent agented, texts_withToken tokened, texts_foldlM folded name (texts_standardHeaders name),
    ClientConfig.text?]
  split
  next agent => rfl
  next other => split <;> rfl

end Client
end LedgerClient
