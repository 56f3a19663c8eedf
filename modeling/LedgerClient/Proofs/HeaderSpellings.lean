import LedgerClient.Proofs.RequestHeaders
import LedgerClient.Proofs.Tables

/-! Headers that a client is given one after the other. The settings hold one value for
each spelling of a name, and of these the greatest spelling decides what goes out,
however early it was given. -/

namespace LedgerClient

def valuesAs (spelling : String) (given : List (String × String)) : List String :=
  (given.filter (·.1 = spelling)).map (·.2)

private theorem valuesAs_cons (spelling : String) (header : String × String) (given : List (String × String)) :
    valuesAs spelling (header :: given) =
      if header.1 = spelling then header.2 :: valuesAs spelling given else valuesAs spelling given := by
  rw [valuesAs, List.filter_cons]
  by_cases same : header.1 = spelling
  · rw [if_pos same, if_pos (decide_eq_true same)]
    rfl
  · rw [if_neg same, if_neg fun equal => same (of_decide_eq_true equal)]
    rfl

private theorem valuesAs_append (spelling : String) (earlier later : List (String × String)) :
    valuesAs spelling (earlier ++ later) = valuesAs spelling earlier ++ valuesAs spelling later := by
  rw [valuesAs, List.filter_append, List.map_append]
  rfl

private theorem valuesAs_eq_nil {spelling : String} {given : List (String × String)} :
    valuesAs spelling given = [] ↔ ∀ header ∈ given, header.1 ≠ spelling := by
  simp only [valuesAs, List.map_eq_nil_iff, List.filter_eq_nil_iff, decide_eq_true_eq, ne_eq]

private theorem Dictionary.valuesAs_entries (table : Dictionary String) (key : String) :
    valuesAs key table.entries = (table.find? key).toList := by
  obtain ⟨entries, sorted⟩ := table
  rw [Dictionary.find?]
  induction entries with
  | nil => rfl
  | cons head rest ih =>
    obtain ⟨above, sorted⟩ := List.pairwise_cons.mp sorted
    rw [valuesAs_cons, Entries.find?_cons, ih sorted]
    split
    next same =>
      have single : valuesAs key rest = [] := valuesAs_eq_nil.mpr fun header inside equal =>
        String.lt_irrefl key (by simpa only [same, equal] using above header inside)
      rw [← ih sorted, single, Option.toList_some]
    next other => rfl

/-- A spelling of a name that no other spelling given exceeds, with the last value under it. -/
structure HeaderName.Prevails (name : HeaderName) (given : List (String × String)) (spelling value : String) :
    Prop where
  spells : name.spells spelling = true
  last : (valuesAs spelling given).getLast? = some value
  greatest : ∀ header ∈ given, name.spells header.1 = true → header.1 ≤ spelling

namespace ClientConfig

/-- The settings after more headers were given, one after the other. -/
def withHeaders (config : ClientConfig) (given : List (String × String)) : ClientConfig :=
  given.foldl (fun config header => config.withHeader header.1 header.2) config

private theorem withHeaders_keeps (config : ClientConfig) (given : List (String × String)) :
    (config.withHeaders given).address = config.address ∧ (config.withHeaders given).token = config.token ∧
      (config.withHeaders given).userAgent = config.userAgent := by
  induction given generalizing config with
  | nil => exact ⟨rfl, rfl, rfl⟩
  | cons header given ih => exact ih (config.withHeader header.1 header.2)

private theorem headers_withHeaders (config : ClientConfig) (given : List (String × String)) :
    (config.withHeaders given).headers = config.headers.insertAll given := by
  induction given generalizing config with
  | nil => rfl
  | cons header given ih => exact ih (config.withHeader header.1 header.2)

private theorem find?_withHeaders (config : ClientConfig) (given : List (String × String)) (spelling : String) :
    (config.withHeaders given).headers.find? spelling =
      (valuesAs spelling (config.headers.entries ++ given)).getLast? := by
  have last : Entries.last? spelling given = (valuesAs spelling given).getLast? := List.getLast?_map.symm
  rw [headers_withHeaders, Dictionary.find?_insertAll, last, valuesAs_append, List.getLast?_append,
    Dictionary.valuesAs_entries]
  cases config.headers.find? spelling <;> rfl

/-- The last header under a name in the order of the settings is the one that prevails. -/
theorem prevails_of_getLast? {config : ClientConfig} {given : List (String × String)} {name : HeaderName}
    {spelling value : String} (last : ((config.withHeaders given).headers.entries.filter
      fun header => name.spells header.1).getLast? = some (spelling, value)) :
    name.Prevails (config.headers.entries ++ given) spelling value := by
  obtain ⟨inside, spells⟩ := List.mem_filter.mp (List.mem_of_getLast? last)
  refine ⟨spells, ?_, fun header present spells' => ?_⟩
  · rw [← find?_withHeaders]
    exact Dictionary.mem_entries.mp inside
  · have found : (config.withHeaders given).headers.find? header.1 ≠ none := by
      rw [find?_withHeaders, ne_eq, List.getLast?_eq_none_iff]
      exact fun none => valuesAs_eq_nil.mp none header present rfl
    obtain ⟨value', found⟩ := Option.ne_none_iff_exists'.mp found
    have listed : (header.1, value') ∈ (config.withHeaders given).headers.entries.filter
        fun header => name.spells header.1 := List.mem_filter.mpr ⟨Dictionary.mem_entries.mpr found, spells'⟩
    -- The settings ascend, so none of the spellings before the last one exceeds it.
    have sorted := (config.withHeaders given).headers.ascending.filter fun header => name.spells header.1
    obtain ⟨front, split⟩ := List.getLast?_eq_some_iff.mp last
    rw [split] at listed sorted
    rcases List.mem_append.mp listed with before | same
    · have less := (List.pairwise_append.mp sorted).2.2 _ before _ (List.mem_singleton_self _)
      exact String.not_lt.mp (String.lt_asymm less)
    · cases List.mem_singleton.mp same
      exact String.le_refl _

private theorem exists_prevails {config : ClientConfig} {given : List (String × String)} {name : HeaderName}
    (named : name.texts given ≠ []) : ∃ spelling value,
      name.Prevails (config.headers.entries ++ given) spelling value ∧
        (name.texts (config.withHeaders given).headers.entries).getLast? = some value := by
  cases last : ((config.withHeaders given).headers.entries.filter fun header => name.spells header.1).getLast? with
  | some header =>
    refine ⟨header.1, header.2, prevails_of_getLast? last, ?_⟩
    rw [HeaderName.texts, List.getLast?_map, last, Option.map_some]
  | none =>
    have unspelt := List.filter_eq_nil_iff.mp (List.getLast?_eq_none_iff.mp last)
    refine absurd (List.map_eq_nil_iff.mpr (List.filter_eq_nil_iff.mpr fun header present spells => ?_)) named
    have unfound : (config.withHeaders given).headers.find? header.1 = none :=
      Option.eq_none_iff_forall_ne_some.mpr fun value found =>
        unspelt (header.1, value) (Dictionary.mem_entries.mpr found) spells
    rw [find?_withHeaders, List.getLast?_eq_none_iff] at unfound
    exact valuesAs_eq_nil.mp unfound header (List.mem_append_right _ present) rfl

end ClientConfig

namespace HeaderName

private theorem valuesAs_filter {name : HeaderName} {spelling : String} (spells : name.spells spelling = true)
    (given : List (String × String)) :
    valuesAs spelling (given.filter fun header => name.spells header.1) = valuesAs spelling given := by
  rw [valuesAs, List.filter_filter]
  refine congrArg (List.map Prod.snd) (List.filter_congr fun header _ => ?_)
  by_cases same : header.1 = spelling
  · rw [same, spells, Bool.and_true]
  · rw [decide_eq_false same, Bool.false_and]

private theorem Prevails.mem {name : HeaderName} {given : List (String × String)} {spelling value : String}
    (prevails : name.Prevails given spelling value) : (spelling, value) ∈ given := by
  obtain ⟨header, found, rfl⟩ := List.mem_map.mp (List.mem_of_getLast? prevails.last)
  obtain ⟨inside, same⟩ := List.mem_filter.mp found
  rw [← of_decide_eq_true same]
  exact inside

/-- Where the last header of a name is given in the spelling that prevails, it is the one that counts. -/
theorem Prevails.eq_last {name : HeaderName} {earlier given : List (String × String)} {spelling value : String}
    (prevails : name.Prevails (earlier ++ given) spelling value) {last : String × String}
    (final : (given.filter fun header => name.spells header.1).getLast? = some last)
    (same : last.1 = spelling) : last.2 = value := by
  subst same
  obtain ⟨front, split⟩ := List.getLast?_eq_some_iff.mp final
  have ending : valuesAs last.1 given = valuesAs last.1 front ++ [last.2] := by
    rw [← valuesAs_filter prevails.spells given, split, valuesAs_append, valuesAs_cons last.1 last [], if_pos rfl]
    rfl
  have value_last := prevails.last
  rw [valuesAs_append, ending, ← List.append_assoc, List.getLast?_concat] at value_last
  exact Option.some.inj value_last

end HeaderName

namespace Client

/-- What goes out under a name that a call leaves to the headers of its client: the last
value given in the greatest spelling of the name, as it is unless it has to fit the body.
That is the value given last of all whenever that was in this spelling too. -/
theorem texts_of_withHeaders {config : ClientConfig} {given : List (String × String)} {tokenHeader : HeaderName}
    {client : Client} (made : ofConfig (config.withHeaders given) tokenHeader = .ok client)
    {endpoint : Endpoint α} {options : Options} {request : Request} (sent : client.Sends endpoint options request)
    {name : HeaderName} (named : name.texts given ≠ []) (silent : name.texts options.headers = [])
    (tokenless : name = tokenHeader → config.token = "") (agentless : name = .userAgent → config.userAgent = none)
    (bodiless : name = .contentType → endpoint.body = .ok none)
    (anonymous : name = .authorization → config.address.basic? = none) :
    ∃ spelling value body, name.Prevails (config.headers.entries ++ given) spelling value ∧
      endpoint.body = .ok body ∧
      request.headers.texts name = name.outgoing ((body.map Body.octets).getD []) [value] ∧
      ∀ last, (given.filter fun header => name.spells header.1).getLast? = some last →
        last.1 = spelling → last.2 = value := by
  obtain ⟨address, token, userAgent⟩ := config.withHeaders_keeps given
  obtain ⟨spelling, value, prevails, final⟩ := ClientConfig.exists_prevails named
  obtain ⟨_, _, composed⟩ := sent.made
  obtain ⟨_, body, _, found, _⟩ := request_eq_ok_iff.mp composed
  refine ⟨spelling, value, body, prevails, found, ?_, fun last => prevails.eq_last⟩
  have uncredited : (if name = .authorization then config.address.basic? else none) = none := by
    split
    next authorization => exact anonymous authorization
    next other => rfl
  have unagented : ¬(name = .userAgent ∧ config.userAgent.isSome) := by
    rintro ⟨agent, some⟩
    rw [agentless agent] at some
    cases some
  have untokened : ¬(name = tokenHeader ∧ config.token ≠ "") := fun ⟨token, filled⟩ => filled (tokenless token)
  have untyped : name = .contentType → body = none := fun type => Except.ok.inj (found.symm.trans (bodiless type))
  rw [texts_untyped made sent found untyped, if_pos silent, address, uncredited, Option.none_or, ClientConfig.text?,
    userAgent, if_neg unagented, token, if_neg untokened, final, Option.some_or, Option.toList_some]

/-- Settings to which headers are added, two names among them in several spellings. -/
def plainConfig : ClientConfig :=
  .ofAddress ⟨"http", .authority ⟨"", none, .name "localhost", some 4001⟩, .segments [""], none, none⟩

def kind : HeaderName := ⟨"x-kind", by decide⟩
def team : HeaderName := ⟨"x-team", by decide⟩

theorem texts_of_withHeaders_kind :
    let given := [("x-team", "1"), ("x-kind", "a"), ("X-Kind", "b"), ("x-kind", "c")]
    ∃ client request, ofConfig (plainConfig.withHeaders given) Service.node.tokenHeader = .ok client ∧
      client.Sends Node.status.endpoint Node.status.options request ∧
      kind.texts given ≠ [] ∧ kind.texts Node.status.options.headers = [] ∧
      (kind = Service.node.tokenHeader → plainConfig.token = "") ∧
      (kind = .userAgent → plainConfig.userAgent = none) ∧
      (kind = .contentType → Node.status.endpoint.body = .ok none) ∧
      (kind = .authorization → plainConfig.address.basic? = none) ∧
      request.headers.texts kind = ["c"] := by
  intro given
  let client : Client :=
    { base := plainConfig.address, timeout := .ofSeconds 30
      headers := [(.accept, ⟨"*/*", by decide⟩), (kind, ⟨"c", by decide⟩), (team, ⟨"1", by decide⟩)] }
  have made : ofConfig (plainConfig.withHeaders given) Service.node.tokenHeader = .ok client := rfl
  obtain ⟨request, sent⟩ : ∃ request, client.Sends Node.status.endpoint Node.status.options request :=
    exists_sends rfl rfl (rfl : Node.status.endpoint.body = .ok none) (.inl rfl) (by decide +kernel)
  have named : kind.texts given ≠ [] := by decide
  have tokenless : kind = Service.node.tokenHeader → plainConfig.token = "" := fun _ => rfl
  have agentless : kind = .userAgent → plainConfig.userAgent = none := fun _ => rfl
  have bodiless : kind = .contentType → Node.status.endpoint.body = .ok none := fun _ => rfl
  have anonymous : kind = .authorization → plainConfig.address.basic? = none := fun _ => rfl
  obtain ⟨spelling, value, _, prevails, _, texts, last⟩ :=
    texts_of_withHeaders made sent named rfl tokenless agentless bodiless anonymous
  have small : ∀ header ∈ plainConfig.headers.entries ++ given, kind.spells header.1 = true → "x-kind" ≤ header.1 →
      "x-kind" = header.1 := by decide
  have same := small _ prevails.mem prevails.spells (prevails.greatest ("x-kind", "a") (by decide) (by decide))
  rw [HeaderName.outgoing_of_ne (by decide), ← last ("x-kind", "c") (by decide) same] at texts
  exact ⟨client, request, made, sent, named, rfl, tokenless, agentless, bodiless, anonymous, texts⟩

/-- The same name in capitals, given later, is not what goes out. -/
theorem greater_spelling_stays :
    let given := [("x-team", "1"), ("X-Team", "2")]
    ∃ client request, ofConfig (plainConfig.withHeaders given) Service.node.tokenHeader = .ok client ∧
      client.Sends Node.status.endpoint Node.status.options request ∧
      team.texts given = ["1", "2"] ∧ team.texts Node.status.options.headers = [] ∧
      team ∉ [Service.node.tokenHeader, .userAgent, .contentType, .authorization] ∧
      request.headers.texts team = ["1"] := by
  intro given
  let client : Client :=
    { base := plainConfig.address, timeout := .ofSeconds 30
      headers := [(.accept, ⟨"*/*", by decide⟩), (team, ⟨"1", by decide⟩)] }
  have empty : Node.status.endpoint.body = .ok none := rfl
  obtain ⟨request, sent⟩ : ∃ request, client.Sends Node.status.endpoint Node.status.options request :=
    exists_sends rfl rfl empty (.inl rfl) (by decide +kernel)
  refine ⟨client, request, rfl, sent, by decide, rfl, by decide, ?_⟩
  obtain ⟨_, _, composed⟩ := sent.made
  exact texts_of_request composed empty fun _ => rfl

end Client
end LedgerClient
