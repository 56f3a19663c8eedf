import LedgerClient.Client.Config
import LedgerClient.Proofs.Amounts
import LedgerClient.Proofs.Tables

/-! Settings of a client, made in two ways: from an address by changes one after the other,
and from a text of JSON that tells what the changes lead to. -/

namespace LedgerClient
open Json Json.Reader Json.Grammar

namespace Codec
variable [Codec α] {depth : Nat}

/-- The members stand for the entries, each with its key and the text of its value. -/
def Shows (depth : Nat) (members : List (String × List UInt8)) (entries : List (String × α)) : Prop :=
  members.Forall₂ (fun member entry => member.1 = entry.1 ∧
    (Codec.read depth : Reader α).run member.2 = .ok entry.2) entries

/-- The members that are left lead from the table so far to the whole table. -/
def Leads (depth : Nat) (whole : Dictionary α) (members : List (String × List UInt8)) (table : Dictionary α) : Prop :=
  ∃ left, Shows depth members left ∧ table.insertAll left = whole

def entryStep (depth : Nat) (key : String) (table : Dictionary α) : Reader (Dictionary α) := do
  colon
  return table.insert key (← Codec.read depth)

private theorem reads_entry (here : Local α) {whole table : Dictionary α} {key : String} {text : List UInt8}
    {members : List (String × List UInt8)} (leads : Leads depth whole ((key, text) :: members) table) :
    ∃ next, Leads depth whole members next ∧
      ∀ between, Blank between → Reads (entryStep depth key table) (between ++ 58 :: text) next := by
  obtain ⟨_, shows, same⟩ := leads
  cases shows with
  | @cons _ entry _ left first others =>
    obtain ⟨rfl, read⟩ := first
    refine ⟨table.insert entry.1 entry.2, ⟨left, others, same⟩, fun between blank => ?_⟩
    exact ((reads_of_run (here.reads depth) read).map _).colon blank

/-- A table is read from an object whose values are read; under a key that stands there more
than once the last value counts. -/
theorem reads_dictionary (here : Local α) {members : List (String × List UInt8)} {octets : List UInt8}
    (object : Object members octets) {entries : List (String × α)} (shows : Shows depth members entries) :
    Reads (Codec.read (depth + 1) : Reader (Dictionary α)) octets (.ofList entries) := by
  intro rest ends
  cases object with
  | @braces before inside after front sound back =>
    have start : Leads depth (.ofList entries) members .empty := ⟨entries, shows, (Dictionary.ofList_eq entries).symm⟩
    obtain ⟨table, ⟨none, nothing, same⟩, read⟩ := object_of_steps (Leads depth (.ofList entries))
      (fun key text members table _ leads => reads_entry here leads) sound start (after ++ rest)
    cases nothing
    cases same
    refine ⟨after, back, ?_⟩
    simp only [List.append_assoc, List.cons_append]
    exact read?_eq_done.mpr ⟨123, _, Next.behind front rfl _, rfl, read⟩

end Codec

namespace ClientConfig

/-- One change to the settings. -/
inductive Change
  | token (text : String)
  | timeout (seconds : UInt64)
  | header (name value : String)
  | userAgent (text : String)

namespace Change

def token? : Change → Option String
  | .token text => some text
  | _ => none

def seconds? : Change → Option UInt64
  | .timeout seconds => some seconds
  | _ => none

def header? : Change → Option (String × String)
  | .header name value => some (name, value)
  | _ => none

def userAgent? : Change → Option String
  | .userAgent text => some text
  | _ => none

end Change

def apply (config : ClientConfig) : Change → ClientConfig
  | .token text => config.withToken text
  | .timeout seconds => config.withTimeout (.ofSeconds seconds.toNat)
  | .header name value => config.withHeader name value
  | .userAgent text => config.withUserAgent text

def run (config : ClientConfig) (changes : List Change) : ClientConfig := changes.foldl apply config

section
variable (config : ClientConfig) (changes : List Change)

private theorem address_run : (config.run changes).address = config.address := by
  induction changes generalizing config with
  | nil => rfl
  | cons change changes ih =>
    have kept : (config.apply change).address = config.address := by cases change <;> rfl
    exact (ih (config.apply change)).trans kept

private theorem token_run :
    (config.run changes).token = (changes.filterMap Change.token?).getLast?.getD config.token := by
  apply foldl_last
  intro config change
  cases change <;> rfl

private theorem timeout_run : (config.run changes).timeout =
    ((changes.filterMap Change.seconds?).getLast?.map (Duration.ofSeconds ·.toNat)).getD config.timeout := by
  rw [← List.getLast?_map, List.map_filterMap]
  apply foldl_last
  intro config change
  cases change <;> rfl

private theorem headers_run :
    (config.run changes).headers = config.headers.insertAll (changes.filterMap Change.header?) := by
  induction changes generalizing config with
  | nil => rfl
  | cons change changes ih =>
    refine (ih (config.apply change)).trans ?_
    cases change <;> rfl

private theorem userAgent_run :
    (config.run changes).userAgent = (changes.filterMap Change.userAgent?).getLast?.or config.userAgent := by
  apply foldl_last?
  intro config change
  cases change <;> rfl

end

/-- What changes make of an address and the usual settings. -/
theorem run_ofAddress (address : Url) (changes : List Change) : (ofAddress address).run changes =
    { address
      token := (changes.filterMap Change.token?).getLast?.getD ""
      timeout := .ofSeconds ((changes.filterMap Change.seconds?).getLast?.getD 30).toNat
      headers := .ofList (changes.filterMap Change.header?)
      userAgent := (changes.filterMap Change.userAgent?).getLast? } := by
  have eta : ∀ config : ClientConfig,
      config = ⟨config.address, config.token, config.timeout, config.headers, config.userAgent⟩ := fun _ => rfl
  have seconds : ((changes.filterMap Change.seconds?).getLast?.map (Duration.ofSeconds ·.toNat)).getD
      (ofAddress address).timeout = .ofSeconds ((changes.filterMap Change.seconds?).getLast?.getD 30).toNat := by
    cases (changes.filterMap Change.seconds?).getLast? <;> rfl
  rw [eta ((ofAddress address).run changes), address_run, token_run, timeout_run, headers_run, userAgent_run, seconds,
    Dictionary.ofList_eq]
  simp only [ofAddress, Option.or_none]

/-- The texts of a number of seconds. -/
inductive SecondsText (n : UInt64) : List UInt8 → Prop
  | digits {before after : List UInt8} (front : Blank before) (back : Blank after) :
      SecondsText n (before ++ (numeral n.toNat ++ after))

/-- The texts of a user agent, or of none. -/
inductive AgentText : Option String → List UInt8 → Prop
  | null {before after : List UInt8} (front : Blank before) (back : Blank after) :
      AgentText none (before ++ 110 :: 117 :: 108 :: 108 :: after)
  | quoted {content : String} {text : List UInt8} (quoted : Codec.Quoted content text) : AgentText (some content) text

/-- The texts of an object that lists headers in their order. -/
inductive HeadersText (headers : List (String × String)) (text : List UInt8) : Prop
  | object {members : List (String × List UInt8)} (object : Object members text)
      (quoted : members.Forall₂ (fun member header => member.1 = header.1 ∧ Codec.Quoted header.2 member.2) headers)

section
variable {depth : Nat} {text : List UInt8}

private theorem run_address {address : String} {url : Url} (parsed : Url.parse address = .ok url)
    (quoted : Codec.Quoted address text) : (addressCodec.read depth).run text = .ok (some url) := by
  refine Codec.run_text_iff.mpr ⟨address, quoted, ?_⟩
  rw [parsed]

private theorem run_seconds {n : UInt64} (shown : SecondsText n text) :
    (timeoutCodec.read depth).run text = .ok (.ofSeconds n.toNat) := by
  cases shown with
  | @digits before after front back =>
    let literal : Literal := ⟨[], numeral n.toNat, [], [], .inl rfl, whole_numeral _, .none, .none⟩
    have stands : literal.Stands (before ++ (literal.octets ++ after)) := .padded front back
    have magnitude : literal.magnitude = n.toNat := ofDigitChars_numeral n.toNat
    have octets : literal.octets = numeral n.toNat := List.append_nil _
    rw [octets] at stands
    have fits : literal.magnitude ≤ 18446744073709551615 := by
      have small := n.toNat_lt
      omega
    exact run_map_iff.mpr ⟨n, (Codec.run_amount_iff stands).mpr ⟨⟨rfl, rfl, rfl, fits⟩, magnitude.symm⟩, rfl⟩

private theorem run_agent {userAgent : Option String} (shown : AgentText userAgent text) :
    (Codec.read depth : Reader (Option String)).run text = .ok userAgent := by
  cases shown with
  | @null before after front back =>
    exact Codec.run_null (Next.behind front rfl _) rfl back
  | @quoted content _ quoted =>
    have read : (Codec.read depth : Reader String).run text = .ok content := Codec.run_string_iff.mpr quoted
    cases quoted with
    | quotes front spelt back =>
      exact (Codec.run_some_iff inferInstance (Next.behind front rfl _) (by decide)).mpr ⟨content, read, rfl⟩

private theorem run_headers {headers : List (String × String)} (shown : HeadersText headers text) :
    (Codec.read (depth + 1) : Reader (Dictionary String)).run text = .ok (.ofList headers) := by
  cases shown with
  | object object quoted =>
    apply run_of_reads
    refine Codec.reads_dictionary inferInstance object (quoted.imp fun member header shown => ?_)
    exact ⟨shown.1, Codec.run_string_iff.mpr shown.2⟩

end

/-- What stands under the key is the text of a setting, and it may be missing only if the
setting was left as it was. -/
structure Tells (members : List (String × List UInt8)) (key : String) (shows : List UInt8 → Prop) (untouched : Prop) :
    Prop where
  shown : ∀ text, (key, text) ∈ members → shows text
  missing : Absent key members → untouched

/-- The members of an object that has the address and the settings which changes lead to. -/
structure Describes (address : String) (changes : List Change) (members : List (String × List UInt8)) : Prop where
  distinct : Distinct (fields.map Field.key) members
  address : Tells members "address" (Codec.Quoted address) False
  token : Tells members "token" (Codec.Quoted ((changes.filterMap Change.token?).getLast?.getD ""))
    (changes.filterMap Change.token? = [])
  timeout : Tells members "http_timeout" (SecondsText ((changes.filterMap Change.seconds?).getLast?.getD 30))
    (changes.filterMap Change.seconds? = [])
  headers : Tells members "headers" (HeadersText (changes.filterMap Change.header?))
    (changes.filterMap Change.header? = [])
  userAgent : Tells members "user_agent" (AgentText (changes.filterMap Change.userAgent?).getLast?)
    (changes.filterMap Change.userAgent? = [])

private theorem local_seconds : @Codec.Local Duration timeoutCodec :=
  letI := timeoutCodec
  { reads := fun depth => (@Codec.Local.reads UInt64 _ _ depth).bind fun _ => .pure _
    passes := fun depth => (@Codec.Local.passes UInt64 _ _ depth).still fun _ => .pure _ }

private theorem localFields : LocalFields fields where
  each := by
    simp only [fields, Field.always, List.forall_mem_cons]
    exact ⟨Codec.local_text .., inferInstance, local_seconds, Codec.local_dictionary inferInstance,
      Codec.local_option inferInstance, fun field none => absurd none List.not_mem_nil⟩

/-- The settings as a row of the record. -/
def rowOf (config : ClientConfig) : Row fields :=
  (some config.address, config.token, config.timeout, config.headers, config.userAgent, ())

variable {members : List (String × List UInt8)}

/-- A setting that is told has the value of its text, and one that is left out its usual value. -/
theorem Tells.holds {α : Type} {key : String} {shows : List UInt8 → Prop} {untouched : Prop}
    (tells : Tells members key shows untouched) (reader : Reader α) (value usual : α)
    (reads : ∀ {text}, shows text → reader.run text = .ok value) (otherwise : untouched → value = usual) :
    (∀ text, (key, text) ∈ members → reader.run text = .ok value) ∧ (Absent key members → value = usual) :=
  ⟨fun text among => reads (tells.shown text among), fun absent => otherwise (tells.missing absent)⟩

section
variable {address : String} {url : Url} (parsed : Url.parse address = .ok url) {changes : List Change}
  (describes : Describes address changes members)
include parsed describes

private theorem replaces_of_describes (depth : Nat) :
    (rowOf ((ofAddress url).run changes)).Replaces (depth + 1) members (Row.blank fields) := by
  have address := describes.address.holds (addressCodec.read (depth + 1)) (some url) none
    (run_address parsed) False.elim
  have token := describes.token.holds (Codec.read (depth + 1)) _ "" Codec.run_string_iff.mpr fun untouched => by
    rw [untouched]
    rfl
  have timeout := describes.timeout.holds (timeoutCodec.read (depth + 1)) _ defaultTimeout run_seconds
    fun untouched => by
      rw [untouched]
      rfl
  have headers := describes.headers.holds (Codec.read (depth + 1)) _ .empty run_headers fun untouched => by
    rw [untouched]
    rfl
  have userAgent := describes.userAgent.holds (Codec.read (depth + 1)) _ none run_agent fun untouched => by
    rw [untouched]
    rfl
  rw [run_ofAddress]
  exact ⟨address.1, address.2, token.1, token.2, timeout.1, timeout.2, headers.1, headers.2, userAgent.1,
    userAgent.2, trivial⟩

private theorem decode_of_describes {octets : List UInt8} (object : Object members octets) :
    decode octets = .ok ((ofAddress url).run changes) := by
  have reads : Reads (Row.read name fields depthLimit) octets (rowOf ((ofAddress url).run changes)) :=
    Row.reads_object name localFields (by decide) object describes.distinct (replaces_of_describes parsed describes 126)
  obtain ⟨blank, all, read⟩ := reads [] ends_nil
  rw [List.append_nil, List.append_nil, Row.read, ← Codec.read?_blank] at read
  refine run_eq_ok_iff.mpr ⟨blank, all, Codec.placed_eq_done.mpr ?_⟩
  rw [ahead_bind, peek_bind]
  exact (bind_of_done read _).trans rfl

end

/-- Headers as an object, if there are any. -/
def headersJson : List (String × String) → Option Json
  | [] => none
  | headers => some (.object (headers.map fun header => (header.1, .string header.2)))

/-- What is told under a key, if anything. -/
def told (address : String) (changes : List Change) : String → Option Json
  | "address" => some (.string address)
  | "token" => (changes.filterMap Change.token?).getLast?.map .string
  | "http_timeout" => (changes.filterMap Change.seconds?).getLast?.map .ofUInt64
  | "headers" => headersJson (changes.filterMap Change.header?)
  | "user_agent" => (changes.filterMap Change.userAgent?).getLast?.map .string
  | _ => none

/-- The object with the address, the last token, time limit and user agent, and all headers in
their order, as far as there are any. -/
def settings (address : String) (changes : List Change) : List (String × Json) :=
  (fields.map Field.key).filterMap fun key => (told address changes key).map (key, ·)

/-- The members with the texts of their values. -/
def texts (members : List (String × Json)) : List (String × List UInt8) :=
  members.map fun member => (member.1, member.2.printed)

section
variable {address : String} {changes : List Change} {key : String} {json : Json}

private theorem mem_settings : (key, json) ∈ settings address changes ↔
    key ∈ fields.map Field.key ∧ told address changes key = some json := by
  simp only [settings, List.mem_filterMap, Option.map_eq_some_iff, Prod.mk.injEq]
  constructor
  · intro found
    obtain ⟨_, taken, _, held, rfl, rfl⟩ := found
    exact ⟨taken, held⟩
  · intro found
    exact ⟨key, found.1, json, found.2, rfl, rfl⟩

private theorem keys_settings : ((settings address changes).map Prod.fst).Sublist (fields.map Field.key) := by
  rw [settings, List.map_filterMap]
  generalize fields.map Field.key = keys
  induction keys with
  | nil => exact .slnil
  | cons key keys ih =>
    rw [List.filterMap_cons]
    cases told address changes key with
    | none => exact ih.cons key
    | some json => exact ih.cons_cons key

private theorem headersJson_eq_none {headers : List (String × String)} : headersJson headers = none ↔ headers = [] := by
  cases headers with
  | nil => exact iff_of_true rfl rfl
  | cons header headers => exact iff_of_false nofun nofun

private theorem floatless_headersJson {headers : List (String × String)} (held : headersJson headers = some json) :
    json.floatless = Bool.true := by
  cases headers with
  | nil => cases held
  | cons header headers =>
    cases held
    apply floatlessMembers_iff.mpr
    intro member inside
    obtain ⟨header, _, rfl⟩ := List.mem_map.mp inside
    rfl

private theorem headers_printed {headers : List (String × String)} (held : headersJson headers = some json) :
    HeadersText headers json.printed := by
  cases headers with
  | nil => cases held
  | cons header headers =>
    cases held
    apply HeadersText.object (object_printed ?_)
    · rw [List.map_map, List.forall₂_map_left_iff]
      exact List.forall₂_same.mpr fun header _ => ⟨rfl, Codec.quoted_printed header.2⟩
    · intro member inside
      obtain ⟨header, _, rfl⟩ := List.mem_map.mp inside
      exact text_printed (.string header.2) rfl

private theorem text_told (held : told address changes key = some json) : Text json.printed := by
  apply text_printed
  unfold told at held
  split at held
  case h_1 =>
    cases held
    rfl
  case h_2 | h_3 | h_5 =>
    obtain ⟨_, _, rfl⟩ := Option.map_eq_some_iff.mp held
    rfl
  case h_4 => exact floatless_headersJson held
  case h_6 => cases held

private theorem seconds_printed (n : UInt64) : SecondsText n (Json.printed (.ofUInt64 n)) := by
  have written : Utf8.encode (integerText (n.toNat : Int)) = numeral n.toNat := by
    rw [encode_integerText, if_neg (Int.not_lt.mpr (Int.natCast_nonneg _)), Int.natAbs_natCast]
  have text : SecondsText n ([] ++ (numeral n.toNat ++ [])) := .digits blank_nil blank_nil
  rw [List.nil_append, List.append_nil, ← written] at text
  exact text

end

section
variable {address : String} {changes : List Change} {members : List (String × Json)}
  (same : members.Perm (settings address changes))
include same

private theorem distinct_settings : Distinct (fields.map Field.key) (texts members) := by
  have apart : (fields.map Field.key).Nodup := by decide
  have once : (members.map Prod.fst).Nodup := (same.map Prod.fst).nodup_iff.mpr (apart.sublist keys_settings)
  have keys : (texts members).map Prod.fst = members.map Prod.fst := by
    rw [texts, List.map_map]
    rfl
  rw [← keys] at once
  exact once.sublist (List.filter_sublist.map Prod.fst)

private theorem tells_settings {key : String} (taken : key ∈ fields.map Field.key) {shows : List UInt8 → Prop}
    {untouched : Prop} (shown : ∀ json, told address changes key = some json → shows json.printed)
    (missing : told address changes key = none → untouched) : Tells (texts members) key shows untouched where
  shown text among := by
    obtain ⟨⟨_, json⟩, inside, same'⟩ := List.mem_map.mp among
    cases same'
    exact shown json (mem_settings.mp (same.mem_iff.mp inside)).2
  missing absent := by
    apply missing
    apply Option.eq_none_iff_forall_ne_some.mpr
    intro json held
    exact absent json.printed (List.mem_map_of_mem (same.mem_iff.mpr (mem_settings.mpr ⟨taken, held⟩)))

/-- A setting of which the last value is told is left out if there was none. -/
theorem tells_last {β : Type} {key : String} (taken : key ∈ fields.map Field.key) {given : List β} {write : β → Json}
    (last : told address changes key = given.getLast?.map write) {shows : List UInt8 → Prop}
    (shown : ∀ value, given.getLast? = some value → shows (write value).printed) :
    Tells (texts members) key shows (given = []) := by
  apply tells_settings same taken
  · intro json held
    rw [last] at held
    obtain ⟨value, found, rfl⟩ := Option.map_eq_some_iff.mp held
    exact shown value found
  · intro none
    rw [last] at none
    exact List.getLast?_eq_none_iff.mp (Option.map_eq_none_iff.mp none)

private theorem describes_settings : Describes address changes (texts members) where
  distinct := distinct_settings same
  address := by
    apply tells_settings same (by decide)
    · intro json held
      cases held
      exact Codec.quoted_printed address
    · intro none
      cases none
  token := tells_last same (by decide) rfl fun token last => by
    rw [last]
    exact Codec.quoted_printed token
  timeout := tells_last same (by decide) rfl fun seconds last => by
    rw [last]
    exact seconds_printed seconds
  headers := tells_settings same (by decide) (fun json held => headers_printed held) headersJson_eq_none.mp
  userAgent := tells_last same (by decide) rfl fun userAgent last => by
    rw [last]
    exact .quoted (Codec.quoted_printed userAgent)

end

/-- Settings that are made from an address by changes are those that are read from an object
which has the address, the last token, time limit and user agent that were set, and all headers
in their order. The object may have its members in any order, it may leave out what was never
set, and its text may be any that JSON has for it. Of the addresses that the URL library takes,
those with host names outside ASCII are not among these (see `Host.parse`). -/
theorem decode_as_changed {address : String} {config : ClientConfig} (made : parse address = .ok config)
    (changes : List Change) :
    (∀ members octets, Object members octets → Describes address changes members →
      decode octets = .ok (config.run changes)) ∧
    ∀ members, members.Perm (settings address changes) →
      decode (Json.printed (.object members)) = .ok (config.run changes) := by
  obtain ⟨url, parsed, rfl⟩ : ∃ url, Url.parse address = .ok url ∧ ofAddress url = config := by
    unfold parse at made
    cases parsed : Url.parse address with
    | error fault =>
      rw [parsed] at made
      cases made
    | ok url =>
      rw [parsed] at made
      exact ⟨url, rfl, Except.ok.inj made⟩
  constructor
  · intro members octets object describes
    exact decode_of_describes parsed describes object
  · intro members same
    have sound : ∀ member ∈ members, Text member.2.printed := by
      intro member inside
      exact text_told (mem_settings.mp (same.mem_iff.mp inside)).2
    exact decode_of_describes parsed (describes_settings same) (object_printed sound)

/-- A header and a token that are set twice, and no user agent. -/
theorem decode_as_changed_twice :
    let changes : List Change :=
      [.header "x-a" "1", .token "old", .timeout 5, .header "x-b" "2", .token "new", .header "x-a" "3"]
    ∃ config, parse "http://localhost:4001" = .ok config ∧
      decode (Utf8.encode ("\x7b\"headers\":\x7b\"x-a\":\"1\",\"x-b\":\"2\",\"x-a\":\"3\"\x7d,\"http_timeout\":5," ++
        "\"token\":\"new\",\"address\":\"http://localhost:4001\"\x7d").toList) = .ok (config.run changes) ∧
      (config.run changes).headers.entries = [("x-a", "3"), ("x-b", "2")] := by
  intro changes
  have made : ∃ config, parse "http://localhost:4001" = .ok config := ⟨_, rfl⟩
  obtain ⟨config, made⟩ := made
  let headers : Json := .object [("x-a", .string "1"), ("x-b", .string "2"), ("x-a", .string "3")]
  let members : List (String × Json) := [("headers", headers), ("http_timeout", .ofUInt64 5),
    ("token", .string "new"), ("address", .string "http://localhost:4001")]
  have same : members.Perm (settings "http://localhost:4001" changes) :=
    List.reverse_perm (settings "http://localhost:4001" changes)
  obtain ⟨_, read⟩ := decode_as_changed made changes
  refine ⟨config, made, read members same, ?_⟩
  rw [headers_run]
  cases made
  rfl

end ClientConfig
end LedgerClient
