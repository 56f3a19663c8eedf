import LedgerClient.Proofs.Answers
import LedgerClient.Proofs.FilterQueries
import LedgerClient.Proofs.RequestSafety

/-! Calls on routes whose entries need no escape. The path of the request is that of the
base address with the entries behind it as they are, and what is left to be known about
the call is whether its address can be requested and what the reply holds. -/

namespace LedgerClient

namespace Url

/-- Letters, digits and hyphens, and at least one of them. -/
def IsPlain (entry : String) : Prop :=
  entry ≠ "" ∧ ∀ c ∈ entry.toList, c.toNat < 0x80 ∧ (c.isAlphanum || c = '-') = true

instance (entry : String) : Decidable (IsPlain entry) :=
  decidable_of_iff (entry ≠ "" ∧ entry.toList.all fun c => c.toNat < 0x80 && (c.isAlphanum || c = '-'))
    (by simp [IsPlain])

theorem isPlain_number (n : UInt64) : IsPlain (toString n) := by
  have checked : ∀ d < 10, (Nat.digitChar d).toNat < 0x80 ∧
      ((Nat.digitChar d).isAlphanum || Nat.digitChar d = '-') = true := by decide
  rw [show toString n = toString n.toNat from rfl, Nat.toString_eq_ofList_toDigits]
  refine ⟨fun empty => ?_, fun c inside => ?_⟩
  · have digits := congrArg String.toList empty
    rw [String.toList_ofList] at digits
    exact Nat.toDigits_ne_nil digits
  · rw [String.toList_ofList] at inside
    obtain ⟨d, below, rfl⟩ := Host.digit_of_mem (by decide) inside
    exact checked d below

private theorem IsPlain.kept {entry : String} (plain : IsPlain entry) (special : Bool) : ∀ c ∈ entry.toList,
    c.toNat < 0x80 ∧ keptInSegment special (UInt8.ofNat c.toNat) = true ∧ isDropped c = false ∧ c ≠ '.' := by
  have checked : ∀ c : Char, c.toNat < 0x80 → (c.isAlphanum || c = '-') = true →
      keptInSegment special (UInt8.ofNat c.toNat) = true ∧ isDropped c = false ∧ c ≠ '.' :=
    Percent.forall_ascii (by cases special <;> decide +kernel)
  intro c inside
  obtain ⟨small, mark⟩ := plain.2 c inside
  exact ⟨small, checked c small mark⟩

theorem IsPlain.unbroken {entry : String} (plain : IsPlain entry) : Unbroken entry.toList :=
  fun c inside => (plain.kept true c inside).2.2.1

theorem IsPlain.sound {entry : String} (plain : IsPlain entry) : Client.isBadSegment entry = false := by
  simp only [Client.isBadSegment, Bool.or_eq_false_iff, decide_eq_false_iff_not]
  refine ⟨⟨plain.1, ?_⟩, ?_⟩
  all_goals
    rintro rfl
    exact absurd rfl (plain.kept true '.' (by decide)).2.2.2

theorem IsPlain.segmentOf_eq {entry : String} (plain : IsPlain entry) (scheme : String) :
    segmentOf scheme entry = entry := by
  rw [segmentOf, dropBreaks_of_unbroken plain.unbroken, Percent.encode_of_kept
    (fun c inside => (plain.kept (isSpecial scheme) c inside).1)
    (fun c inside => (plain.kept (isSpecial scheme) c inside).2.1), String.ofList_toList]

theorem map_segmentOf {entries : List String} (plain : ∀ entry ∈ entries, IsPlain entry) (scheme : String) :
    entries.map (segmentOf scheme) = entries := by
  refine (List.map_congr_left fun entry present => ?_).trans (List.map_id _)
  exact (plain entry present).segmentOf_eq scheme

/-- The path of a base address without the slash at its end. -/
def root (base : Url) : List Char :=
  match base.path with
  | .segments path => (UrlPath.segments (trunk (withoutSlash path))).text
  | .rootless _ => []

/-- All that is written of an address in front of its path. -/
def origin (url : Url) : List Char := url.scheme.toList ++ ':' :: url.frontText

theorem foldl_append_plain {scheme : String} (web : isFile scheme = false) {entries : List String}
    (plain : ∀ entry ∈ entries, IsPlain entry) (filled : entries ≠ []) (path : List String) :
    entries.foldl (append scheme) path = trunk path ++ entries := by
  have ends := foldl_append web (fun entry present => (plain entry present).unbroken)
    (fun entry present => (plain entry present).sound) path
  rw [map_segmentOf plain, trunk] at ends
  split at ends
  next => exact absurd (List.append_eq_nil_iff.mp ends.symm).2 filled
  next => exact ends

end Url

/-- What a request line says. -/
def Request.asked (request : Request) : Method × String := (request.method, request.target)

namespace Call
open Client

/-- A call that sends no body and has no settings of its own, on a route of plain entries. -/
structure IsPlain (call : Call filters α) : Prop where
  entries : ∀ entry ∈ call.path, Url.IsPlain entry
  filled : call.path ≠ []
  empty : call.body = none
  untouched : call.options = .empty

/-- The address of the call is one of the web, and not too long to be requested. -/
def Goes (call : Call filters α) (client : Client) : Prop :=
  ∃ url, call.url client = .ok url ∧ url.IsWeb ∧ isTooLong url = false

/-- What a reply holds for the call: the value of its body, if that is there as a whole and
the status is one of success. -/
def value? (call : Call filters α) (reply : Reply) : Option α :=
  match reply.received? with
  | some (status, body, .whole) => if status.isSuccess then (call.decode body).toOption else none
  | _ => none

/-- What stands on the request line behind the path of the base address. -/
def line (call : Call filters α) : List Char :=
  (UrlPath.segments call.path).text ++ match call.settings.entries with
    | [] => []
    | entries => '?' :: Form.encode entries

/-- What the call asks for with such a client. -/
def asked (call : Call filters α) (client : Client) : Method × String :=
  (call.method, String.ofList (client.base.root ++ call.line))

variable {call : Call filters α} {client : Client}

theorem target_of_plain (plain : call.IsPlain) (web : client.base.IsWeb) {url : Url}
    (built : call.url client = .ok url) : url.target = client.base.root ++ call.line := by
  obtain ⟨_, path, query, segments, asked, rfl⟩ := url_eq_ok_iff.mp built
  cases asked
  rw [line, Url.root, segments]
  simp only [Url.target, Url.withQuery, Url.queryText, UrlPath.text, endpoint,
    Url.foldl_append_plain web.not_file plain.entries plain.filled, List.flatMap_append, List.append_assoc]
  congr 2
  rw [query]
  cases call.settings.entries with
  | nil => rfl
  | cons pair pairs =>
    simp only [Query.ofPairs, Option.map_some, String.toList_ofList, Url.encode_form]

/-- The address that is requested, for a base address without user and fragment. -/
theorem text_of_plain (plain : call.IsPlain) (web : client.base.IsWeb) (anonymous : credentials? client.base = none)
    (whole : client.base.fragment = none) {url : Url} (built : call.url client = .ok url) :
    (requested url).text.toList = client.base.origin ++ (client.base.root ++ call.line) := by
  have target := target_of_plain plain web built
  obtain ⟨_, _, query, _, _, same⟩ := url_eq_ok_iff.mp built
  have scheme : url.scheme = client.base.scheme := by rw [same]; rfl
  have front : url.front = client.base.front := by rw [same]; rfl
  have fragment : url.fragment = none := by rw [same]; exact whole
  have unnamed : credentials? url = none := by
    rw [credentials?, Url.authority?, front]
    exact anonymous
  rw [requested, unnamed, Option.isSome_none, if_neg Bool.false_ne_true, Url.text, String.toList_ofList,
    Url.frontText, Url.fragmentText, target, scheme, front, fragment, List.append_nil, Url.origin, Url.frontText,
    List.append_assoc]
  rfl

/-- Whether a call goes is a matter of counting. -/
theorem goes_iff (plain : call.IsPlain) (web : client.base.IsWeb) {path : List String}
    (segments : client.base.path = .segments path) (anonymous : credentials? client.base = none)
    (whole : client.base.fragment = none) : call.Goes client ↔
      (Utf8.encode (client.base.origin ++ (client.base.root ++ call.line))).length ≤ addressLimit := by
  obtain ⟨url, built⟩ : ∃ url, call.url client = .ok url :=
    ⟨_, url_eq_ok_iff.mpr ⟨fun entry present => (plain.entries entry present).sound, _, _, segments, rfl, rfl⟩⟩
  have fits : isTooLong url = false ↔
      (Utf8.encode (client.base.origin ++ (client.base.root ++ call.line))).length ≤ addressLimit := by
    rw [isTooLong, text_of_plain plain web anonymous whole built, decide_eq_false_iff_not, Nat.not_lt]
  rw [← fits]
  constructor
  · rintro ⟨url', built', _, short⟩
    cases built.symm.trans built'
    exact short
  · intro short
    exact ⟨url, built, isWeb_of_url web built, short⟩

private theorem receive_eq_ok_iff {reply : Reply} {value : α} :
    (receive call.endpoint reply).2 = .ok value ↔ call.value? reply = some value := by
  rw [value?]
  cases received : reply.received? with
  | none =>
    obtain ⟨_, lost, _⟩ := receive_of_none call.endpoint received
    rw [lost]
    exact iff_of_false nofun nofun
  | some answer =>
    obtain ⟨status, body, delivery⟩ := answer
    by_cases whole : delivery = .whole
    · subst whole
      rw [receive_of_whole call.endpoint received]
      dsimp only
      cases success : status.isSuccess with
      | true =>
        rw [settle_of_success call.endpoint success, if_pos rfl]
        dsimp only [endpoint]
        cases call.decode body with
        | ok value' => exact ⟨fun same => by cases same; rfl, fun same => by cases same; rfl⟩
        | error fault => exact iff_of_false nofun nofun
      | false =>
        rw [settle_of_failure call.endpoint success, if_neg Bool.false_ne_true]
        exact iff_of_false nofun nofun
    · obtain ⟨_, lost, _⟩ := receive_of_broken call.endpoint received whole
      rw [lost]
      cases delivery with
      | whole => exact absurd rfl whole
      | cut => exact iff_of_false nofun nofun
      | stalled => exact iff_of_false nofun nofun

private theorem request_of_plain (plain : call.IsPlain) (client : Client) (url : Url) :
    ∃ request, client.request call.endpoint call.options url = .ok request ∧ request.method = call.method ∧
      request.target = String.ofList url.target := by
  have read : call.options.fields = .ok [] := by
    rw [plain.untouched]
    rfl
  exact ⟨_, request_eq_ok_iff.mpr ⟨[], none, read, congrArg Except.ok plain.empty, rfl⟩, rfl, rfl⟩

theorem execute_of_goes (plain : call.IsPlain) (goes : call.Goes client) (reply : Reply) :
    ∃ request, (call.execute client (some reply)).request = some request ∧ request.asked = call.asked client ∧
      (call.execute client (some reply)).result = (receive call.endpoint reply).2 := by
  obtain ⟨url, built, web, short⟩ := goes
  have base : client.base.IsWeb := by
    obtain ⟨_, _, _, _, _, rfl⟩ := url_eq_ok_iff.mp built
    exact web
  obtain ⟨request, made, method, target⟩ := request_of_plain plain client url
  rw [execute, execute_of_short built made web short]
  refine ⟨request, rfl, ?_, rfl⟩
  rw [Request.asked, asked, method, target, target_of_plain plain base built]

/-- A call that does not go fails on its own account, and never as one that was ended. -/
theorem execute_of_stays (plain : call.IsPlain) (stays : ¬call.Goes client) (server : Option Reply) :
    (call.execute client server).request = none ∧
      ∃ error, (call.execute client server).result = .error error ∧ error.isCancelled = false := by
  have sound : call.endpoint.path.find? isBadSegment = none :=
    List.find?_eq_none.mpr fun entry present => Bool.eq_false_iff.mp (plain.entries entry present).sound
  rw [execute]
  generalize client.execute call.endpoint call.options server = exchange,
    execute_course client call.endpoint call.options server = course
  cases course with
  | unaddressed failed =>
    -- Entries and query are in order, so that only the base address is left to blame.
    have fault := faultOf_url client call.endpoint call.options
    rw [failed, faultAt, sound, faultAt, faultAt] at fault
    split at fault
    · cases fault
    · cases fault
      exact ⟨rfl, _, rfl, rfl⟩
  | unmade built failed =>
    obtain ⟨_, made, _⟩ := request_of_plain plain client _
    cases made.symm.trans failed
  | foreign _ _ _ => exact ⟨rfl, _, rfl, rfl⟩
  | tooLong _ _ _ _ => exact ⟨rfl, _, rfl, rfl⟩
  | unreachable _ _ _ _ => exact ⟨rfl, _, rfl, rfl⟩
  | sent built _ web short => exact absurd ⟨_, built, web, short⟩ stays

/-- A call returns a value if it goes and the reply holds that value. -/
theorem execute_eq_ok_iff (plain : call.IsPlain) {reply : Reply} {value : α} :
    (call.execute client (some reply)).result = .ok value ↔ call.Goes client ∧ call.value? reply = some value := by
  by_cases goes : call.Goes client
  · obtain ⟨_, _, _, result⟩ := execute_of_goes plain goes reply
    rw [result, receive_eq_ok_iff, and_iff_right goes]
  · obtain ⟨_, error, failed, _⟩ := execute_of_stays plain goes (some reply)
    rw [failed]
    exact iff_of_false nofun fun both => goes both.1

end Call
end LedgerClient
