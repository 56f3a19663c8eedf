import LedgerClient.Client.Call
import LedgerClient.Proofs.RequestHeaders

/-! What a request can hold, whatever is asked for. Texts of callers come in at many
places, and at none of them can they end a line or start a part that is not theirs. -/

namespace LedgerClient

namespace Url
open Percent (forall_octet forall_mem_encode hexDigit toNat_char_of_ascii)

/-- A character that may stand in a target: it is seen, and starts no fragment. -/
structure InTarget (c : Char) : Prop where
  above : 0x21 ≤ c.toNat
  below : c.toNat ≤ 0x7E
  mark : c ≠ '#'

instance (c : Char) : Decidable (InTarget c) :=
  decidable_of_iff (0x21 ≤ c.toNat ∧ c.toNat ≤ 0x7E ∧ c ≠ '#')
    ⟨fun ⟨above, below, mark⟩ => ⟨above, below, mark⟩, fun ⟨above, below, mark⟩ => ⟨above, below, mark⟩⟩

private theorem inTarget_hexDigit : ∀ n < 16, InTarget (hexDigit n) := by decide

private theorem octet_of_inTarget {text : List Char} (seen : ∀ c ∈ text, InTarget c) :
    ∀ octet ∈ Utf8.encode text, 0x21 ≤ octet ∧ octet ≤ 0x7E ∧ octet ≠ 35 := by
  intro octet inside
  rw [Utf8.encode_ascii fun c present => Nat.lt_of_le_of_lt (seen c present).below (by decide)] at inside
  obtain ⟨c, present, rfl⟩ := List.mem_map.mp inside
  obtain ⟨above, below, mark⟩ := seen c present
  have value := Utf8.toNat_ofNat_of_lt (n := c.toNat) (by omega)
  simp only [UInt8.le_iff_toNat_le, ne_eq, ← UInt8.toNat_inj, value]
  refine ⟨above, below, fun same => mark ?_⟩
  rw [← Char.ofNat_toNat c, same]
  rfl

private theorem inTarget_of_inSegment {c : Char} (inside : InSegment c) : InTarget c ∧ c ≠ '?' := by
  have checked : ∀ octet : UInt8, keptInPath octet = true →
      InTarget (Char.ofNat octet.toNat) ∧ Char.ofNat octet.toNat ≠ '?' :=
    forall_octet (p := fun octet => keptInPath octet = true →
      InTarget (Char.ofNat octet.toNat) ∧ Char.ofNat octet.toNat ≠ '?') (by decide +kernel)
  have kept := checked _ inside.2.1
  rwa [Utf8.toNat_ofNat_of_lt (by have := inside.1; omega), Char.ofNat_toNat] at kept

private theorem inTarget_path {path : List String} (tidy : Tidy path) :
    ∀ c ∈ (UrlPath.segments path).text, InTarget c ∧ c ≠ '?' := by
  intro c inside
  obtain ⟨segment, present, inside⟩ := List.mem_flatMap.mp inside
  rcases List.mem_cons.mp inside with rfl | inside
  · decide
  · exact inTarget_of_inSegment (tidy.inside segment present c inside)

private theorem inTarget_query (special : Bool) (text : List Char) :
    ∀ c ∈ Percent.encode (keptInQuery special) text, InTarget c := by
  have ascii : ∀ octet, keptInQuery special octet = true → octet.toNat < 0x80 := by
    intro octet kept
    cases special <;> exact visibleBut_ascii kept
  apply forall_mem_encode (p := InTarget) ascii
  · decide
  · exact inTarget_hexDigit
  · intro octet kept _
    have checked : ∀ special, ∀ octet : UInt8, keptInQuery special octet = true → InTarget (Char.ofNat octet.toNat) :=
      fun special => forall_octet (p := fun octet => keptInQuery special octet = true →
        InTarget (Char.ofNat octet.toNat)) (by cases special <;> decide +kernel)
    exact checked special octet kept

end Url

namespace Host
open Url

/-- Digits of numbers to the base sixteen and below. -/
theorem digit_of_mem {base n : Nat} (large : 1 < base) {c : Char} (inside : c ∈ Nat.toDigits base n) :
    ∃ d < base, c = Nat.digitChar d := by
  induction n using Nat.strongRecOn with
  | ind n ih =>
    by_cases small : n < base
    · rw [Nat.toDigits_of_lt_base small, List.mem_singleton] at inside
      exact ⟨n, small, inside⟩
    · have room : base ≤ n := by omega
      rw [Nat.toDigits_of_base_le large room] at inside
      rcases List.mem_append.mp inside with inside | inside
      · exact ih (n / base) (Nat.div_lt_self (by omega) large) inside
      · exact ⟨n % base, Nat.mod_lt _ (by omega), List.mem_singleton.mp inside⟩

private theorem inTarget_digits {base : Nat} (large : 1 < base) (small : base ≤ 16) (n : Nat) :
    ∀ c ∈ Nat.toDigits base n, InTarget c := by
  have checked : ∀ d < 16, InTarget (Nat.digitChar d) := by decide
  intro c inside
  obtain ⟨d, below, rfl⟩ := digit_of_mem large inside
  exact checked d (by omega)

private theorem inTarget_pieces (pieces : List Nat) : ∀ c ∈ piecesText pieces, InTarget c := by
  induction pieces with
  | nil => exact fun c inside => nomatch inside
  | cons piece pieces ih =>
    cases pieces with
    | nil => exact inTarget_digits (by decide) (by decide) piece
    | cons next pieces =>
      intro c inside
      rcases List.mem_append.mp inside with inside | inside
      · exact inTarget_digits (by decide) (by decide) piece c inside
      · rcases List.mem_cons.mp inside with rfl | inside
        · decide
        · exact ih c inside

private theorem inTarget_lower {c : Char} (fits : fitsName c = true) : InTarget c.toLower := by
  have checked : ∀ c : Char, c.toNat < 0x80 → fitsName c = true → InTarget c.toLower :=
    Percent.forall_ascii (by decide)
  simp only [fitsName, Bool.and_eq_true, decide_eq_true_eq] at fits
  have below : c.toNat < 0x80 := by omega
  exact checked c below (by simpa [fitsName] using fits)

private theorem inTarget_of_bracketed {text : List Char} {host : Host} (read : bracketed text = .ok host) :
    ∃ pieces, host = .ipv6 pieces := by
  unfold bracketed at read
  split at read
  · split at read
    next pieces _ =>
      cases read
      exact ⟨pieces, rfl⟩
    · cases read
  · cases read

private theorem inTarget_text {host : Host} (named : ∀ name, host = .name name → ∀ c ∈ name.toList, InTarget c) :
    ∀ c ∈ host.text, InTarget c := by
  cases host with
  | name name => exact named name rfl
  | ipv4 address =>
    intro c inside
    have decimal : ∀ n, ∀ c ∈ decimal n, InTarget c := inTarget_digits (by decide) (by decide)
    simp only [text, ipv4Text, List.mem_append, List.mem_cons] at inside
    rcases inside with inside | rfl | inside | rfl | inside | rfl | inside
    all_goals first | decide | exact decimal _ c inside
  | ipv6 pieces =>
    intro c inside
    simp only [text, ipv6Text, List.mem_cons, List.mem_append, List.not_mem_nil, or_false] at inside
    rcases inside with rfl | inside | rfl
    · decide
    · split at inside
      · exact inTarget_pieces _ c inside
      · simp only [List.mem_cons, List.mem_append] at inside
        rcases inside with inside | rfl | rfl | inside
        all_goals first | decide | exact inTarget_pieces _ c inside
    · decide

private theorem inTarget_of_parse {text : List Char} {host : Host} (read : parse text = .ok host) :
    ∀ c ∈ host.text, InTarget c := by
  apply inTarget_text
  rintro name rfl
  unfold parse at read
  split at read
  · obtain ⟨_, other⟩ := inTarget_of_bracketed read
    cases other
  · split at read
    · cases read
    next decoded _ =>
      split at read
      next fits =>
        dsimp only at read
        split at read
        · cases read
        split at read
        · split at read <;> cases read
        · cases read
          intro c inside
          rw [String.toList_ofList] at inside
          obtain ⟨d, present, rfl⟩ := List.mem_map.mp inside
          exact inTarget_lower (List.all_eq_true.mp fits d present)
      · cases read
end Host

namespace Url

private theorem host_of_authority {scheme : String} (special : isSpecial scheme = true) {followed : Bool}
    {text left : List Char} {found : Authority} (read : authority scheme followed text = .ok (found, left)) :
    ∃ hostText, Host.parse hostText = .ok found.host := by
  simp only [authority, special, if_pos] at read
  split at read
  all_goals
    split at read
    next empty => cases read
    next named =>
      obtain ⟨host, parsed, read⟩ := bind_eq_ok.mp read
      obtain ⟨portNumber, _, read⟩ := bind_eq_ok.mp read
      cases read
      exact ⟨_, parsed⟩

private theorem host_of_withAuthority {scheme : String} (special : isSpecial scheme = true) {text : List Char}
    {url : Url}
    (read : withAuthority scheme text = .ok url) : ∃ found, url.front = .authority found ∧
      ∀ c ∈ found.host.text, InTarget c := by
  unfold withAuthority at read
  dsimp only [] at read
  obtain ⟨⟨found, left⟩, named, read⟩ := bind_eq_ok.mp read
  cases read
  obtain ⟨hostText, parsed⟩ := host_of_authority special named
  exact ⟨found, rfl, Host.inTarget_of_parse parsed⟩

/-- An address of the web has a host, which is seen in all its characters. -/
theorem host_of_parse {text : String} {url : Url} (read : parse text = .ok url) (web : url.IsWeb) :
    ∃ found, url.front = .authority found ∧ ∀ c ∈ found.host.text, InTarget c := by
  obtain ⟨scheme, rest, special, _, read⟩ := withAuthority_of_parse read web
  exact host_of_withAuthority special read

end Url

/-- What a token of HTTP consists of. -/
def HeaderName.InToken (c : Char) : Prop := c.isAlphanum ∨ c ∈ "!#$%&'*+-.^_`|~".toList

instance : DecidablePred HeaderName.InToken := fun _ => inferInstanceAs (Decidable (_ ∨ _))

private theorem HeaderName.lower_token (name : HeaderName) :
    name.text ≠ "" ∧ ∀ c ∈ name.text.toList, InToken c ∧ c.toLower = c := by
  obtain ⟨filled, admitted⟩ := name.valid
  refine ⟨fun empty => filled (by rw [empty]; rfl), fun c inside => ?_⟩
  have checked : ∀ c : Char, c.toNat < 0x80 → admits c = true → InToken c ∧ c.toLower = c :=
    Percent.forall_ascii (by decide)
  have admitted : admits c = true := List.all_eq_true.mp admitted c inside
  have ascii : c.toNat < 128 := by
    simp only [admits, Bool.or_eq_true, List.contains_eq_mem, decide_eq_true_eq] at admitted
    rcases admitted with (digit | lower) | mark
    · exact Nat.lt_of_le_of_lt (Char.isDigit_iff_toNat.mp digit).2 (by decide)
    · have small : c.val ≤ 'z'.val := of_decide_eq_true (Bool.and_eq_true_iff.mp lower).2
      exact Nat.lt_of_le_of_lt (UInt32.le_iff_toNat_le.mp small) (by decide)
    · have marks : ['!', '#', '$', '%', '&', '\x27', '*', '+', '-', '.', '^', '_', '`', '|', '~'].all
          (fun c => decide (c.toNat < 128)) = true := by decide
      exact of_decide_eq_true (List.all_eq_true.mp marks c mark)
  exact checked c ascii admitted

private theorem HeaderValue.single_line (value : HeaderValue) :
    ∀ octet ∈ Utf8.encode value.text.toList, octet ≠ 13 ∧ octet ≠ 10 ∧ octet ≠ 0 := by
  intro octet inside
  have checked : ∀ octet, admits octet = true → octet ≠ 13 ∧ octet ≠ 10 ∧ octet ≠ 0 :=
    Percent.forall_octet (p := fun octet => admits octet = true → octet ≠ 13 ∧ octet ≠ 10 ∧ octet ≠ 0)
      (by decide +kernel)
  exact checked octet (List.all_eq_true.mp value.valid octet inside)

namespace Client
open Url

theorem origin_of_url {client : Client} {endpoint : Endpoint α} {url : Url} (built : client.url endpoint = .ok url) :
    url.scheme = client.base.scheme ∧ url.front = client.base.front := by
  obtain ⟨_, _, _, _, _, rfl⟩ := url_eq_ok_iff.mp built
  exact ⟨rfl, rfl⟩

/-- The target of a call: a path that holds no question mark, and behind it the query if
the endpoint has one. -/
theorem target_of_url {client : Client} {address : String} (read : Url.parse address = .ok client.base)
    {endpoint : Endpoint α} {url : Url} (built : client.url endpoint = .ok url) (web : url.IsWeb) :
    (∀ c ∈ url.target, InTarget c) ∧ (∀ c ∈ url.path.text, c ≠ '?') ∧
      ∃ query, endpoint.query = .ok query ∧ (url.query.isSome ↔ query.isSome) := by
  obtain ⟨_, path', query, segments', found, rfl⟩ := url_eq_ok_iff.mp built
  have web : client.base.IsWeb := web
  obtain ⟨path, segments, tidy⟩ := path_of_parse read web
  cases segments.symm.trans segments'
  have inside := inTarget_path (tidy_foldl_append web.special web.not_file (tidy_withoutSlash tidy) endpoint.path)
  refine ⟨fun c present => ?_, fun c present => (inside c present).2, query, found, ?_⟩
  · rcases List.mem_append.mp present with present | present
    · exact (inside c present).1
    · cases query with
      | none => cases present
      | some query =>
        rcases List.mem_cons.mp present with rfl | present
        · decide
        · rw [String.toList_ofList] at present
          exact inTarget_query _ _ c present
  · rw [withQuery, Option.isSome_map]

/-- Nothing that is given to a call or to its client gets out of its place in a request. The
target is made of characters that are seen, none of which starts a fragment; up to the
first question mark it is the path, and it has one only if the endpoint has a query. Names
of headers are tokens in lower case, no value of a header ends its line, and the host that
the request goes to is made of characters that are seen as well. -/
theorem request_injects_nothing {config : ClientConfig} (read : ∃ address, Url.parse address = .ok config.address)
    {tokenHeader : HeaderName} {client : Client} (made : ofConfig config tokenHeader = .ok client)
    {endpoint : Endpoint α} {options : Options} {request : Request} (sent : client.Sends endpoint options request) :
    (∀ octet ∈ Utf8.encode request.target.toList, 0x21 ≤ octet ∧ octet ≤ 0x7E ∧ octet ≠ 35) ∧
    (∃ url query, client.url endpoint = .ok url ∧ endpoint.query = .ok query ∧
      request.target.toList.takeWhile (· ≠ '?') = url.path.text ∧
      ('?' ∈ request.target.toList ↔ query.isSome) ∧
      ∃ authority, url.authority? = some authority ∧ ∀ c ∈ authority.host.text, InTarget c) ∧
    ∀ field ∈ request.headers,
      (field.1.text ≠ "" ∧ ∀ c ∈ field.1.text.toList, HeaderName.InToken c ∧ c.toLower = c) ∧
      ∀ octet ∈ Utf8.encode field.2.text.toList, octet ≠ 13 ∧ octet ≠ 10 ∧ octet ≠ 0 := by
  obtain ⟨url, built, composed⟩ := sent.made
  obtain ⟨url', built', web, _⟩ := sent.addressed
  cases built.symm.trans built'
  obtain ⟨address, read⟩ := read
  rw [← (ofConfig_eq_ok made).1] at read
  obtain ⟨seen, free, query, asked, same⟩ := target_of_url read built web
  obtain ⟨scheme, front⟩ := origin_of_url built
  rw [IsWeb, scheme] at web
  obtain ⟨found, authority, host⟩ := host_of_parse read web
  obtain ⟨_, _, _, _, rfl⟩ := request_eq_ok_iff.mp composed
  refine ⟨fun octet inside => ?_, ⟨url, query, built, asked, ?_, ?_, found, ?_, host⟩, fun field _ =>
    ⟨field.1.lower_token, field.2.single_line⟩⟩
  · rw [String.toList_ofList] at inside
    exact octet_of_inTarget seen octet inside
  · rw [String.toList_ofList, Url.target, List.takeWhile_append_of_pos fun c inside => decide_eq_true (free c inside),
      Url.queryText]
    cases url.query with
    | none => exact List.append_nil _
    | some text => exact List.append_nil _
  · rw [String.toList_ofList, ← same, Url.target, List.mem_append, or_iff_right fun mark => free _ mark rfl,
      Url.queryText]
    cases url.query with
    | none => simp only [List.not_mem_nil, Option.isSome_none, Bool.false_eq_true]
    | some text => simp only [List.mem_cons, true_or, Option.isSome_some]
  · rw [Url.authority?, front, authority]

/-- Entries and a query that try to start other parts, and a header in capitals. -/
theorem request_injects_nothing_custom :
    let endpoint : Endpoint RawJson :=
      { method := .get, path := ["a?b=1", "c\td#e"], query := .ok (some "x=1#y z?"), body := .ok none
        decode := LedgerClient.decode RawJson }
    let options := Options.empty.withHeader "X-Trace" "a\tb"
    ∃ config client request, (∃ address, Url.parse address = .ok config.address) ∧
      ofConfig config Service.node.tokenHeader = .ok client ∧ client.Sends endpoint options request ∧
      request.target = "/api/a%3Fb=1/cd%23e?x=1%23y%20z?" ∧
      (∀ octet ∈ Utf8.encode request.target.toList, 0x21 ≤ octet ∧ octet ≤ 0x7E ∧ octet ≠ 35) ∧
      (∃ url, client.url endpoint = .ok url ∧ request.target.toList.takeWhile (· ≠ '?') = url.path.text) ∧
      ∀ field ∈ request.headers, ∀ octet ∈ Utf8.encode field.2.text.toList, octet ≠ 13 ∧ octet ≠ 10 ∧ octet ≠ 0 := by
  intro endpoint options
  let address : Url :=
    ⟨"http", .authority ⟨"u", some "p", .name "localhost", some 4001⟩, .segments ["api", ""], some "q", some "f"⟩
  have read : Url.parse "http://u:p@localhost:4001/api/?q#f" = .ok address := rfl
  let client : Client := { base := address, timeout := .ofSeconds 30, headers := standardHeaders }
  have made : ofConfig (.ofAddress address) Service.node.tokenHeader = .ok client := rfl
  have sent : ∃ request, client.Sends endpoint options request ∧
      request.target = "/api/a%3Fb=1/cd%23e?x=1%23y%20z?" :=
    ⟨_, sends_of_made rfl rfl (.inl rfl) (by decide +kernel), by decide +kernel⟩
  obtain ⟨request, sent, target⟩ := sent
  obtain ⟨seen, ⟨url, _, built, _, path, _⟩, fields⟩ := request_injects_nothing ⟨_, read⟩ made sent
  exact ⟨_, client, request, ⟨_, read⟩, made, sent, target, seen, ⟨url, built, path⟩, fun field inside =>
    (fields field inside).2⟩

end Client
end LedgerClient
