import LedgerClient.Proofs.RequestSafety

/-! What a call's address has from the base address: everything up to the path, and the
path as a prefix but for a slash at its end. A query of the base is dropped, and whether its
path ends in a slash makes no difference. -/

namespace LedgerClient.Url

/-- A path without one slash at its end. -/
def unslashed (path : List Char) : List Char :=
  if path.getLast? = some '/' then path.dropLast else path

/-- A query as it is written in a URL. -/
def shownQuery (scheme text : String) : String :=
  String.ofList (Percent.encode (keptInQuery (isSpecial scheme)) (dropBreaks text.toList))

/-- A character that stands for itself in the query of a URL. -/
def InQuery (scheme : String) (c : Char) : Prop :=
  c.toNat < 0x80 ∧ keptInQuery (isSpecial scheme) (UInt8.ofNat c.toNat) = true

instance (scheme : String) : DecidablePred (InQuery scheme) := fun _ => inferInstanceAs (Decidable (_ ∧ _))

/-- Two base addresses that differ at most in their queries and in a slash that the path of
the second has at its end and that of the first lacks. -/
structure SameStem (base other : Url) : Prop where
  scheme : other.scheme = base.scheme
  authority : other.authority? = base.authority?
  fragment : other.fragment = base.fragment
  path : other.path.text = base.path.text ∨
    base.path.text.getLast? ≠ some '/' ∧ other.path.text = base.path.text ++ ['/']

private theorem unbroken_of_inQuery {scheme : String} {text : List Char} (inside : ∀ c ∈ text, InQuery scheme c) :
    Unbroken text := by
  have checked (special : Bool) : ∀ c : Char, c.toNat < 0x80 →
      keptInQuery special (UInt8.ofNat c.toNat) = true → isDropped c = false :=
    Percent.forall_ascii (by cases special <;> decide +kernel)
  intro c present
  obtain ⟨small, kept⟩ := inside c present
  exact checked _ c small kept

private theorem shownQuery_of_inQuery {scheme text : String} (inside : ∀ c ∈ text.toList, InQuery scheme c) :
    shownQuery scheme text = text := by
  rw [shownQuery, dropBreaks_of_unbroken (unbroken_of_inQuery inside),
    Percent.encode_of_kept (fun c present => (inside c present).1) fun c present => (inside c present).2,
    String.ofList_toList]

private theorem text_concat (front : List String) (last : String) :
    (UrlPath.segments (front ++ [last])).text = (UrlPath.segments front).text ++ '/' :: last.toList := by
  rw [text_append]
  exact congrArg _ (List.append_nil _)

/-- Segments hold no slash, so a text is that of one path only. -/
theorem text_injective {path other : List String} (tidy : Tidy path) (tidy' : Tidy other)
    (same : (UrlPath.segments path).text = (UrlPath.segments other).text) : path = other := by
  have parts := splitOn_text tidy
  rw [same, splitOn_text tidy'] at parts
  exact ((List.map_inj_right fun _ _ => String.toList_inj.mp).mp (List.cons.inj parts).2).symm

/-- A path ends in a slash exactly if its last segment is empty. -/
theorem getLast?_text {path : List String} (tidy : Tidy path) :
    (UrlPath.segments path).text.getLast? = some '/' ↔ path.getLast? = some "" := by
  obtain ⟨front, last, rfl⟩ := (List.eq_nil_or_concat path).resolve_left tidy.nonempty
  rw [List.concat_eq_append] at *
  rw [text_concat, List.getLast?_append, List.getLast?_concat, List.getLast?_cons]
  cases ends : last.toList.getLast? with
  | none => simp [String.toList_eq_nil_iff.mp (List.getLast?_eq_none_iff.mp ends)]
  | some c =>
    have inside := List.mem_of_getLast? ends
    have other := (tidy.inside last (List.mem_append_right front List.mem_cons_self) c inside).2.2
    have filled : last ≠ "" := by
      rintro rfl
      cases inside
    simp [other, filled]

private theorem unslashed_text {path : List String} (tidy : Tidy path) : unslashed (UrlPath.segments path).text =
    (UrlPath.segments (if path.getLast? = some "" then path.dropLast else path)).text := by
  simp only [unslashed, getLast?_text tidy]
  split
  next slash =>
    obtain ⟨front, rfl⟩ := List.getLast?_eq_some_iff.mp slash
    rw [text_concat, List.dropLast_concat]
    exact List.dropLast_concat
  next => rfl

variable {scheme : String} {path : List String}

/-- What is appended to a path comes behind it, unless the path is only a slash. -/
theorem trunk_prefix {other : List String} {added : List String} (same : trunk other = trunk path ++ added) :
    (UrlPath.segments (trunk path)).text <+: (UrlPath.segments other).text := by
  by_cases root : other = [""]
  · rw [trunk, if_pos root] at same
    rw [(List.append_eq_nil_iff.mp same.symm).1]
    exact List.nil_prefix
  · rw [trunk, if_neg root] at same
    rw [same, text_append]
    exact List.prefix_append _ _

private theorem length_concat_ne_one (filled : path ≠ []) (segment : String) : (path ++ [segment]).length ≠ 1 := by
  have positive := List.length_pos_iff.mpr filled
  rw [List.length_append, List.length_singleton]
  omega

/-- Entries are appended to the path without its slash. Of two slashes alone one is left,
although entries come behind none. -/
theorem unslashed_cases (tidy : Tidy path) : unslashed (UrlPath.segments path).text = ['/'] ∨
    unslashed (UrlPath.segments path).text = (UrlPath.segments (trunk (withoutSlash path))).text := by
  rw [unslashed_text tidy]
  by_cases slash : path.getLast? = some ""
  · obtain ⟨front, rfl⟩ := List.getLast?_eq_some_iff.mp slash
    rw [if_pos slash, List.dropLast_concat]
    by_cases alone : front = []
    · rw [alone]
      exact .inr rfl
    by_cases root : front = [""]
    · rw [root]
      exact .inl rfl
    · have kept : trunk front = front := if_neg root
      rw [withoutSlash, if_pos ⟨length_concat_ne_one alone "", slash⟩, List.dropLast_concat, kept]
      exact .inr rfl
  · have kept : withoutSlash path = path := if_neg fun both => slash both.2
    have long : trunk path = path := by
      apply if_neg
      rintro rfl
      exact slash rfl
    rw [if_neg slash, kept, long]
    exact .inr rfl

/-- The path of a base address is a prefix of what entries make of it, but for one slash. -/
theorem unslashed_prefix (plain : isFile scheme = false) (tidy : Tidy path) {entries : List String}
    (whole : ∀ entry ∈ entries, Unbroken entry.toList)
    (sound : ∀ entry ∈ entries, Client.isBadSegment entry = false) :
    unslashed (UrlPath.segments path).text <+:
      (UrlPath.segments (entries.foldl (append scheme) (withoutSlash path))).text := by
  rcases unslashed_cases tidy with slash | stem
  · have filled : entries.foldl (append scheme) (withoutSlash path) ≠ [] :=
      foldl_append_ne_nil plain (tidy_withoutSlash tidy).nonempty
    obtain ⟨first, rest, same⟩ := List.exists_cons_of_ne_nil filled
    rw [slash, same]
    exact ⟨_, rfl⟩
  · rw [stem]
    exact trunk_prefix (foldl_append plain whole sound (withoutSlash path))

private theorem withoutSlash_concat (tidy : Tidy path) (bare : path.getLast? ≠ some "") :
    withoutSlash (path ++ [""]) = withoutSlash path := by
  have kept : withoutSlash path = path := if_neg fun both => bare both.2
  rw [kept, withoutSlash, if_pos ⟨length_concat_ne_one tidy.nonempty "", List.getLast?_concat⟩, List.dropLast_concat]

private theorem tidy_concat (tidy : Tidy path) : Tidy (path ++ [""]) := by
  refine ⟨List.append_ne_nil_of_left_ne_nil tidy.nonempty _, fun segment present c inside => ?_⟩
  rcases List.mem_append.mp present with present | last
  · exact tidy.inside segment present c inside
  · rw [List.mem_singleton.mp last] at inside
    cases inside

private theorem withoutSlash_of_sameStem {base other : Url} (same : SameStem base other) {path' : List String}
    (segments : base.path = .segments path) (segments' : other.path = .segments path')
    (tidy : Tidy path) (tidy' : Tidy path') : withoutSlash path' = withoutSlash path := by
  rcases same.path with equal | ⟨bare, longer⟩
  · rw [segments, segments'] at equal
    rw [text_injective tidy' tidy equal]
  · rw [segments] at bare longer
    have closed : (UrlPath.segments (path ++ [""])).text = (UrlPath.segments path).text ++ ['/'] := text_concat path ""
    rw [segments', ← closed] at longer
    rw [text_injective tidy' (tidy_concat tidy) longer]
    exact withoutSlash_concat tidy fun slash => bare ((getLast?_text tidy).mpr slash)

end LedgerClient.Url

namespace LedgerClient.Client
open Url

variable {client : Client} {address : String} {endpoint : Endpoint α} {url : Url}

private theorem url_of_sameStem (read : Url.parse address = .ok client.base) (web : client.base.IsWeb)
    (built : client.url endpoint = .ok url) {client' : Client} {address' : String}
    (read' : Url.parse address' = .ok client'.base) (same : SameStem client.base client'.base) :
    client'.url endpoint = .ok url := by
  have web' : client'.base.IsWeb := by
    rw [IsWeb, same.scheme]
    exact web
  obtain ⟨path, segments, tidy⟩ := path_of_parse read web
  obtain ⟨path', segments', tidy'⟩ := path_of_parse read' web'
  obtain ⟨found, front, _⟩ := host_of_parse read web
  obtain ⟨found', front', _⟩ := host_of_parse read' web'
  have authority := same.authority
  simp only [authority?, front, front', Option.some_inj] at authority
  obtain ⟨sound, _, query, segments'', asked, rfl⟩ := url_eq_ok_iff.mp built
  cases segments.symm.trans segments''
  refine url_eq_ok_iff.mpr ⟨sound, path', query, segments', asked, ?_⟩
  rw [withoutSlash_of_sameStem same segments segments' tidy tidy', same.scheme, withQuery, withQuery, front, front',
    authority, same.fragment, same.scheme]

/-- The address of a call stands on the base address of its client. It has the scheme of the
base, its user, host and port, and its path starts with that of the base, without one slash
at the end. Its query is that of the endpoint, whatever the base has; and another base makes
the same address of the call if it differs only in its query and in one more slash behind a
path that has none. -/
theorem url_stands_on_base (read : Url.parse address = .ok client.base) (web : client.base.IsWeb)
    (whole : ∀ entry ∈ endpoint.path, Unbroken entry.toList) (built : client.url endpoint = .ok url) :
    url.scheme = client.base.scheme ∧
    (∃ authority, client.base.authority? = some authority ∧ url.authority? = some authority) ∧
    unslashed client.base.path.text <+: url.path.text ∧
    (∃ query, endpoint.query = .ok query ∧ url.query = query.map (shownQuery client.base.scheme) ∧
      ∀ text, query = some text → (∀ c ∈ text.toList, InQuery client.base.scheme c) → url.query = some text) ∧
    ∀ (client' : Client) (address' : String), Url.parse address' = .ok client'.base →
      SameStem client.base client'.base → client'.url endpoint = .ok url := by
  obtain ⟨path, segments, tidy⟩ := path_of_parse read web
  obtain ⟨found, authority, _⟩ := host_of_parse read web
  obtain ⟨sound, extended⟩ := url_path segments built
  obtain ⟨scheme, front⟩ := origin_of_url built
  obtain ⟨_, _, query, _, asked, same⟩ := url_eq_ok_iff.mp built
  have shown : url.query = query.map (shownQuery client.base.scheme) := by
    rw [same]
    rfl
  refine ⟨scheme, ⟨found, ?_, ?_⟩, ?_, ⟨query, asked, shown, ?_⟩, ?_⟩
  · rw [authority?, authority]
  · rw [authority?, front, authority]
  · rw [segments, extended]
    exact unslashed_prefix web.not_file tidy whole sound
  · rintro text rfl inside
    rw [shown, Option.map_some, shownQuery_of_inQuery inside]
  · intro client' address' read' same
    exact url_of_sameStem read web built read' same

/-- A base with a user, a port, a path and a query of its own, with and without a slash
behind its path. -/
theorem url_stands_on_base_slash :
    let endpoint : Endpoint RawJson :=
      { method := .get, path := ["v2", "a/b"], query := .ok (some "x=1&y=%20"), body := .ok none
        decode := LedgerClient.decode RawJson }
    let base : Url :=
      ⟨"https", .authority ⟨"u", some "p", .name "localhost", some 4001⟩, .segments ["api"], some "q", none⟩
    let other : Url := { base with path := .segments ["api", ""], query := none }
    let client : Client := { base, headers := standardHeaders, timeout := .ofSeconds 30 }
    let url : Url := { base with path := .segments ["api", "v2", "a%2Fb"], query := some "x=1&y=%20" }
    Url.parse "https://u:p@localhost:4001/api?q" = .ok base ∧ base.IsWeb ∧
      (∀ entry ∈ endpoint.path, Unbroken entry.toList) ∧ client.url endpoint = .ok url ∧
      unslashed base.path.text <+: url.path.text ∧ Url.parse "https://u:p@localhost:4001/api/" = .ok other ∧
      SameStem base other ∧ ({ client with base := other } : Client).url endpoint = .ok url := by
  intro endpoint base other client url
  have read : Url.parse "https://u:p@localhost:4001/api?q" = .ok client.base := rfl
  have read' : Url.parse "https://u:p@localhost:4001/api/" = .ok other := rfl
  have web : base.IsWeb := .inr rfl
  have whole : ∀ entry ∈ endpoint.path, Unbroken entry.toList := by decide
  have same : SameStem base other := ⟨rfl, rfl, rfl, .inr ⟨by decide, by decide⟩⟩
  have built : client.url endpoint = .ok url := rfl
  obtain ⟨_, _, behind, _, again⟩ := url_stands_on_base read web whole built
  exact ⟨read, web, whole, built, behind, read', same, again _ _ read' same⟩

end LedgerClient.Client
