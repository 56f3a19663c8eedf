import LedgerClient.Client.Service
import LedgerClient.Node.Calls
import LedgerClient.Proofs.PathEntries

/-! The address of a call. Whether every entry of its path ends up as one segment of
its own is decided by the entries alone: it takes breaks to make one vanish, stand
empty or lead out of the base path. -/

namespace LedgerClient

/-- The path of a URL is that of a base address with one segment for each entry, which
reads back as the entry. -/
def Url.Extends (base url : Url) (entries : List String) : Prop :=
  ∃ added, url.parts = base.stem ++ added ∧
    added.map Percent.read? = entries.map fun entry => some entry.toList

namespace Client
open Url

/-- All there is to the address of a call. -/
theorem url_eq_ok_iff {client : Client} {endpoint : Endpoint α} {url : Url} :
    client.url endpoint = .ok url ↔ (∀ entry ∈ endpoint.path, isBadSegment entry = false) ∧
      ∃ path query, client.base.path = .segments path ∧ endpoint.query = .ok query ∧
        url = { client.base with
          path := .segments (endpoint.path.foldl (append client.base.scheme) (withoutSlash path)) }.withQuery query := by
  have bad : endpoint.path.find? isBadSegment = none ↔ ∀ entry ∈ endpoint.path, isBadSegment entry = false := by
    simp only [List.find?_eq_none, Bool.not_eq_true]
  rw [← bad, Client.url]
  cases endpoint.path.find? isBadSegment with
  | some entry => exact ⟨fun built => (nomatch built), fun ⟨found, _⟩ => (nomatch found)⟩
  | none =>
    cases path : client.base.path with
    | rootless text =>
      simp only [extend?, path]
      exact ⟨fun built => (nomatch built), fun ⟨_, _, _, other, _⟩ => (nomatch other)⟩
    | segments path' =>
      simp only [extend?, path]
      cases endpoint.query with
      | error fault => exact ⟨fun built => (nomatch built), fun ⟨_, _, _, _, other, _⟩ => (nomatch other)⟩
      | ok query =>
        constructor
        · intro built
          cases built
          exact ⟨trivial, path', query, rfl, rfl, rfl⟩
        · rintro ⟨_, _, _, same, found, rfl⟩
          cases same
          cases found
          rfl

theorem url_path {client : Client} {endpoint : Endpoint α} {url : Url} {path : List String}
    (segments : client.base.path = .segments path) (built : client.url endpoint = .ok url) :
    (∀ entry ∈ endpoint.path, isBadSegment entry = false) ∧
      url.path = .segments (endpoint.path.foldl (append client.base.scheme) (withoutSlash path)) := by
  obtain ⟨sound, path', query, segments', _, rfl⟩ := url_eq_ok_iff.mp built
  rw [segments] at segments'
  cases segments'
  exact ⟨sound, rfl⟩

private theorem url_answers_iff {client : Client} {path : List String} (segments : client.base.path = .segments path)
    (endpoint : Endpoint α) : (∃ url, client.url endpoint = .ok url) ↔
      (∀ entry ∈ endpoint.path, entry ≠ "" ∧ entry ≠ "." ∧ entry ≠ "..") ∧ ∃ query, endpoint.query = .ok query := by
  have sound : ∀ entry, isBadSegment entry = false ↔ entry ≠ "" ∧ entry ≠ "." ∧ entry ≠ ".." := by
    intro entry
    simp only [isBadSegment, Bool.or_eq_false_iff, decide_eq_false_iff_not, ne_eq, and_assoc]
  simp only [← sound]
  constructor
  · rintro ⟨url, built⟩
    obtain ⟨sound, _, query, _, found, _⟩ := url_eq_ok_iff.mp built
    exact ⟨sound, query, found⟩
  · rintro ⟨sound, query, found⟩
    exact ⟨_, url_eq_ok_iff.mpr ⟨sound, path, query, segments, found, rfl⟩⟩

/-- Behind the stem of the base path stand only segments of entries, or empty ones. -/
private theorem reads_unbroken {scheme : String} (plain : isFile scheme = false) {entries path : List String}
    {segment : String} {text : List Char}
    (behind : segment ∈ (trunk (entries.foldl (append scheme) path)).drop (trunk path).length)
    (read : Percent.read? segment.toList = some text) : Unbroken text := by
  have empty : ∀ c ∈ ([] : List Char), isDropped c = false := fun c inside => nomatch inside
  rcases mem_foldl_append plain (mem_drop_trunk behind) with base | none | ⟨entry, _, rfl⟩
  · rw [eq_empty_of_mem_drop_trunk base] at read
    exact Option.some.inj read ▸ empty
  · rw [none] at read
    exact Option.some.inj read ▸ empty
  · rw [read?_segmentOf] at read
    exact Option.some.inj read ▸ unbroken_dropBreaks _

variable {client : Client} {endpoint : Endpoint α} {url : Url} {path : List String}

private theorem parts_of_url (web : client.base.IsWeb) (segments : client.base.path = .segments path) (tidy : Tidy path)
    (built : client.url endpoint = .ok url) : url.parts =
      (trunk (endpoint.path.foldl (append client.base.scheme) (withoutSlash path))).map String.toList := by
  obtain ⟨_, extended⟩ := url_path segments built
  exact parts_eq extended (tidy_foldl_append web.special web.not_file (tidy_withoutSlash tidy) endpoint.path)

theorem parts_of_unbroken (web : client.base.IsWeb) (segments : client.base.path = .segments path)
    (tidy : Tidy path) (built : client.url endpoint = .ok url)
    (whole : ∀ entry ∈ endpoint.path, Unbroken entry.toList) : url.parts =
      (trunk (withoutSlash path) ++ endpoint.path.map (segmentOf client.base.scheme)).map String.toList := by
  obtain ⟨sound, _⟩ := url_path segments built
  rw [parts_of_url web segments tidy built, foldl_append web.not_file whole sound]

private theorem unbroken_of_extends (web : client.base.IsWeb) (segments : client.base.path = .segments path)
    (tidy : Tidy path) (filled : [] ∉ client.base.parts.dropLast) (built : client.url endpoint = .ok url)
    (extended : Extends client.base url endpoint.path) : ∀ entry ∈ endpoint.path, Unbroken entry.toList := by
  have stem := stem_eq segments tidy filled
  obtain ⟨added, split, reads⟩ := extended
  intro entry present
  have listed : some entry.toList ∈ added.map Percent.read? := by
    rw [reads]
    exact List.mem_map.mpr ⟨entry, present, rfl⟩
  obtain ⟨part, inside, undone⟩ := List.mem_map.mp listed
  have behind : part ∈ url.parts.drop (trunk (withoutSlash path)).length := by
    have same : (trunk (withoutSlash path)).length = client.base.stem.length := by rw [stem, List.length_map]
    rw [split, same, List.drop_left]
    exact inside
  rw [parts_of_url web segments tidy built, ← List.map_drop] at behind
  obtain ⟨segment, later, rfl⟩ := List.mem_map.mp behind
  exact reads_unbroken web.not_file later undone

private theorem extends_of_unbroken (web : client.base.IsWeb) (segments : client.base.path = .segments path)
    (tidy : Tidy path) (filled : [] ∉ client.base.parts.dropLast) (built : client.url endpoint = .ok url)
    (whole : ∀ entry ∈ endpoint.path, Unbroken entry.toList) : Extends client.base url endpoint.path := by
  refine ⟨(endpoint.path.map (segmentOf client.base.scheme)).map String.toList, ?_, ?_⟩
  · rw [parts_of_unbroken web segments tidy built whole, stem_eq segments tidy filled, List.map_append]
  · rw [List.map_map]
    exact reads_entries client.base.scheme whole

/-- A call has an address unless an entry is empty or a dot or two, or its query fails.
The path of the address extends that of the base, entry by entry, exactly if no entry
holds a tab or the end of a line. -/
theorem url_extends_iff_unbroken {client : Client} {address : String} (read : Url.parse address = .ok client.base)
    (web : client.base.IsWeb) (filled : [] ∉ client.base.parts.dropLast) (endpoint : Endpoint α) :
    ((∃ url, client.url endpoint = .ok url) ↔
      (∀ entry ∈ endpoint.path, entry ≠ "" ∧ entry ≠ "." ∧ entry ≠ "..") ∧ ∃ query, endpoint.query = .ok query) ∧
    ∀ url, client.url endpoint = .ok url →
      (Extends client.base url endpoint.path ↔ ∀ entry ∈ endpoint.path, Unbroken entry.toList) := by
  obtain ⟨path, segments, tidy⟩ := path_of_parse read web
  refine ⟨url_answers_iff segments endpoint, fun url built => ?_⟩
  exact ⟨unbroken_of_extends web segments tidy filled built, extends_of_unbroken web segments tidy filled built⟩

/-- A client of a node that is served under a path. -/
def underPath : Client :=
  { base := ⟨"http", .authority ⟨"", none, .name "localhost", some 4001⟩, .segments ["api", ""], none, none⟩
    headers := standardHeaders, timeout := .ofSeconds 30 }

theorem url_extends_underPath :
    Url.parse "http://localhost:4001/api/" = .ok underPath.base ∧ underPath.base.IsWeb ∧
      [] ∉ underPath.base.parts.dropLast ∧
      (∀ entry ∈ (Node.accountInformation "A/B?c=%€").path, Unbroken entry.toList) ∧
      ∃ url, (Node.accountInformation "A/B?c=%€").url underPath = .ok url ∧
        underPath.base.Extends url (Node.accountInformation "A/B?c=%€").path := by
  have read : Url.parse "http://localhost:4001/api/" = .ok underPath.base := rfl
  have web : underPath.base.IsWeb := .inl rfl
  have filled : [] ∉ underPath.base.parts.dropLast := by decide
  have whole : ∀ entry ∈ (Node.accountInformation "A/B?c=%€").path, Unbroken entry.toList := by
    decide
  obtain ⟨answers, extended⟩ := url_extends_iff_unbroken read web filled (Node.accountInformation "A/B?c=%€").endpoint
  obtain ⟨url, built⟩ := answers.mpr ⟨by decide, none, rfl⟩
  exact ⟨read, web, filled, whole, url, built, (extended url built).mpr whole⟩

/-- Two dots with a tab between them pass for an entry, and then lead out of the path. -/
theorem breaks_hide_dots :
    Service.node.connect "http://localhost:4001/api/" "" = .ok underPath ∧
      ∃ url, (Node.accountInformation ".\t.").url underPath = .ok url ∧
        url.text = "http://localhost:4001/api/v2/" ∧
        ¬underPath.base.Extends url (Node.accountInformation ".\t.").path := by
  refine ⟨rfl, ⟨"http", .authority ⟨"", none, .name "localhost", some 4001⟩, .segments ["api", "v2", ""], none, none⟩,
    rfl, rfl, ?_⟩
  rintro ⟨added, split, reads⟩
  have two : added.length = 2 := by
    have sizes := congrArg List.length split
    rw [List.length_append] at sizes
    exact Nat.add_left_cancel (n := 1) sizes.symm
  have three := congrArg List.length reads
  rw [List.length_map, two] at three
  cases three

end Client
end LedgerClient
