import LedgerClient.Proofs.Base64Reading
import LedgerClient.Proofs.FilterQueries

/-! The octets that notes have to start with. On their way to a server they are written in
base64, whose signs are then escaped for the query; reading both back gives the octets, so
an address tells them apart whatever they are. -/

namespace LedgerClient

/-- Padding makes the text of octets a whole number of groups. -/
theorem Base64.length_encode (octets : List UInt8) : (encode octets).length = 4 * ((octets.length + 2) / 3) := by
  have symbols := length_symbols octets
  have filling := Bits.filling_lt (by decide : 0 < 6) (8 * octets.length)
  unfold encode
  dsimp only
  rw [List.length_append, List.length_map, List.length_replicate]
  omega

/-- The key stands once in the query, with the text. -/
def Url.Carries (url : Url) (key text : String) : Prop := ∀ other, (key, other) ∈ url.pairs ↔ other = text

private theorem Url.Carries.unique {url : Url} {key text other : String} (carries : url.Carries key text)
    (carries' : url.Carries key other) : text = other := (carries' text).mp ((carries text).mpr rfl)

namespace Call

/-- The value is the last that the filter is set to. -/
inductive SetsLast (filter : Filter) (value : filter.Value) : List (Step filters) → Prop
  | set (taken : filter ∈ filters) (before : List (Step filters)) {after : List (Step filters)}
      (kept : given after filter = []) : SetsLast filter value (before ++ .set filter value taken :: after)

private theorem SetsLast.given {filter : Filter} {value : filter.Value} {steps : List (Step filters)}
    (last : SetsLast filter value steps) : (given steps filter).getLast? = some (filter.print value) := by
  cases last with
  | @set taken before after kept =>
    have here : (Step.set filter value taken).text? filter = some (filter.print value) := if_pos rfl
    have behind : after.filterMap (·.text? filter) = [] := kept
    rw [Call.given, List.filterMap_append, List.filterMap_cons, here, behind, List.getLast?_concat]

/-- No filter keeps a call from having an address. -/
theorem url_run_answers_iff (call : Call filters α) (steps : List (Step filters)) (client : Client) :
    (∃ url, (call.run steps).url client = .ok url) ↔ ∃ url, call.url client = .ok url := by
  obtain ⟨_, path, _⟩ := call.run_keeps steps
  have same : (call.run steps).endpoint.path = call.endpoint.path := path
  simp only [Call.url, Client.url_eq_ok_iff, same]
  constructor
  · rintro ⟨_, sound, path, _, segments, _, rfl⟩
    exact ⟨_, sound, path, _, segments, rfl, rfl⟩
  · rintro ⟨_, sound, path, _, segments, _, rfl⟩
    exact ⟨_, sound, path, _, segments, rfl, rfl⟩

theorem pairs_eq_entries {call : Call filters α} {client : Client} {url : Url} (built : call.url client = .ok url) :
    url.pairs = call.settings.entries := by
  obtain ⟨_, _, _, _, asked, rfl⟩ := Client.url_eq_ok_iff.mp built
  cases asked
  exact (Url.pairs_withQuery _ _).1

/-- A filter stands in the query of a call with the value that it was set to last. -/
theorem carries_of_url {catalogue : Catalogue} {route : catalogue.Route} {call : Call filters α}
    (offers : catalogue.Offers route call) {filter : Filter} {value : filter.Value} {steps : List (Step filters)}
    (last : SetsLast filter value steps) {client : Client} {url : Url}
    (built : (call.run steps).url client = .ok url) : url.Carries filter.key (filter.print value) := by
  obtain ⟨_, _, fresh⟩ := offers.started
  intro other
  rw [pairs_eq_entries built, Dictionary.mem_entries, find?_run, last.given, fresh, Option.some_or, Option.some_inj, eq_comm]

/-- Octets that notes have to start with are the only thing that stands under their key, in
padded base64 and escaped, and they are read back from there. They never keep the call from
having an address; none at all are an empty text; and an address that two calls have in
common, whichever these are, names the same octets. -/
theorem notePrefix_reads_back {catalogue : Catalogue} {route : catalogue.Route} {call : Call filters α}
    (offers : catalogue.Offers route call) {octets : List UInt8} {steps : List (Step filters)}
    (last : SetsLast .notePrefix octets steps) (client : Client) :
    ((∃ url, (call.run steps).url client = .ok url) ↔ ∃ url, call.url client = .ok url) ∧
    ∀ url, (call.run steps).url client = .ok url →
      (∃ text, url.Carries "note-prefix" text ∧ text.toList.length = 4 * ((octets.length + 2) / 3) ∧
        Base64.decode (Utf8.encode text.toList) = .ok octets) ∧
      (octets = [] → ("note-prefix", "") ∈ url.pairs) ∧
      ∀ {filters' : List Filter} {β : Type} {catalogue' : Catalogue} {route' : catalogue'.Route}
        {call' : Call filters' β} {octets' : List UInt8} {steps' : List (Step filters')} (client' : Client),
        catalogue'.Offers route' call' → SetsLast .notePrefix octets' steps' →
          (call'.run steps').url client' = .ok url → octets' = octets := by
  have written : ∀ octets : List UInt8, (Filter.print .notePrefix octets).toList = Base64.encode octets :=
    fun octets => String.toList_ofList
  have read : ∀ octets : List UInt8,
      Base64.decode (Utf8.encode (Filter.print .notePrefix octets).toList) = .ok octets := fun octets => by
    rw [written, Base64.decode_encode]
  refine ⟨url_run_answers_iff call steps client, fun url built => ?_⟩
  have carries := carries_of_url offers last built
  refine ⟨⟨_, carries, ?_, read octets⟩, ?_, ?_⟩
  · rw [written, Base64.length_encode]
  · rintro rfl
    exact (carries _).mpr rfl
  · intro _ _ _ _ call' octets' steps' client' offers' last' built'
    have same := read octets'
    rw [(carries_of_url offers' last' built').unique carries, read] at same
    exact (Except.ok.inj same).symm

/-- A prefix that is set twice, whose text holds characters that the query escapes. -/
theorem notePrefix_reads_back_search :
    let steps : List (Step Indexer.transactionFilters) := [
      .set .notePrefix ([] : List UInt8) (by decide), .set .notePrefix ([0xFB, 0xFF] : List UInt8) (by decide),
      .set .limit (5 : UInt64) (by decide)]
    Catalogue.indexer.Offers (Indexer.Route.searchForTransactions : Catalogue.indexer.Route)
        Indexer.searchForTransactions ∧
      SetsLast .notePrefix ([0xFB, 0xFF] : List UInt8) steps ∧
      ∃ url text, (Indexer.searchForTransactions.run steps).url Client.underPath = .ok url ∧
        url.query = some "limit=5&note-prefix=%2B%2F8%3D" ∧ url.Carries "note-prefix" text ∧
        Base64.decode (Utf8.encode text.toList) = .ok [0xFB, 0xFF] := by
  intro steps
  have offers : Catalogue.indexer.Offers (Indexer.Route.searchForTransactions : Catalogue.indexer.Route)
    Indexer.searchForTransactions := .searchForTransactions
  have last : SetsLast .notePrefix ([0xFB, 0xFF] : List UInt8) steps :=
    .set (by decide) [.set .notePrefix ([] : List UInt8) (by decide)] rfl
  let url : Url := { Client.underPath.base with
    path := .segments ["api", "v2", "transactions"], query := some "limit=5&note-prefix=%2B%2F8%3D" }
  have built : (Indexer.searchForTransactions.run steps).url Client.underPath = .ok url := by
    refine Client.url_eq_ok_iff.mpr ⟨by decide, _, _, rfl, rfl, ?_⟩
    decide +kernel
  obtain ⟨_, reads⟩ := notePrefix_reads_back offers last Client.underPath
  obtain ⟨⟨text, carries, _, read⟩, _⟩ := reads url built
  exact ⟨offers, last, url, text, built, rfl, carries, read⟩

end Call
end LedgerClient
