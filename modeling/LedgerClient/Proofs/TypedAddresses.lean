import LedgerClient.Proofs.AddressText
import LedgerClient.Proofs.NotePrefixes
import LedgerClient.Proofs.PlainCalls

/-! Addresses that are passed to calls. The text of an address is made of signs that neither
a path nor a query escapes, so it reaches the server as it is, and is read back there. -/

namespace LedgerClient

private theorem Url.IsPlain.encodeText_eq {text : String} (plain : IsPlain text) :
    Form.encodeText text = text.toList := by
  have checked : ∀ c : Char, c.toNat < 0x80 → (c.isAlphanum || c = '-') = true →
      Form.keeps (UInt8.ofNat c.toNat) = true :=
    Percent.forall_ascii (by decide +kernel)
  have kept : ∀ c ∈ text.toList, Form.keeps (UInt8.ofNat c.toNat) = true := by
    intro c inside
    obtain ⟨small, mark⟩ := plain.2 c inside
    exact checked c small mark
  have ascii : ∀ c ∈ text.toList, c.toNat < 0x80 := fun c inside => (plain.2 c inside).1
  have same : Form.encodeText text = Percent.encode Form.keeps text.toList := by
    rw [Form.encodeText, Percent.encode, Percent.encodeOctets, Utf8.encode_ascii ascii]
    apply List.flatMap_congr
    intro octet inside
    obtain ⟨c, present, rfl⟩ := List.mem_map.mp inside
    rw [Form.encodeOctet, if_pos (kept c present), if_pos (kept c present)]
  rw [same, Percent.encode_of_kept ascii kept]

private theorem Filter.isPlain_key (filter : Filter) : Url.IsPlain filter.key := by
  cases filter <;> decide

namespace Address

private theorem isPlain_text (address : Address) : Url.IsPlain address.text := by
  have checked : ∀ n < 32, (Base32.symbol n).toNat < 0x80 ∧
      ((Base32.symbol n).isAlphanum || Base32.symbol n = '-') = true := by decide
  constructor
  · intro empty
    have long : address.text.toList.length = 58 := by
      rw [toList_text]
      exact Base32.length_spell (by rw [length_payload]; rfl)
    rw [empty] at long
    cases long
  · intro c inside
    rw [toList_text] at inside
    obtain ⟨n, among, rfl⟩ := List.mem_map.mp inside
    exact checked n (Bits.toSymbols_lt n among)

end Address

/-- The calls with an account in their path, and what stands behind the account there. -/
inductive Call.ForAccount (account : String) : {filters : List Filter} → {α : Type} → Call filters α →
    List String → Prop
  | information : ForAccount account (Node.accountInformation account) []
  | pending : ForAccount account (Node.pendingTransactionsByAddress account) ["transactions", "pending"]
  | lookup : ForAccount account (Indexer.lookupAccountById account) []
  | transactions : ForAccount account (Indexer.lookupAccountTransactions account) ["transactions"]

/-- The filters whose values are addresses, with the value for an address. -/
inductive Filter.Names (address : Address) : (filter : Filter) → filter.Value → Prop
  | address : Names address .address (address.text : String)
  | authAddr : Names address .authAddr (address.text : String)
  | creator : Names address .creator (address.text : String)

private theorem Filter.Names.print_eq {address : Address} {filter : Filter} {value : filter.Value}
    (names : Names address filter value) : filter.print value = address.text := by
  cases names <;> rfl

namespace Call
open Url

variable {call : Call filters α} {client : Client}

private theorem ForAccount.path_eq {account : String} {back : List String} (takes : ForAccount account call back) :
    call.path = "v2" :: "accounts" :: account :: back := by
  cases takes <;> rfl

private theorem ForAccount.isPlain {account : String} {back : List String} (takes : ForAccount account call back)
    (plain : Url.IsPlain account) : ∀ entry ∈ call.path, Url.IsPlain entry := by
  have behind : ∀ entry ∈ back, Url.IsPlain entry := by
    cases takes <;> decide
  rw [takes.path_eq]
  simp only [List.forall_mem_cons]
  exact ⟨by decide, by decide, plain, behind⟩

/-- The calls with a filter for addresses are found under fixed words and numbers. -/
theorem isPlain_of_names {catalogue : Catalogue} {route : catalogue.Route} (offers : catalogue.Offers route call)
    {address : Address} {filter : Filter} {value : filter.Value} (names : Filter.Names address filter value)
    (taken : filter ∈ filters) : ∀ entry ∈ call.path, Url.IsPlain entry := by
  have accounts : ∀ entry ∈ ["v2", "accounts"], Url.IsPlain entry := by decide
  have assets : ∀ entry ∈ ["v2", "assets"], Url.IsPlain entry := by decide
  have transactions : ∀ entry ∈ ["v2", "transactions"], Url.IsPlain entry := by decide
  have ofAsset : ∀ id : UInt64, ∀ entry ∈ ["v2", "assets", toString id, "transactions"], Url.IsPlain entry := by
    intro id
    simp only [List.forall_mem_cons]
    exact ⟨by decide, by decide, isPlain_number id, by decide, nofun⟩
  cases catalogue with
  | node => cases offers <;> cases names <;> exact absurd taken (by decide)
  | indexer =>
    cases offers <;> cases names
    case searchForAccounts.authAddr => exact accounts
    case searchForAssets.creator => exact assets
    case lookupAssetTransactions.address id => exact ofAsset id
    case searchForTransactions.address => exact transactions
    all_goals exact absurd taken (by decide)

private theorem exists_url (plain : ∀ entry ∈ call.path, Url.IsPlain entry) {path : List String}
    (segments : client.base.path = .segments path) : ∃ url, call.url client = .ok url := by
  have sound : ∀ entry ∈ call.path, Client.isBadSegment entry = false :=
    fun entry present => (plain entry present).sound
  exact ⟨_, Client.url_eq_ok_iff.mpr ⟨sound, path, call.query, segments, rfl, rfl⟩⟩

private theorem path_of_url (plain : ∀ entry ∈ call.path, Url.IsPlain entry) (filled : call.path ≠ [])
    (web : client.base.IsWeb) {path : List String} (segments : client.base.path = .segments path) (tidy : Tidy path)
    {url : Url} (built : call.url client = .ok url) :
    url.path = .segments (trunk (withoutSlash path) ++ call.path) ∧
      url.parts = (trunk (withoutSlash path) ++ call.path).map String.toList := by
  constructor
  · obtain ⟨_, extended⟩ := Client.url_path segments built
    rw [extended]
    exact congrArg UrlPath.segments (foldl_append_plain web.not_file plain filled (withoutSlash path))
  · rw [Client.parts_of_unbroken web segments tidy built fun entry present => (plain entry present).unbroken]
    exact congrArg (fun added => (trunk (withoutSlash path) ++ added).map String.toList)
      (map_segmentOf plain client.base.scheme)

/-- A pair of texts that nothing escapes stands in the query as it is. -/
theorem mem_query {url : Url} (built : call.url client = .ok url) {key text : String} (plain : Url.IsPlain key)
    (plain' : Url.IsPlain text) (set : (key, text) ∈ call.settings.entries) :
    ∃ query, url.query = some query ∧ key.toList ++ '=' :: text.toList ∈ Text.splitOn '&' query.toList := by
  obtain ⟨_, _, query, _, asked, rfl⟩ := Client.url_eq_ok_iff.mp built
  cases asked
  have pair : Form.encodePair (key, text) = key.toList ++ '=' :: text.toList := by
    rw [Form.encodePair, plain.encodeText_eq, plain'.encodeText_eq]
  obtain ⟨first, rest, held⟩ := List.exists_cons_of_ne_nil (List.ne_nil_of_mem set)
  rw [held] at set
  refine ⟨String.ofList (Form.encode (first :: rest)), ?_, ?_⟩
  · simp only [endpoint, query, Query.ofPairs, withQuery, held, Option.map_some, String.toList_ofList, encode_form]
  · rw [String.toList_ofList, ← pair, Form.splitOn_encode]
    exact List.mem_map_of_mem set

end Call

namespace Address
open Url Call

/-- An address that is passed to a call reaches the server unchanged. As an account it is a
segment of the path, right behind the words that the call puts behind the path of the base;
as the value of a filter it is what stands behind the key, which stands in the query once.
Either way the call has an address, whatever else it was set to, nothing of the text is
escaped, and the text is read as the address. -/
theorem passes_unchanged (address : Address) {client : Client} {text : String}
    (read : Url.parse text = .ok client.base) (web : client.base.IsWeb) :
    (∀ {filters : List Filter} {α : Type} {call : Call filters α} {back : List String},
      ForAccount address.text call back → ∀ steps : List (Step filters),
        ∃ url front, (call.run steps).url client = .ok url ∧ (UrlPath.segments front).text = client.base.root ∧
          url.path = .segments (front ++ "v2" :: "accounts" :: address.text :: back) ∧
          url.parts = (front ++ "v2" :: "accounts" :: address.text :: back).map String.toList) ∧
    (∀ {catalogue : Catalogue} {route : catalogue.Route} {filters : List Filter} {α : Type} {call : Call filters α},
      catalogue.Offers route call → ∀ {filter : Filter} {value : filter.Value}, Filter.Names address filter value →
        ∀ steps : List (Step filters), SetsLast filter value steps →
          ∃ url query, (call.run steps).url client = .ok url ∧ url.query = some query ∧
            filter.key.toList ++ '=' :: address.text.toList ∈ Text.splitOn '&' query.toList ∧
            url.Carries filter.key address.text) ∧
    parse address.text = .ok address := by
  obtain ⟨path, segments, tidy⟩ := path_of_parse read web
  refine ⟨?_, ?_, parse_text (toUpper_text address)⟩
  · intro filters α call back takes steps
    obtain ⟨_, along, _⟩ := call.run_keeps steps
    have plain : ∀ entry ∈ (call.run steps).path, Url.IsPlain entry := by
      rw [along]
      exact takes.isPlain address.isPlain_text
    have filled : (call.run steps).path ≠ [] := by
      rw [along, takes.path_eq]
      exact List.cons_ne_nil _ _
    obtain ⟨url, built⟩ := exists_url plain segments
    obtain ⟨extended, parts⟩ := path_of_url plain filled web segments tidy built
    rw [along, takes.path_eq] at extended parts
    refine ⟨url, _, built, ?_, extended, parts⟩
    rw [Url.root, segments]
  · intro catalogue route filters α call offers filter value names steps last
    have taken : filter ∈ filters := by
      cases last with
      | set taken => exact taken
    obtain ⟨_, along, _⟩ := call.run_keeps steps
    have plain := isPlain_of_names offers names taken
    rw [← along] at plain
    obtain ⟨url, built⟩ := exists_url plain segments
    have carries := carries_of_url offers last built
    rw [names.print_eq] at carries
    have set : (filter.key, address.text) ∈ (call.run steps).settings.entries := by
      rw [← pairs_eq_entries built]
      exact (carries _).mpr rfl
    obtain ⟨query, asked, inside⟩ := mem_query built filter.isPlain_key address.isPlain_text set
    exact ⟨url, query, built, asked, inside, carries⟩

/-- A path and a filter with the address that is all zeros. -/
theorem passes_unchanged_zero :
    let steps : List (Step Indexer.assetFilters) := [
      .set .creator "old" (by decide), .set .limit (3 : UInt64) (by decide), .set .creator zero.text (by decide)]
    Url.parse "http://localhost:4001/api/" = .ok Client.underPath.base ∧ Client.underPath.base.IsWeb ∧
      ForAccount zero.text (Node.pendingTransactionsByAddress zero.text) ["transactions", "pending"] ∧
      (∃ url, (Node.pendingTransactionsByAddress zero.text).url Client.underPath = .ok url ∧ url.path.text =
        "/api/v2/accounts/AAAAAAAAAAAAAAAAAAAAAAAAAAAAAAAAAAAAAAAAAAAAAAAAAAAAY5HFKQ/transactions/pending".toList) ∧
      SetsLast .creator zero.text steps ∧
      ∃ url query, (Indexer.searchForAssets.run steps).url Client.underPath = .ok url ∧ url.query = some query ∧
        "creator=AAAAAAAAAAAAAAAAAAAAAAAAAAAAAAAAAAAAAAAAAAAAAAAAAAAAY5HFKQ".toList ∈
          Text.splitOn '&' query.toList ∧
        parse "AAAAAAAAAAAAAAAAAAAAAAAAAAAAAAAAAAAAAAAAAAAAAAAAAAAAY5HFKQ" = .ok zero := by
  intro steps
  have read : Url.parse "http://localhost:4001/api/" = .ok Client.underPath.base := rfl
  have web : Client.underPath.base.IsWeb := .inl rfl
  have offers : Catalogue.indexer.Offers (Indexer.Route.searchForAssets : Catalogue.indexer.Route)
    Indexer.searchForAssets := .searchForAssets
  have last : SetsLast .creator zero.text steps :=
    .set (by decide) [.set .creator "old" (by decide), .set .limit (3 : UInt64) (by decide)] rfl
  obtain ⟨inPath, inQuery, back⟩ := passes_unchanged zero read web
  obtain ⟨url, front, built, root, path, _⟩ := inPath .pending []
  obtain ⟨url', query, built', asked, inside, _⟩ := inQuery offers .creator steps last
  rw [text_zero] at path inside back
  refine ⟨read, web, .pending, ⟨url, built, ?_⟩, last, url', query, built', asked, inside, back⟩
  have stem : Client.underPath.base.root = "/api".toList := rfl
  rw [path, text_append, root, stem]
  decide +kernel

end Address
end LedgerClient
