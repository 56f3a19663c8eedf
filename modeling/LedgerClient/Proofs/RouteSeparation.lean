import LedgerClient.Proofs.CallAddress
import LedgerClient.Proofs.Catalogue

/-! A request tells which call it comes from. Appended entries can be read off a path
again, and no two routes of a catalogue have one method and the same entries. -/

namespace LedgerClient

theorem toString_injective {n m : Nat} (same : toString n = toString m) : n = m := by
  rw [Nat.toString_eq_ofList_toDigits, Nat.toString_eq_ofList_toDigits] at same
  have digits : Nat.toDigits 10 n = Nat.toDigits 10 m := String.ofList_injective same
  have read := congrArg (Nat.ofDigitChars 10 · 0) digits
  simp only [Nat.ofDigitChars_ten_toDigits] at read
  exact read

private theorem number_injective {n m : UInt64} (same : toString n.toNat = toString m.toNat) : n = m :=
  UInt64.toNat_inj.mp (toString_injective same)

/-- Two routes of a node differ in their methods, in how many entries they have, or in
an entry that both of them fix. -/
theorem Node.Route.eq_of_path {route other : Node.Route} (method : route.method = other.method)
    (path : route.path = other.path) : route = other := by
  cases route <;> cases other <;>
    simp_all [Node.Route.method, Node.Route.path]
  all_goals exact number_injective path

private theorem Indexer.Route.eq_of_path {route other : Indexer.Route} (path : route.path = other.path) :
    route = other := by
  cases route <;> cases other <;> simp_all [Indexer.Route.path]
  all_goals exact number_injective path

private theorem Catalogue.eq_of_path {catalogue : Catalogue} {route other : catalogue.Route}
    (method : catalogue.method route = catalogue.method other)
    (path : catalogue.path route = catalogue.path other) : route = other := by
  cases catalogue with
  | node => exact Node.Route.eq_of_path method path
  | indexer => exact Indexer.Route.eq_of_path path

namespace Client
open Url

private theorem entries_eq_of_segments {scheme : String} {entries others : List String}
    (whole : ∀ entry ∈ entries, Unbroken entry.toList) (whole' : ∀ entry ∈ others, Unbroken entry.toList)
    (same : entries.map (segmentOf scheme) = others.map (segmentOf scheme)) : entries = others := by
  have texts := congrArg (List.map fun segment => Percent.read? segment.toList) same
  rw [reads_entries scheme whole, reads_entries scheme whole'] at texts
  exact (List.map_inj_right fun _ _ equal => String.toList_inj.mp (Option.some.inj equal)).mp texts

private theorem entries_eq_of_path {client : Client} {address : String} (read : Url.parse address = .ok client.base)
    (web : client.base.IsWeb) {endpoint : Endpoint α} {other : Endpoint β}
    (whole : ∀ entry ∈ endpoint.path, Unbroken entry.toList)
    (whole' : ∀ entry ∈ other.path, Unbroken entry.toList) {url url' : Url}
    (built : client.url endpoint = .ok url) (built' : client.url other = .ok url')
    (same : url.path.text = url'.path.text) : endpoint.path = other.path := by
  obtain ⟨path, segments, tidy⟩ := path_of_parse read web
  have cut : url.parts = url'.parts := by rw [Url.parts, Url.parts, same]
  rw [parts_of_unbroken web segments tidy built whole, parts_of_unbroken web segments tidy built' whole'] at cut
  have joined := (List.map_inj_right fun _ _ => String.toList_inj.mp).mp cut
  exact entries_eq_of_segments whole whole' (List.append_cancel_left joined)

/-- Two calls of one catalogue whose requests have the same method and the same path
were started on the same route with the same parameters, however they were set up. -/
theorem route_eq_of_url {client : Client} {address : String} (read : Url.parse address = .ok client.base)
    (web : client.base.IsWeb) {catalogue : Catalogue} {route other : catalogue.Route}
    {call : Call filters α} {call' : Call filters' β}
    (offers : catalogue.Offers route call) (offers' : catalogue.Offers other call')
    (whole : ∀ entry ∈ catalogue.path route, Unbroken entry.toList)
    (whole' : ∀ entry ∈ catalogue.path other, Unbroken entry.toList)
    (steps : List (Call.Step filters)) (steps' : List (Call.Step filters')) {url url' : Url}
    (built : (call.run steps).url client = .ok url) (built' : (call'.run steps').url client = .ok url')
    (method : (call.run steps).method = (call'.run steps').method)
    (path : url.path.text = url'.path.text) : route = other := by
  obtain ⟨started, from_, _⟩ := offers.started
  obtain ⟨started', from', _⟩ := offers'.started
  obtain ⟨kept, along, _⟩ := call.run_keeps steps
  obtain ⟨kept', along', _⟩ := call'.run_keeps steps'
  have entries : (call.run steps).path = (call'.run steps').path := by
    refine entries_eq_of_path read web ?_ ?_ built built' path
    · exact fun entry present => whole entry (from_ ▸ along ▸ present)
    · exact fun entry present => whole' entry (from' ▸ along' ▸ present)
  apply Catalogue.eq_of_path
  · rw [← started, ← started', ← kept, ← kept', method]
  · rw [← from_, ← from', ← along, ← along', entries]

/-- Filters and headers do not hide an account with a slash and dots in its name, and no
other account is asked about in the same place. -/
theorem route_eq_of_url_underPath :
    let call := Node.pendingTransactionsByAddress "a/../b"
    let limited := call.run [.set .max (3 : UInt64) (by decide)]
    let traced := fun account => (Node.pendingTransactionsByAddress account).run [.header "x-trace" "1"]
    Url.parse "http://localhost:4001/api/" = .ok underPath.base ∧ underPath.base.IsWeb ∧
      (∀ entry ∈ call.path, Unbroken entry.toList) ∧
      ∃ url url', limited.url underPath = .ok url ∧ (traced "a/../b").url underPath = .ok url' ∧ url ≠ url' ∧
        limited.method = (traced "a/../b").method ∧ url.path.text = url'.path.text ∧
        ∀ account other, Unbroken account.toList → (traced account).url underPath = .ok other →
          url.path.text = other.path.text → account = "a/../b" := by
  have offers : ∀ account : String, Catalogue.node.Offers
      (Node.Route.pendingTransactionsByAddress account : Catalogue.node.Route)
      (Node.pendingTransactionsByAddress account) := .pendingTransactionsByAddress
  have whole : ∀ account : String, Unbroken account.toList →
      ∀ entry ∈ ["v2", "accounts", account, "transactions", "pending"], Unbroken entry.toList := by
    intro account unbroken
    simp only [List.forall_mem_cons]
    exact ⟨by decide, by decide, unbroken, by decide, by decide, nofun⟩
  have read : Url.parse "http://localhost:4001/api/" = .ok underPath.base := rfl
  have web : underPath.base.IsWeb := .inl rfl
  have unbroken : Unbroken "a/../b".toList := by decide
  refine ⟨read, web, whole "a/../b" unbroken,
    { underPath.base with path := .segments ["api", "v2", "accounts", "a%2F..%2Fb", "transactions", "pending"]
                          query := some "max=3" },
    { underPath.base with path := .segments ["api", "v2", "accounts", "a%2F..%2Fb", "transactions", "pending"] },
    rfl, rfl, by decide, rfl, rfl, fun account other unbroken' asked same => ?_⟩
  have routes := route_eq_of_url read web (offers "a/../b") (offers account) (whole "a/../b" unbroken)
    (whole account unbroken') [.set .max (3 : UInt64) (by decide)] [.header "x-trace" "1"] (by rfl) asked rfl same
  exact (Node.Route.pendingTransactionsByAddress.inj routes).symm

end Client
end LedgerClient
