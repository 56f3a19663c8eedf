import LedgerClient.Indexer.Calls
import LedgerClient.Node.Calls

/-! The two catalogues of calls, and calls under construction. A call is started on a
route and then changed step by step; no step touches its route. -/

namespace LedgerClient

/-- The calls of a node, one for each route. -/
inductive Node.Offers : Node.Route → {filters : List Filter} → {α : Type} → Call filters α → Prop where
  | accountInformation (address : String) :
      Offers (.accountInformation address) (Node.accountInformation address)
  | pendingTransactionsByAddress (address : String) :
      Offers (.pendingTransactionsByAddress address) (Node.pendingTransactionsByAddress address)
  | applicationById (id : UInt64) : Offers (.applicationById id) (Node.applicationById id)
  | assetById (id : UInt64) : Offers (.assetById id) (Node.assetById id)
  | block (round : UInt64) : Offers (.block round) (Node.block round)
  | supply : Offers .supply Node.supply
  | startCatchup (catchpoint : String) : Offers (.startCatchup catchpoint) (Node.startCatchup catchpoint)
  | abortCatchup (catchpoint : String) : Offers (.abortCatchup catchpoint) (Node.abortCatchup catchpoint)
  | status : Offers .status Node.status
  | waitForBlock (round : UInt64) : Offers (.waitForBlock round) (Node.waitForBlock round)
  | tealCompile (source : String) : Offers .tealCompile (Node.tealCompile source)
  | tealDryrun (request : DryrunRequest) : Offers .tealDryrun (Node.tealDryrun request)
  | rawTransaction (signed : List UInt8) : Offers .rawTransaction (Node.rawTransaction signed)
  | transactionParams : Offers .transactionParams Node.transactionParams
  | pendingTransactions : Offers .pendingTransactions Node.pendingTransactions
  | pendingTransactionInformation (id : String) :
      Offers (.pendingTransactionInformation id) (Node.pendingTransactionInformation id)
  | healthCheck : Offers .healthCheck Node.healthCheck
  | metrics : Offers .metrics Node.metrics
  | swaggerJson : Offers .swaggerJson Node.swaggerJson
  | versions : Offers .versions Node.versions

/-- The calls of an indexer, one for each route. -/
inductive Indexer.Offers : Indexer.Route → {filters : List Filter} → {α : Type} → Call filters α → Prop where
  | searchForAccounts : Offers .searchForAccounts Indexer.searchForAccounts
  | lookupAccountById (account : String) : Offers (.lookupAccountById account) (Indexer.lookupAccountById account)
  | lookupAccountTransactions (account : String) :
      Offers (.lookupAccountTransactions account) (Indexer.lookupAccountTransactions account)
  | searchForApplications : Offers .searchForApplications Indexer.searchForApplications
  | lookupApplicationById (id : UInt64) : Offers (.lookupApplicationById id) (Indexer.lookupApplicationById id)
  | searchForAssets : Offers .searchForAssets Indexer.searchForAssets
  | lookupAssetById (id : UInt64) : Offers (.lookupAssetById id) (Indexer.lookupAssetById id)
  | lookupAssetBalances (id : UInt64) : Offers (.lookupAssetBalances id) (Indexer.lookupAssetBalances id)
  | lookupAssetTransactions (id : UInt64) :
      Offers (.lookupAssetTransactions id) (Indexer.lookupAssetTransactions id)
  | lookupBlock (round : UInt64) : Offers (.lookupBlock round) (Indexer.lookupBlock round)
  | searchForTransactions : Offers .searchForTransactions Indexer.searchForTransactions
  | healthCheck : Offers .healthCheck Indexer.healthCheck

inductive Catalogue
  | node | indexer
deriving DecidableEq, Repr

namespace Catalogue

/-- What a call is started with: the call that is meant, and the parameters in its path. -/
def Route : Catalogue → Type
  | node => Node.Route
  | indexer => Indexer.Route

def method : (catalogue : Catalogue) → catalogue.Route → Method
  | node => Node.Route.method
  | indexer => Indexer.Route.method

def path : (catalogue : Catalogue) → catalogue.Route → List String
  | node => Node.Route.path
  | indexer => Indexer.Route.path

def Offers : (catalogue : Catalogue) → catalogue.Route → {filters : List Filter} → {α : Type} →
    Call filters α → Prop
  | node => Node.Offers
  | indexer => Indexer.Offers

/-- A call that was just started has the method and the path of its route and no filters. -/
theorem Offers.started {catalogue : Catalogue} {route : catalogue.Route} {call : Call filters α}
    (offers : catalogue.Offers route call) :
    call.method = catalogue.method route ∧ call.path = catalogue.path route ∧ call.settings = .empty := by
  cases catalogue with
  | node => cases offers <;> exact ⟨rfl, rfl, rfl⟩
  | indexer => cases offers <;> exact ⟨rfl, rfl, rfl⟩

end Catalogue

namespace Call

/-- One change to a call: a filter that it takes, a header, or a time limit. -/
inductive Step (filters : List Filter) where
  | set (filter : Filter) (value : filter.Value) (taken : filter ∈ filters)
  | header (name value : String)
  | timeout (timeout : Duration)

def apply (call : Call filters α) : Step filters → Call filters α
  | .set filter value taken => call.set filter value taken
  | .header name value => call.header name value
  | .timeout timeout => call.timeout timeout

def run (call : Call filters α) (steps : List (Step filters)) : Call filters α := steps.foldl apply call

theorem run_cons (call : Call filters α) (step : Step filters) (steps : List (Step filters)) :
    call.run (step :: steps) = (call.apply step).run steps := rfl

/-- No change touches what a call is started with. -/
theorem run_keeps (call : Call filters α) (steps : List (Step filters)) :
    (call.run steps).method = call.method ∧ (call.run steps).path = call.path ∧
      (call.run steps).body = call.body := by
  induction steps generalizing call with
  | nil => exact ⟨rfl, rfl, rfl⟩
  | cons step steps ih =>
    obtain ⟨method, path, body⟩ := ih (call.apply step)
    rw [run_cons, method, path, body]
    cases step <;> exact ⟨rfl, rfl, rfl⟩

end Call
end LedgerClient
