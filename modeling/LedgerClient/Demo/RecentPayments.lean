import LedgerClient.Demo.Session
import LedgerClient.Indexer.Calls
import LedgerClient.Model.Catalogue

/-! Pages through the payments of the last hour. -/

namespace LedgerClient.Demo.RecentPayments
open Script

/-- How many payments were seen, and what they moved. The amount is a word of 64
bits, as the amounts themselves are. -/
structure Total where
  count : Nat
  amount : UInt64
deriving DecidableEq, Repr

def Total.zero : Total := ⟨0, 0⟩

def Total.add (total : Total) (transaction : Transaction) : Total :=
  match transaction.paymentTransaction with
  | some payment => ⟨total.count + 1, total.amount + payment.amount⟩
  | none => total

def search (since : Instant) (next : Option String) : Call Indexer.transactionFilters TransactionsResponse :=
  let call := Indexer.searchForTransactions.set .txType TxType.pay
  let call := call.set .afterTime (⟨since, 0⟩ : Moment)
  let call := call.set .limit (50 : UInt64)
  match next with
  | some token => call.set .next token
  | none => call

/-- How many pages are looked at. -/
def pageLimit : Nat := 3

def pages (client : Client) (since : Instant) : Nat → Option String → Total → Script Total
  | 0, _, total => return total
  | limit + 1, next, total => do
    let page ← perform client (search since next)
    let total := page.transactions.foldl Total.add total
    match nextToken page with
    | some token => pages client since limit (some token) total
    | none => return total

def steps (client : Client) (now : Instant) : Script Unit := do
  let health ← perform client Indexer.healthCheck
  print ("Indexer health: " ++ health.message)
  let total ← pages client (now.before 3600) pageLimit none .zero
  print (toString total.count ++ " payments in the last hour, " ++ toString total.amount.toNat ++
    " MicroAlgos moved")

def script (now : Instant) (address token : Option String) : Script Unit := do
  steps (← Demo.client .indexer address token) now

end LedgerClient.Demo.RecentPayments
