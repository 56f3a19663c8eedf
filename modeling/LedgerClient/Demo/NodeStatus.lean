import LedgerClient.Demo.Session
import LedgerClient.Node.Calls

/-! Asks a node for its status and for what new transactions need. -/

namespace LedgerClient.Demo.NodeStatus
open Script

/-- How long to wait for a block. -/
def patience : Duration := .ofSeconds 10

def showVersion (version : Version) : Script Unit := do
  print ("   Genesis ID: " ++ version.genesisId)
  let build := version.build
  print ("   Build: " ++ toString build.major ++ "." ++ toString build.minor ++ "." ++ toString build.buildNumber ++
    " (" ++ build.channel ++ ")")
  print ""

def showStatus (status : NodeStatusResponse) : Script Unit := do
  print ("   Last round: " ++ toString status.lastRound)
  print ("   Consensus version: " ++ status.lastVersion)
  print ("   Time since last round: " ++ (Duration.ofNanoseconds status.timeSinceLastRound.toNat).text)
  if status.catchpoint ≠ "" then
    print ("   Catching up to: " ++ status.catchpoint)
  print ""

def showParameters (parameters : TransactionParametersResponse) : Script Unit := do
  print ("   Fee: " ++ toString parameters.fee ++ " (min " ++ toString parameters.minFee ++ ")")
  print ("   Valid from round: " ++ toString parameters.lastRound)
  print ""

def showSupply (supply : SupplyResponse) : Script Unit := do
  print ("   Online: " ++ toString supply.onlineMoney ++ " of " ++ toString supply.totalMoney ++ " MicroAlgos")
  print ""

def awaitBlock (client : Client) (round : UInt64) : Script Unit := do
  match ← attempt client (Node.waitForBlock round) (.after patience) with
  | .ok status => print ("   Now at round " ++ toString status.lastRound)
  | .error error => if error.isCancelled then print "   No new block yet" else throw error

def steps (client : Client) : Script Unit := do
  print "=== Algorand node ==="
  print ""
  print "1. Fetching versions..."
  showVersion (← perform client Node.versions)
  print "2. Fetching node status..."
  let status ← perform client Node.status
  showStatus status
  print "3. Fetching suggested transaction parameters..."
  showParameters (← perform client Node.transactionParams)
  print "4. Fetching supply..."
  showSupply (← perform client Node.supply)
  print "5. Waiting for the next block (up to 10s)..."
  awaitBlock client status.lastRound
  print ""
  print "Done!"

def script (address token : Option String) : Script Unit := do
  steps (← Demo.client .node address token)

end LedgerClient.Demo.NodeStatus
