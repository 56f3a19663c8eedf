import LedgerClient.Demo.NodeStatus
import LedgerClient.Proofs.Journeys
import LedgerClient.Proofs.LongBases

/-! How the status program runs. It makes five calls in a row, the last of which may be
given up, and the reply to the second says what the last one asks for. -/

namespace LedgerClient.Demo.NodeStatus
open Script

def versionLines (version : Version) : List String :=
  let build := version.build
  ["   Genesis ID: " ++ version.genesisId,
    "   Build: " ++ toString build.major ++ "." ++ toString build.minor ++ "." ++ toString build.buildNumber ++
      " (" ++ build.channel ++ ")", ""]

def statusLines (status : NodeStatusResponse) : List String :=
  ["   Last round: " ++ toString status.lastRound,
    "   Consensus version: " ++ status.lastVersion,
    "   Time since last round: " ++ (Duration.ofNanoseconds status.timeSinceLastRound.toNat).text] ++
  (if status.catchpoint ≠ "" then ["   Catching up to: " ++ status.catchpoint] else []) ++ [""]

def parameterLines (parameters : TransactionParametersResponse) : List String :=
  ["   Fee: " ++ toString parameters.fee ++ " (min " ++ toString parameters.minFee ++ ")",
    "   Valid from round: " ++ toString parameters.lastRound, ""]

def supplyLines (supply : SupplyResponse) : List String :=
  ["   Online: " ++ toString supply.onlineMoney ++ " of " ++ toString supply.totalMoney ++ " MicroAlgos", ""]

/-- The last call, which waits for the block after a round. -/
def waiting (round : UInt64) : Stop :=
  ⟨["5. Waiting for the next block (up to 10s)..."], Node.waitForBlock round,
    fun status => ["   Now at round " ++ toString status.lastRound], some ["   No new block yet"]⟩

/-- The calls of the program, of which the last takes a round from the second. -/
def stops (round : UInt64) : List Stop := [
  ⟨["1. Fetching versions..."], Node.versions, versionLines, none⟩,
  ⟨["2. Fetching node status..."], Node.status, statusLines, none⟩,
  ⟨["3. Fetching suggested transaction parameters..."], Node.transactionParams, parameterLines, none⟩,
  ⟨["4. Fetching supply..."], Node.supply, supplyLines, none⟩,
  waiting round]

private theorem plain_waiting (round : UInt64) : (waiting round).call.IsPlain := by
  have fixed : ∀ entry ∈ ["v2", "status", "wait-for-block-after"], Url.IsPlain entry := by decide
  refine ⟨fun entry present => ?_, nofun, rfl, rfl⟩
  rcases List.mem_append.mp (show entry ∈ ["v2", "status", "wait-for-block-after"] ++ [_] from present) with
    inside | last
  · exact fixed entry inside
  · rw [List.mem_singleton.mp last]
    exact Url.isPlain_number round

private theorem plain_stops (round : UInt64) : ∀ stop ∈ stops round, stop.call.IsPlain := by
  simp only [stops, List.forall_mem_cons]
  refine ⟨?_, ?_, ?_, ?_, plain_waiting round, nofun⟩
  all_goals exact ⟨by decide, nofun, rfl, rfl⟩

private theorem asked_stops (client : Client) (round : UInt64) : (stops round).map (·.call.asked client) =
    ["/versions", "/v2/status", "/v2/transactions/params", "/v2/ledger/supply",
      "/v2/status/wait-for-block-after/" ++ toString round.toNat].map fun path =>
        (.get, String.ofList client.base.root ++ path) := by
  have last : (Node.waitForBlock round).line =
      ("/v2/status/wait-for-block-after/" ++ toString round.toNat).toList := by
    rw [String.toList_append, Call.line]
    refine (List.append_nil _).trans ?_
    have entries : (Node.waitForBlock round).path = ["v2", "status", "wait-for-block-after", toString round.toNat] :=
      rfl
    simp [UrlPath.text, entries]
  simp only [stops, waiting, List.map_cons, List.map_nil, Call.asked, String.ofList_append, last, String.ofList_toList]
  rfl

/-- The ten seconds are over before a reply without end is one that came too late. -/
theorem executeUntil_patience {client : Client} (timeout : client.timeout = .ofSeconds 30) {call : Call [] α}
    (untouched : call.options = .empty) (reply : Reply) :
    let exchange := call.execute client (some reply)
    call.executeUntil client (.after patience) (some reply) =
      if exchange.request.isSome ∧ reply.isEndless then
        ⟨exchange.request, exchange.log ++ [Client.cancelling call.endpoint], .error .cancelled⟩
      else exchange := by
  have first : Client.Signal.isFirst (.after patience) (some reply) (.ofSeconds 30) = reply.isEndless :=
    Bool.and_true _
  have late : Signal.after patience ≠ .ready := nofun
  have standard : call.options.timeout.getD client.timeout = .ofSeconds 30 := by
    rw [untouched, timeout]
    rfl
  simp only [Call.executeUntil, Client.executeUntil, standard, first, if_neg late]
  rfl

private theorem runs_awaitBlock {client : Client} (timeout : client.timeout = .ofSeconds 30) (round : UInt64)
    (replies : List Reply) :
    let reply := upcoming replies
    let outcome := (waiting round).outcome client reply
    Runs (awaitBlock client round) replies (ending (faultOf outcome)) (outcome.toOption.getD [])
      (((waiting round).call.execute client (some reply)).passed reply) := by
  intro reply outcome
  have plain := plain_waiting round
  have made := Runs.attempt replies client (Node.waitForBlock round) (.after patience)
  rw [executeUntil_patience timeout rfl] at made
  rw [awaitBlock, ← List.append_nil (Exchange.passed _ _)]
  by_cases endless : (Call.execute (Node.waitForBlock round) client (some reply)).request.isSome ∧ reply.isEndless
  · have given : outcome = .ok ["   No new block yet"] := if_pos endless
    rw [if_pos endless] at made
    rw [given]
    refine Runs.bind made ?_
    exact Runs.print "   No new block yet"
  · have awaited : outcome = (Call.execute (Node.waitForBlock round) client (some reply)).result.map _ := if_neg endless
    rw [if_neg endless] at made
    rw [awaited]
    refine Runs.bind made ?_
    cases result : (Call.execute (Node.waitForBlock round) client (some reply)).result with
    | ok status => exact Runs.print _
    | error error =>
      dsimp only
      rw [isCancelled_of_execute plain result, if_neg Bool.false_ne_true]
      exact Runs.throw error

private theorem makes_waiting {client : Client} (timeout : client.timeout = .ofSeconds 30) (round : UInt64)
    (replies : List Reply) :
    Makes (do print "5. Waiting for the next block (up to 10s)..."; awaitBlock client round; print ""; print "Done!")
      client ["", "Done!"] [waiting round] replies := by
  have waited := runs_awaitBlock timeout round replies
  rw [Makes]
  cases result : (waiting round).outcome client (upcoming replies) with
  | error error =>
    simp only [result] at waited
    rw [journey_of_error result]
    exact Runs.print_bind (waited.bind_error _)
  | ok lines =>
    simp only [result] at waited
    rw [journey_of_ok result]
    exact Runs.print_bind (waited.bind (Runs.print_bind (Runs.print "Done!")))

private theorem runs_showVersion (version : Version) (replies : List Reply) :
    Runs (showVersion version) replies (.ok ()) (versionLines version) [] :=
  Runs.print_bind (Runs.print_bind (Runs.print ""))

private theorem runs_showStatus (status : NodeStatusResponse) (replies : List Reply) :
    Runs (showStatus status) replies (.ok ()) (statusLines status) [] := by
  rw [showStatus, statusLines]
  by_cases caughtUp : status.catchpoint = ""
  · simp only [caughtUp, ne_eq, not_true_eq_false, if_false]
    exact Runs.print_bind (Runs.print_bind (Runs.print_bind (Runs.print "")))
  · simp only [caughtUp, ne_eq, not_false_eq_true, if_true]
    exact Runs.print_bind (Runs.print_bind (Runs.print_bind (Runs.print_bind (Runs.print ""))))

private theorem runs_showParameters (parameters : TransactionParametersResponse) (replies : List Reply) :
    Runs (showParameters parameters) replies (.ok ()) (parameterLines parameters) [] :=
  Runs.print_bind (Runs.print_bind (Runs.print ""))

private theorem runs_showSupply (supply : SupplyResponse) (replies : List Reply) :
    Runs (showSupply supply) replies (.ok ()) (supplyLines supply) [] :=
  Runs.print_bind (Runs.print "")

/-- The round in a reply to the second call; none is the round 0. -/
def roundOf (reply : Reply) : UInt64 := ((Node.status.value? reply).map (·.lastRound)).getD 0

private theorem makes_steps {client : Client} (timeout : client.timeout = .ofSeconds 30) (replies : List Reply) :
    let journey := journey client ["", "Done!"] (stops (roundOf (replyAt replies 1))) replies
    Runs (steps client) replies (ending journey.failure) ("=== Algorand node ===" :: "" :: journey.lines)
      journey.sent := by
  intro journey
  have plain := plain_stops (roundOf (replyAt replies 1))
  simp only [stops, List.forall_mem_cons] at plain
  obtain ⟨first, second, third, fourth, _, _⟩ := plain
  refine Runs.print_bind (Runs.print_bind ?_)
  change Makes _ client ["", "Done!"] (stops _) replies
  rw [stops]
  refine makes_cons ⟨_, Node.versions, versionLines, none⟩ first rfl (Runs.print _) ?_
  refine fun version _ => (runs_showVersion version _).bind ?_
  refine makes_cons ⟨_, Node.status, statusLines, none⟩ second rfl (Runs.print _) ?_
  refine fun status result => (runs_showStatus status _).bind ?_
  have held : Node.status.value? (upcoming replies.tail) = some status :=
    ((Call.execute_eq_ok_iff second).mp result).2
  have round : roundOf (replyAt replies 1) = status.lastRound := by
    rw [← upcoming_drop, List.drop_one, roundOf, held]
    rfl
  rw [round]
  refine makes_cons ⟨_, Node.transactionParams, parameterLines, none⟩ third rfl (Runs.print _) ?_
  refine fun parameters _ => (runs_showParameters parameters _).bind ?_
  refine makes_cons ⟨_, Node.supply, supplyLines, none⟩ fourth rfl (Runs.print _) ?_
  refine fun supply _ => (runs_showSupply supply _).bind ?_
  exact makes_waiting timeout status.lastRound _

/-- The last call, once it goes, ends well with a new block or with none after ten seconds. -/
theorem outcome_waiting {client : Client} {round : UInt64} (goes : (Node.waitForBlock round).Goes client)
    (reply : Reply) : (waiting round).outcome client reply =
      if reply.isEndless then .ok ["   No new block yet"]
      else ((Node.waitForBlock round).execute client (some reply)).result.map
        fun status => ["   Now at round " ++ toString status.lastRound] := by
  have plain := plain_waiting round
  obtain ⟨request, sent, _⟩ := Call.execute_of_goes plain goes reply
  have gone : ((waiting round).call.execute client (some reply)).request.isSome = true := by
    rw [sent]
    rfl
  by_cases endless : reply.isEndless = true
  · exact (if_pos ⟨gone, endless⟩).trans (if_pos endless).symm
  · exact (if_neg fun both => endless both.2).trans (if_neg endless).symm

private theorem waiting_isOk_iff {client : Client} {round : UInt64} (goes : (Node.waitForBlock round).Goes client)
    (reply : Reply) : (∃ lines, (waiting round).outcome client reply = .ok lines) ↔
      ((Node.waitForBlock round).value? reply).isSome ∨ reply.isEndless := by
  have plain := plain_waiting round
  rw [outcome_waiting goes]
  split
  next endless => exact iff_of_true ⟨_, rfl⟩ (.inr endless)
  next ended =>
    rw [or_iff_left ended, Option.isSome_iff_exists]
    have held : ∀ value, (Node.waitForBlock round).value? reply = some value ↔
        ((Node.waitForBlock round).execute client (some reply)).result = .ok value := fun value =>
      ((Call.execute_eq_ok_iff plain).trans (and_iff_right goes)).symm
    simp only [held]
    cases ((Node.waitForBlock round).execute client (some reply)).result with
    | ok status => exact iff_of_true ⟨_, rfl⟩ ⟨_, rfl⟩
    | error error => exact iff_of_false nofun nofun

/-- All lines in front of calls end in a dot, which the last line of the program does not. -/
theorem not_done_of_heading {round : UInt64} {stop : Stop} (present : stop ∈ stops round) {lines : List String}
    (last : stop.heading <:+ lines) (front : String) : textOf lines ≠ front ++ "\nDone!\n" := by
  obtain ⟨line, single, mark⟩ : ∃ line, stop.heading = [line] ∧ line.toList.getLast? = some '.' := by
    simp only [stops, waiting, List.mem_cons, List.not_mem_nil, or_false] at present
    rcases present with rfl | rfl | rfl | rfl | rfl <;> exact ⟨_, rfl, rfl⟩
  have sign : ∀ (text : String) (line : List Char),
      (text ++ (String.ofList line ++ "\n")).toList.dropLast.getLast? = (text.toList ++ line).getLast? := by
    intro text line
    rw [String.toList_append, String.toList_append, String.toList_ofList, ← List.append_assoc]
    exact congrArg List.getLast? List.dropLast_concat
  intro done
  obtain ⟨front', split⟩ := textOf_of_suffix last
  have heading : textOf stop.heading = String.ofList line.toList ++ "\n" := by
    rw [single, String.ofList_toList]
    exact String.empty_append
  have same : front' ++ (String.ofList line.toList ++ "\n") = front ++ (String.ofList "\nDone!".toList ++ "\n") := by
    rw [← heading]
    exact split.symm.trans done
  have signs := congrArg (fun text : String => text.toList.dropLast.getLast?) same
  rw [sign, sign, List.getLast?_append, List.getLast?_append, mark] at signs
  cases signs

/-- The program is done exactly if none of its calls fails. -/
theorem done_iff (client : Client) (round : UInt64) (replies : List Reply) :
    (∃ front, textOf ("=== Algorand node ===" :: "" :: (journey client ["", "Done!"] (stops round) replies).lines) =
      front ++ "\nDone!\n") ↔ (journey client ["", "Done!"] (stops round) replies).failure = none := by
  obtain ⟨complete, broken⟩ := lines_of_journey client ["", "Done!"] (stops round) replies
  have behind := fun lines => (List.suffix_cons "" lines).trans (List.suffix_cons "=== Algorand node ===" _)
  constructor
  · rintro ⟨front, done⟩
    apply Classical.byContradiction
    intro failed
    obtain ⟨stop, present, last⟩ := broken failed
    exact not_done_of_heading present (last.trans (behind _)) front done
  · intro done
    exact textOf_of_suffix ((complete done).trans (behind _))

/-- How far the program gets, call by call. -/
theorem reaches_iff (client : Client) (round : UInt64) (replies : List Reply) :
    let reply := replyAt replies
    let length := (journey client ["", "Done!"] (stops round) replies).sent.length
    (0 < length ↔ Node.versions.Goes client) ∧
    (1 < length ↔ 0 < length ∧ (Node.versions.value? (reply 0)).isSome ∧ Node.status.Goes client) ∧
    (2 < length ↔ 1 < length ∧ (Node.status.value? (reply 1)).isSome ∧ Node.transactionParams.Goes client) ∧
    (3 < length ↔ 2 < length ∧ (Node.transactionParams.value? (reply 2)).isSome ∧ Node.supply.Goes client) ∧
    (4 < length ↔ 3 < length ∧ (Node.supply.value? (reply 3)).isSome ∧ (Node.waitForBlock round).Goes client) := by
  intro reply length
  have plain := plain_stops round
  have next := succ_lt_sent_iff client ["", "Done!"] plain replies
  exact ⟨sent_pos (plain _ (List.mem_of_getElem? (i := 0) rfl)) _ _ replies, next 0 rfl rfl rfl, next 1 rfl rfl rfl,
    next 2 rfl rfl rfl, next 3 rfl rfl rfl⟩

private theorem run_eq_journey {address token : Option String} {client : Client}
    (made : opened .node address token = .ok client) (replies : List Reply) :
    let report := run (some replies) (script address token)
    let journey := journey client ["", "Done!"] (stops (roundOf (replyAt replies 1))) replies
    report.output = textOf ("=== Algorand node ===" :: "" :: journey.lines) ∧ report.sent = journey.sent ∧
      report.error = journey.failure := by
  exact run_of_opened made steps (makes_steps (timeout_of_opened made) replies)

/-- The program makes its calls in a row, the last for the block after the round that is told
in the second reply. A request goes out exactly if the one before it did and met a whole
success that can be read, and if its own address is not too long. The program is done exactly
if the last request goes out and succeeds or is given up, as one whose reply has no end is;
otherwise the error is that of the call it ends with. -/
theorem report_of_replies {address token : Option String} {client : Client}
    (made : opened .node address token = .ok client) (replies : List Reply) :
    let reply := replyAt replies
    let round := roundOf (reply 1)
    let report := run (some replies) (script address token)
    let length := report.sent.length
    let journey := journey client ["", "Done!"] (stops round) replies
    report.sent.map (·.1.asked) <+:
      ["/versions", "/v2/status", "/v2/transactions/params", "/v2/ledger/supply",
        "/v2/status/wait-for-block-after/" ++ toString round.toNat].map
          (fun path => (.get, String.ofList client.base.root ++ path)) ∧
    report.sent.map (·.2) = (List.range length).map reply ∧
    (0 < length ↔ Node.versions.Goes client) ∧
    (1 < length ↔ 0 < length ∧ (Node.versions.value? (reply 0)).isSome ∧ Node.status.Goes client) ∧
    (2 < length ↔ 1 < length ∧ (Node.status.value? (reply 1)).isSome ∧ Node.transactionParams.Goes client) ∧
    (3 < length ↔ 2 < length ∧ (Node.transactionParams.value? (reply 2)).isSome ∧ Node.supply.Goes client) ∧
    (4 < length ↔ 3 < length ∧ (Node.supply.value? (reply 3)).isSome ∧ (Node.waitForBlock round).Goes client) ∧
    report.output = textOf ("=== Algorand node ===" :: "" :: journey.lines) ∧
    report.error = journey.failure ∧
    ((∃ front, report.output = front ++ "\nDone!\n") ↔
      4 < length ∧ (((Node.waitForBlock round).value? (reply 4)).isSome ∨ (reply 4).isEndless)) ∧
    (4 < length → (reply 4).isEndless →
      ∃ front, report.output = front ++ "   No new block yet\n\nDone!\n") := by
  intro reply round report length journey
  obtain ⟨output, sent, error⟩ := run_eq_journey made replies
  have sent : report.sent = journey.sent := sent
  have size : length = journey.sent.length := congrArg List.length sent
  have plain := plain_stops round
  obtain ⟨first, second, third, fourth, fifth⟩ := reaches_iff client round replies
  have gone : 4 < journey.sent.length → (Node.waitForBlock round).Goes client := fun reached => (fifth.mp reached).2.2
  rw [sent, size]
  refine ⟨?_, replies_of_sent plain replies, first, second, third, fourth, fifth, output, error, ?_, ?_⟩
  · rw [← asked_stops]
    exact sent_isPrefix plain replies
  · rw [show report.output = _ from output, done_iff]
    refine (failure_eq_none_iff ((stops round).take 4) (waiting round) plain replies).trans ?_
    exact and_congr_right fun reached => waiting_isOk_iff (gone reached) _
  · intro reached endless
    rw [show report.output = _ from output]
    have given : (waiting round).outcome client (reply 4) = .ok ["   No new block yet"] := by
      rw [outcome_waiting (gone reached), if_pos endless]
    have last := last_isSuffix ((stops round).take 4) (waiting round)
      (fun stop present => plain stop (List.mem_of_mem_take present)) replies reached given
    exact textOf_of_suffix (last.trans ((List.suffix_cons _ _).trans (List.suffix_cons _ _)))

private theorem goes_underPath : ∀ stop ∈ stops 0, stop.call.Goes Client.underPath := by
  have web : Client.underPath.base.IsWeb := .inl rfl
  intro stop present
  rw [Call.goes_iff (plain_stops 0 stop present) web rfl rfl rfl]
  revert stop
  decide +kernel

private theorem read_emptyAnswer : roundOf emptyAnswer = 0 ∧ (Node.versions.value? emptyAnswer).isSome ∧
    (Node.status.value? emptyAnswer).isSome ∧ (Node.transactionParams.value? emptyAnswer).isSome ∧
    (Node.supply.value? emptyAnswer).isSome := by
  decide +kernel

/-- A node that has no new block. -/
theorem report_of_replies_underPath :
    let replies := [emptyAnswer, emptyAnswer, emptyAnswer, emptyAnswer, .silent]
    let report := run (some replies) (script (some "http://localhost:4001/api/") none)
    opened .node (some "http://localhost:4001/api/") none = .ok Client.underPath ∧
      report.sent.map (·.2) = replies ∧
      (report.sent.map (·.1.asked))[4]? = some (.get, "/api/v2/status/wait-for-block-after/0") ∧
      (∃ front, report.output = front ++ "   No new block yet\n\nDone!\n") := by
  intro replies
  dsimp only
  have made : opened .node (some "http://localhost:4001/api/") none = .ok Client.underPath := rfl
  obtain ⟨asked, met, first, second, third, fourth, fifth, _, _, _, given⟩ := report_of_replies made replies
  generalize run (some replies) (script (some "http://localhost:4001/api/") none) = report at *
  obtain ⟨round, versions, status, parameters, supply⟩ := read_emptyAnswer
  have round : roundOf (replyAt replies 1) = 0 := round
  have goes := goes_underPath
  simp only [stops, List.forall_mem_cons] at goes
  obtain ⟨one, two, three, four, five, _⟩ := goes
  rw [round] at fifth asked
  have reached := second.mpr ⟨first.mpr one, versions, two⟩
  have reached := fourth.mpr ⟨third.mpr ⟨reached, status, three⟩, parameters, four⟩
  have reached := fifth.mpr ⟨reached, supply, five⟩
  have size : report.sent.length = 5 := by
    have most := asked.length_le
    rw [List.length_map] at most
    exact Nat.le_antisymm most reached
  have whole := asked.eq_of_length (by rw [List.length_map]; exact size)
  refine ⟨made, ?_, ?_, given reached rfl⟩
  · rw [met, size]
    rfl
  · rw [whole]
    decide +kernel

/-- Under a path of this length the last address is too long, so that the program ends
although the reply in front of it was a success. -/
theorem run_under_long_entry {entry : String} (plain : Url.IsPlain entry) (size : entry.toList.length = 65485) :
    let report := run (some (List.replicate 5 emptyAnswer)) (script (some ("http://localhost:4001/" ++ entry)) none)
    (Node.supply.value? emptyAnswer).isSome ∧ report.sent.map (·.2) = List.replicate 4 emptyAnswer ∧
      ∀ front, report.output ≠ front ++ "\nDone!\n" := by
  intro report
  let client : Client := ⟨Url.underEntry entry, Client.standardHeaders, .ofSeconds 30⟩
  have made : opened .node (some ("http://localhost:4001/" ++ entry)) none = .ok client := by
    rw [opened, Service.connect, ClientConfig.parse, Url.parse_underEntry plain]
    rfl
  have goes : ∀ stop ∈ stops 0, stop.call.settings = .empty →
      (stop.call.Goes client ↔ 22 + 65485 + stop.call.line.length ≤ Client.addressLimit) := fun stop present fresh =>
    size ▸ Call.goes_underEntry_iff rfl plain (plain_stops 0 stop present) fresh
  simp only [stops, List.forall_mem_cons] at goes
  obtain ⟨one, two, three, four, five, _⟩ := goes
  have lengths : (stops 0).map (·.call.line.length) = [9, 10, 23, 17, 33] := by decide +kernel
  simp only [stops, List.map_cons, List.map_nil, List.cons.injEq, and_true] at lengths
  have limit : Client.addressLimit = 65534 := rfl
  obtain ⟨round, versions, status, parameters, supply⟩ := read_emptyAnswer
  have round : roundOf (replyAt (List.replicate 5 emptyAnswer) 1) = 0 := round
  obtain ⟨output, sent, _⟩ := run_eq_journey made (List.replicate 5 emptyAnswer)
  rw [round] at output sent
  obtain ⟨first, second, third, fourth, fifth⟩ := reaches_iff client 0 (List.replicate 5 emptyAnswer)
  have reached := first.mpr ((one rfl).mpr (by omega))
  have reached := second.mpr ⟨reached, versions, (two rfl).mpr (by omega)⟩
  have reached := third.mpr ⟨reached, status, (three rfl).mpr (by omega)⟩
  have reached := fourth.mpr ⟨reached, parameters, (four rfl).mpr (by omega)⟩
  have ended : ¬4 < (journey client ["", "Done!"] (stops 0) (List.replicate 5 emptyAnswer)).sent.length := by
    intro further
    have room := (five rfl).mp (fifth.mp further).2.2
    omega
  have size : (journey client ["", "Done!"] (stops 0) (List.replicate 5 emptyAnswer)).sent.length = 4 :=
    Nat.le_antisymm (Nat.le_of_not_lt ended) reached
  refine ⟨supply, ?_, fun front complete => ?_⟩
  · rw [show report.sent = _ from sent, replies_of_sent (plain_stops 0), size]
    rfl
  · rw [show report.output = _ from output] at complete
    have done := (done_iff client 0 _).mp ⟨front, complete⟩
    exact ended ((failure_eq_none_iff ((stops 0).take 4) (waiting 0) (plain_stops 0) _).mp done).1

/-- A base address that leaves room for the first four paths and not for the last one. -/
theorem long_base_path_ends_run :
    let address := "http://localhost:4001/" ++ String.ofList (List.replicate 65485 'a')
    let report := run (some (List.replicate 5 emptyAnswer)) (script (some address) none)
    (Node.supply.value? emptyAnswer).isSome ∧ report.sent.map (·.2) = List.replicate 4 emptyAnswer ∧
      ∀ front, report.output ≠ front ++ "\nDone!\n" := by
  have letters : ∀ n, 0 < n → Url.IsPlain (String.ofList (List.replicate n 'a')) := by
    intro n filled
    refine ⟨fun empty => ?_, fun c inside => ?_⟩
    · have none := congrArg String.toList empty
      rw [String.toList_ofList] at none
      cases n with
      | zero => cases filled
      | succ n => cases none
    · rw [String.toList_ofList] at inside
      rw [List.eq_of_mem_replicate inside]
      decide
  have size : ∀ n, (String.ofList (List.replicate n 'a')).toList.length = n := by
    intro n
    rw [String.toList_ofList, List.length_replicate]
  exact run_under_long_entry (letters 65485 (by decide)) (size 65485)

end LedgerClient.Demo.NodeStatus
