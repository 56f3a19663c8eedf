import Mathlib.Algebra.BigOperators.Group.List.Basic
import Mathlib.Data.Nat.Find
import Mathlib.Order.Bounds.Basic
import LedgerClient.Demo.RecentPayments
import LedgerClient.Proofs.Journeys
import LedgerClient.Proofs.RoundTrip

/-! How the payments program runs. It asks for a page of payments after the other: each
search carries the token of the page before, and the last one is the third at the latest. -/

namespace LedgerClient.Demo.RecentPayments
open Script

/-- The pairs of a search, as a server reads them. -/
def pairsOf (since : Instant) (next : Option String) : List (String × String) :=
  [("after-time", since.text 0), ("limit", "50")] ++ next.toList.map (("next", ·)) ++ [("tx-type", "pay")]

private theorem entries_search (since : Instant) (next : Option String) :
    (search since next).settings.entries = pairsOf since next := by
  cases next <;> rfl

private theorem plain_search (since : Instant) (next : Option String) : (search since next).IsPlain := by
  have path : ∀ entry ∈ ["v2", "transactions"], Url.IsPlain entry := by decide
  cases next <;> exact ⟨path, nofun, rfl, rfl⟩

private theorem line_search (since : Instant) (next : Option String) :
    (search since next).line = "/v2/transactions?".toList ++ Form.encode (pairsOf since next) := by
  rw [Call.line, entries_search]
  cases next <;> rfl

/-- Nothing a token may hold gets lost on its way to the server. -/
theorem asked_search (since : Instant) (next : Option String) (client : Client) :
    ∃ query, (search since next).asked client =
        (.get, String.ofList client.base.root ++ "/v2/transactions?" ++ String.ofList query) ∧
      Form.decode query = pairsOf since next := by
  refine ⟨Form.encode (pairsOf since next), ?_, Form.decode_encode _⟩
  have method : (search since next).method = .get := by cases next <;> rfl
  rw [Call.asked, line_search, method, String.ofList_append, String.ofList_append, String.ofList_toList,
    String.append_assoc]

/-- The page in a reply, if it holds one. -/
def page? (reply : Reply) : Option TransactionsResponse := Indexer.searchForTransactions.value? reply

private theorem value?_search (since : Instant) (next : Option String) (reply : Reply) :
    (search since next).value? reply = page? reply := by
  cases next <;> rfl

/-- The token that a search carries: that of the page before, and none at first. -/
def tokenFor (reply : Nat → Reply) : Nat → Option String
  | n + 2 => (page? (reply (n + 1))).bind nextToken
  | _ => none

/-- The searches, counted from one. -/
def searchAt (since : Instant) (reply : Nat → Reply) (n : Nat) :
    Call Indexer.transactionFilters TransactionsResponse :=
  search since (tokenFor reply n)

def outcomeAt (client : Client) (since : Instant) (reply : Nat → Reply) (n : Nat) :
    Except ClientError TransactionsResponse :=
  ((searchAt since reply n).execute client (some (reply n))).result

private theorem nextToken_eq_none {page : TransactionsResponse} : nextToken page = none ↔ page.nextToken = "" := by
  rw [nextToken]
  split
  next empty => exact iff_of_true rfl empty
  next filled => exact iff_of_false nofun filled

/-- No search follows the third one, one that fails, or one whose page has no token. -/
def IsLast (client : Client) (since : Instant) (reply : Nat → Reply) (n : Nat) : Prop :=
  n = 3 ∨ (∃ error, outcomeAt client since reply n = .error error) ∨
    ∃ page, outcomeAt client since reply n = .ok page ∧ nextToken page = none

/-- Only the number of searches ends a run whose page names another. -/
theorem IsLast.third {client : Client} {since : Instant} {reply : Nat → Reply} {n : Nat} {page : TransactionsResponse}
    (final : IsLast client since reply n) (done : outcomeAt client since reply n = .ok page)
    (token : nextToken page ≠ none) : n = 3 := by
  rcases final with third | ⟨error, failed⟩ | ⟨other, done', empty⟩
  · exact third
  · cases done.symm.trans failed
  · cases done.symm.trans done'
    exact absurd empty token

def searchStop (since : Instant) (reply : Nat → Reply) (n : Nat) : Stop :=
  ⟨[], searchAt since reply n, fun _ => [], none⟩

def transactionsIn (reply : Reply) : List Transaction := ((page? reply).map (·.transactions)).getD []

/-- What the pages from the one search to the other add to a total. -/
def totalOf (reply : Nat → Reply) (searches : List Nat) (total : Total) : Total :=
  (searches.flatMap fun n => transactionsIn (reply n)).foldl Total.add total

private theorem totalOf_cons {reply : Nat → Reply} {n : Nat} {page : TransactionsResponse}
    (held : page? (reply n) = some page)
    (searches : List Nat) (total : Total) :
    totalOf reply (n :: searches) total = totalOf reply searches (page.transactions.foldl Total.add total) := by
  rw [totalOf, totalOf, List.flatMap_cons, List.foldl_append, transactionsIn, held]
  rfl

theorem outcomeAt_eq_ok_iff {client : Client} {since : Instant} {reply : Nat → Reply} {n : Nat}
    {page : TransactionsResponse} : outcomeAt client since reply n = .ok page ↔
      (searchAt since reply n).Goes client ∧ page? (reply n) = some page := by
  rw [← value?_search since (tokenFor reply n)]
  exact Call.execute_eq_ok_iff (plain_search since _)

private theorem tokenFor_succ {reply : Nat → Reply} {n : Nat} (pos : 0 < n) {page : TransactionsResponse}
    (held : page? (reply n) = some page) : tokenFor reply (n + 1) = nextToken page := by
  cases n with
  | zero => cases pos
  | succ n => rw [tokenFor, held, Option.bind_some]

/-- The loop makes the searches that are left up to the last one, as long as its limit and
the number of the next search add up to four. -/
theorem makes_pages {client : Client} {since : Instant} {replies : List Reply} {last : Nat}
    (least : IsLeast {n | 0 < n ∧ IsLast client since (replyAt replies) n} last)
    (summary : Total → String) (limit : Nat) : ∀ (n : Nat) (total : Total), n + limit = 4 → 0 < n → n ≤ last →
      Makes (do print (summary (← pages client since limit (tokenFor (replyAt replies) n) total)))
        client [summary (totalOf (replyAt replies) (List.range' n (last + 1 - n)) total)]
        ((List.range' n (last + 1 - n)).map (searchStop since (replyAt replies))) (replies.drop n) := by
  have third : last ≤ 3 := least.2 ⟨by decide, .inl rfl⟩
  induction limit with
  | zero =>
    intro n total sum _ reached
    omega
  | succ limit ih =>
    intro n total sum pos reached
    obtain ⟨more, rfl⟩ := Nat.exists_eq_add_of_le reached
    have count : n + more + 1 - n = more + 1 := by omega
    rw [count, List.range'_succ, List.map_cons, pages, bind_assoc]
    -- A search has no line in front of it.
    change Makes (do pure (); _) client _ _ _
    refine makes_cons (searchStop since _ n) (plain_search since _) rfl (Runs.pure ()) ?_
    intro (page : TransactionsResponse) result
    have done : outcomeAt client since (replyAt replies) n = .ok page := by
      rw [outcomeAt, ← upcoming_drop]
      exact result
    have held := (outcomeAt_eq_ok_iff.mp done).2
    rw [totalOf_cons held, List.tail_drop]
    cases token : nextToken page with
    | none =>
      have final : n + more ≤ n := least.2 ⟨pos, .inr (.inr ⟨page, done, token⟩)⟩
      obtain rfl : more = 0 := by omega
      exact Runs.print _
    | some token' =>
      dsimp only
      cases more with
      | zero =>
        have third : n = 3 := least.1.2.third done (token ▸ nofun)
        obtain rfl : limit = 0 := by omega
        exact Runs.print _
      | succ more =>
        have next : tokenFor (replyAt replies) (n + 1) = some token' := by
          rw [tokenFor_succ pos held, token]
        have behind := ih (n + 1) (page.transactions.foldl Total.add total) (by omega) (by omega) (by omega)
        have count' : n + (more + 1) + 1 - (n + 1) = more + 1 := by omega
        rw [count', next] at behind
        exact behind

private theorem outcome_searchStop (client : Client) (since : Instant) (reply : Nat → Reply) (n : Nat) :
    (searchStop since reply n).outcome client (reply n) = (outcomeAt client since reply n).map fun _ => [] := rfl

/-- Only the last search may fail, or have an address that is too long. -/
theorem journey_searches (client : Client) (since : Instant) (closing : List String) (replies : List Reply)
    (more : Nat) : ∀ n,
    (∀ i, n ≤ i → i < n + more → ∃ page, outcomeAt client since (replyAt replies) i = .ok page) →
    let left := journey client closing
      ((List.range' n (more + 1)).map (searchStop since (replyAt replies))) (replies.drop n)
    (∀ error, outcomeAt client since (replyAt replies) (n + more) = .error error →
      left.lines = [] ∧ left.failure = some error) ∧
    (∀ page, outcomeAt client since (replyAt replies) (n + more) = .ok page →
      left.lines = closing ∧ left.failure = none) ∧
    more ≤ left.sent.length ∧
      (more < left.sent.length ↔ (searchAt since (replyAt replies) (n + more)).Goes client) := by
  induction more with
  | zero =>
    intro n _ left
    have result := outcome_searchStop client since (replyAt replies) n
    refine ⟨fun error failed => ?_, fun page done => ?_, Nat.zero_le _, ?_⟩
    · rw [show outcomeAt _ _ _ n = _ from failed, ← upcoming_drop] at result
      have same : left = _ := journey_of_error result
      exact same ▸ ⟨rfl, rfl⟩
    · rw [show outcomeAt _ _ _ n = _ from done, ← upcoming_drop] at result
      have same : left = _ := journey_of_ok result
      exact same ▸ ⟨rfl, rfl⟩
    · exact sent_pos (plain_search since _) closing [] _
  | succ more ih =>
    intro n earlier left
    obtain ⟨page, done⟩ := earlier n (Nat.le_refl n) (by omega)
    have result := outcome_searchStop client since (replyAt replies) n
    rw [done, ← upcoming_drop] at result
    have plain : (searchStop since (replyAt replies) n).call.IsPlain := plain_search since _
    obtain ⟨request, _, same⟩ := journey_of_plain plain result closing
      ((List.range' (n + 1) (more + 1)).map (searchStop since (replyAt replies)))
    rw [List.tail_drop] at same
    have rest := ih (n + 1) fun i above below => earlier i (by omega) (by omega)
    have shifted : n + 1 + more = n + (more + 1) := by omega
    rw [shifted] at rest
    obtain ⟨failing, complete, most, goes⟩ := rest
    rw [show left = _ from same]
    exact ⟨failing, complete, Nat.succ_le_succ most, Nat.succ_lt_succ_iff.trans goes⟩

def paymentsIn (transactions : List Transaction) : List TransactionPayment :=
  transactions.filterMap (·.paymentTransaction)

def moved (transactions : List Transaction) : Nat :=
  (paymentsIn transactions).foldr (fun payment amount => payment.amount.toNat + amount) 0

theorem foldl_add (transactions : List Transaction) : ∀ total : Total,
    (transactions.foldl Total.add total).count = total.count + transactions.countP (·.paymentTransaction.isSome) ∧
      (transactions.foldl Total.add total).amount.toNat = (total.amount.toNat + moved transactions) % 2 ^ 64 := by
  induction transactions with
  | nil => exact fun total => ⟨rfl, (Nat.mod_eq_of_lt total.amount.toNat_lt).symm⟩
  | cons transaction transactions ih =>
    intro total
    obtain ⟨count, amount⟩ := ih (total.add transaction)
    rw [List.foldl_cons, count, amount, List.countP_cons, moved, moved, paymentsIn, paymentsIn, List.filterMap_cons]
    cases payment : transaction.paymentTransaction with
    | none =>
      rw [Total.add, payment]
      exact ⟨rfl, rfl⟩
    | some payment' =>
      rw [Total.add, payment]
      dsimp only
      rw [if_pos Option.isSome_some, UInt64.toNat_add, List.foldr_cons, Nat.mod_add_mod]
      exact ⟨by omega, congrArg (· % 2 ^ 64) (Nat.add_assoc _ _ _)⟩

def summary (total : Total) : String :=
  toString total.count ++ " payments in the last hour, " ++ toString total.amount.toNat ++ " MicroAlgos moved"

private theorem summary_totalOf {reply : Nat → Reply} {searches : List Nat}
    (small : moved (searches.flatMap fun n => transactionsIn (reply n)) < 2 ^ 64) :
    summary (totalOf reply searches .zero) =
      toString ((searches.flatMap fun n => transactionsIn (reply n)).countP (·.paymentTransaction.isSome)) ++
        " payments in the last hour, " ++ toString (moved (searches.flatMap fun n => transactionsIn (reply n))) ++
        " MicroAlgos moved" := by
  obtain ⟨count, amount⟩ := foldl_add (searches.flatMap fun n => transactionsIn (reply n)) .zero
  have nothing : Total.zero.amount.toNat = 0 := rfl
  have none : Total.zero.count = 0 := rfl
  rw [summary, totalOf, count, amount, nothing, none, Nat.zero_add, Nat.zero_add, Nat.mod_eq_of_lt small]

def healthStop : Stop := ⟨[], Indexer.healthCheck, fun health => ["Indexer health: " ++ health.message], none⟩

private theorem outcome_healthStop (client : Client) (reply : Reply) : healthStop.outcome client reply =
    (Indexer.healthCheck.execute client (some reply)).result.map fun health => ["Indexer health: " ++ health.message] :=
  rfl

theorem plain_health : Indexer.healthCheck.IsPlain := ⟨by decide, nofun, rfl, rfl⟩

/-- The calls of the program, if there are so many searches. -/
def stops (since : Instant) (reply : Nat → Reply) (last : Nat) : List Stop :=
  healthStop :: (List.range' 1 last).map (searchStop since reply)

theorem plain_stops (since : Instant) (reply : Nat → Reply) (last : Nat) :
    ∀ stop ∈ stops since reply last, stop.call.IsPlain := by
  refine List.forall_mem_cons.mpr ⟨plain_health, fun stop present => ?_⟩
  obtain ⟨n, _, rfl⟩ := List.mem_map.mp present
  exact plain_search since _

private theorem asked_stops (client : Client) (since : Instant) (reply : Nat → Reply) (last : Nat) :
    (stops since reply last).map (·.call.asked client) =
      (.get, String.ofList client.base.root ++ "/health") ::
        (List.range' 1 last).map fun n => (searchAt since reply n).asked client := by
  have health : healthStop.call.asked client = (.get, String.ofList client.base.root ++ "/health") := by
    rw [Call.asked, String.ofList_append]
    rfl
  rw [stops, List.map_cons, List.map_map, health]
  rfl

theorem makes_steps {client : Client} {now : Instant} {replies : List Reply} {last : Nat}
    (least : IsLeast {n | 0 < n ∧ IsLast client (now.before 3600) (replyAt replies) n} last) :
    Makes (steps client now) client [summary (totalOf (replyAt replies) (List.range' 1 last) .zero)]
      (stops (now.before 3600) (replyAt replies) last) replies := by
  refine makes_cons healthStop plain_health rfl (Runs.pure ()) ?_
  refine fun health _ => Runs.print_bind ?_
  have searches := makes_pages least summary 3 1 .zero rfl (by decide) least.1.1
  rw [Nat.add_sub_cancel, List.drop_one] at searches
  exact searches

/-- A search before the last one has found a page that names another. -/
theorem page_of_lt {client : Client} {since : Instant} {reply : Nat → Reply} {last n : Nat}
    (least : IsLeast {n | 0 < n ∧ IsLast client since reply n} last) (pos : 0 < n) (before : n < last) :
    ∃ page, outcomeAt client since reply n = .ok page ∧ page.nextToken ≠ "" := by
  have unfinished : ¬IsLast client since reply n := fun final => Nat.not_le_of_gt before (least.2 ⟨pos, final⟩)
  cases result : outcomeAt client since reply n with
  | error error => exact absurd (.inr (.inl ⟨error, result⟩)) unfinished
  | ok page =>
    refine ⟨page, rfl, fun empty => unfinished (.inr (.inr ⟨page, result, ?_⟩))⟩
    exact nextToken_eq_none.mpr empty

private theorem isLeast_two {client : Client} {since : Instant} {reply : Nat → Reply} {page : TransactionsResponse}
    (first : outcomeAt client since reply 1 = .ok page) (filled : page.nextToken ≠ "")
    (second : IsLast client since reply 2) : IsLeast {n | 0 < n ∧ IsLast client since reply n} 2 := by
  refine ⟨⟨by decide, second⟩, fun n ⟨pos, final⟩ => Nat.lt_of_le_of_ne pos ?_⟩
  rintro rfl
  cases final.third first fun empty => filled (nextToken_eq_none.mp empty)

/-- A program that does not hear that the indexer is well makes no search. -/
theorem journey_of_unhealthy {client : Client} {replies : List Reply} {error : ClientError}
    (failed : (Indexer.healthCheck.execute client (some (replyAt replies 0))).result = .error error)
    (closing : List String) (since : Instant) (last : Nat) :
    let left := journey client closing (stops since (replyAt replies) last) replies
    left.sent.length ≤ 1 ∧ left.lines = [] ∧ left.failure = some error := by
  intro left
  have first : upcoming replies = replyAt replies 0 := upcoming_drop replies 0
  have told := outcome_healthStop client (replyAt replies 0)
  rw [failed, ← first] at told
  have same : left = _ := journey_of_error told
  rw [same]
  exact ⟨Exchange.length_passed _ _, rfl, rfl⟩

/-- A program that finds the indexer well makes all its searches. -/
theorem journey_of_healthy {client : Client} {since : Instant} {replies : List Reply} {last : Nat}
    (least : IsLeast {n | 0 < n ∧ IsLast client since (replyAt replies) n} last) {status : HealthCheck}
    (healthy : (Indexer.healthCheck.execute client (some (replyAt replies 0))).result = .ok status)
    (closing : List String) :
    let left := journey client closing (stops since (replyAt replies) last) replies
    last ≤ left.sent.length ∧ (last < left.sent.length ↔ (searchAt since (replyAt replies) last).Goes client) ∧
    (∀ error, outcomeAt client since (replyAt replies) last = .error error →
      left.lines = ["Indexer health: " ++ status.message] ∧ left.failure = some error) ∧
    (∀ page, outcomeAt client since (replyAt replies) last = .ok page →
      left.lines = ("Indexer health: " ++ status.message) :: closing ∧ left.failure = none) := by
  intro left
  have first : upcoming replies = replyAt replies 0 := upcoming_drop replies 0
  have told := outcome_healthStop client (replyAt replies 0)
  rw [healthy, ← first] at told
  obtain ⟨more, rfl⟩ : ∃ more, last = 1 + more := Nat.exists_eq_add_of_le least.1.1
  obtain ⟨request, _, same⟩ := journey_of_plain plain_health told closing
    ((List.range' 1 (1 + more)).map (searchStop since (replyAt replies)))
  have earlier : ∀ i, 1 ≤ i → i < 1 + more → ∃ page, outcomeAt client since (replyAt replies) i = .ok page := by
    intro i pos below
    obtain ⟨page, done, _⟩ := page_of_lt least pos below
    exact ⟨page, done⟩
  have rest := journey_searches client since closing replies more 1 earlier
  rw [Nat.add_comm more 1, List.drop_one] at rest
  obtain ⟨failing, complete, most, goes⟩ := rest
  rw [show left = _ from same, List.length_cons, Nat.add_comm 1 more]
  rw [Nat.add_comm 1 more] at failing complete goes most
  refine ⟨Nat.succ_le_succ most, Nat.succ_lt_succ_iff.trans goes, fun error failed => ?_, fun page done => ?_⟩
  · obtain ⟨silent, failed⟩ := failing error failed
    exact ⟨congrArg _ silent, failed⟩
  · obtain ⟨closed, done⟩ := complete page done
    exact ⟨congrArg _ closed, done⟩

/-- A search that a server reads as these pairs. -/
def Asks (client : Client) (call : Call filters α) (pairs : List (String × String)) : Prop :=
  ∃ query, call.asked client = (.get, String.ofList client.base.root ++ "/v2/transactions?" ++ String.ofList query) ∧
    Form.decode query = pairs

/-- The program asks for the health first. If it hears that the indexer is well it makes its
searches up to the last one, which is the third at the latest and comes sooner if a search
fails or its page names no other. All of them ask for payments since the same instant,
and each but the first carries the token of the page before, whatever characters that holds.
A search whose address is too long is not sent and fails. The payments of all pages are summed
up exactly if no call fails. -/
theorem searches_of_replies {address token : Option String} {client : Client}
    (made : opened .indexer address token = .ok client) (now : Instant) (replies : List Reply) :
    let reply := replyAt replies
    let since := now.before 3600
    let report := run (some replies) (script now address token)
    let length := report.sent.length
    let health := (Indexer.healthCheck.execute client (some (reply 0))).result
    ∃ last, IsLeast {n | 0 < n ∧ IsLast client since reply n} last ∧
      (∀ n page, outcomeAt client since reply n = .ok page ↔
        (searchAt since reply n).Goes client ∧ page? (reply n) = some page) ∧
      report.sent.map (·.2) = (List.range length).map reply ∧
      report.sent.map (·.1.asked) <+: (.get, String.ofList client.base.root ++ "/health") ::
        (List.range' 1 last).map (fun n => (searchAt since reply n).asked client) ∧
      (0 < length ↔ Indexer.healthCheck.Goes client) ∧
      (∀ error, health = .error error → length ≤ 1 ∧ report.output = "" ∧ report.error = some error) ∧
      ∀ status, health = .ok status →
        last ≤ length ∧ (last < length ↔ (searchAt since reply last).Goes client) ∧
        Asks client (searchAt since reply 1)
          [("after-time", since.text 0), ("limit", "50"), ("tx-type", "pay")] ∧
        (∀ n, 0 < n → n < last → ∃ page, outcomeAt client since reply n = .ok page ∧ page.nextToken ≠ "" ∧
          Asks client (searchAt since reply (n + 1))
            [("after-time", since.text 0), ("limit", "50"), ("next", page.nextToken), ("tx-type", "pay")]) ∧
        (∀ error, outcomeAt client since reply last = .error error →
          report.output = "Indexer health: " ++ status.message ++ "\n" ∧ report.error = some error) ∧
        ∀ page, outcomeAt client since reply last = .ok page →
          let transactions := (List.range' 1 last).flatMap fun n => transactionsIn (reply n)
          report.error = none ∧ (moved transactions < 2 ^ 64 →
            report.output = "Indexer health: " ++ status.message ++ "\n" ++
              (toString (transactions.countP (·.paymentTransaction.isSome)) ++ " payments in the last hour, " ++
                toString (moved transactions) ++ " MicroAlgos moved") ++ "\n") := by
  intro reply since report length health
  classical
  have ends : ∃ n, 0 < n ∧ IsLast client since reply n := ⟨3, by decide, .inl rfl⟩
  have least : IsLeast {n | 0 < n ∧ IsLast client since reply n} (Nat.find ends) :=
    ⟨Nat.find_spec ends, fun n found => Nat.find_min' ends found⟩
  generalize Nat.find ends = last at least
  obtain ⟨output, sent, error⟩ := run_of_opened made (fun client => steps client now) (makes_steps least)
  have size : length = _ := congrArg List.length sent
  rw [show report.sent = _ from sent, size, show report.output = _ from output, show report.error = _ from error]
  have plain := plain_stops since reply last
  refine ⟨last, least, fun n page => outcomeAt_eq_ok_iff, replies_of_sent plain replies, ?_,
    sent_pos plain_health _ _ replies, ?_, ?_⟩
  · rw [← asked_stops]
    exact sent_isPrefix plain replies
  · intro error failed
    obtain ⟨few, lines, failure⟩ := journey_of_unhealthy failed _ since last
    rw [lines, failure]
    exact ⟨few, rfl, rfl⟩
  · intro status healthy
    obtain ⟨most, goes, failing, complete⟩ :=
      journey_of_healthy least healthy [summary (totalOf reply (List.range' 1 last) .zero)]
    refine ⟨most, goes, ?_, ?_, ?_, ?_⟩
    · exact asked_search since none client
    · intro n pos before
      obtain ⟨page, done, filled⟩ := page_of_lt least pos before
      refine ⟨page, done, filled, ?_⟩
      have next : tokenFor reply (n + 1) = some page.nextToken :=
        (tokenFor_succ pos (outcomeAt_eq_ok_iff.mp done).2).trans (if_neg filled)
      rw [Asks, searchAt, next]
      exact asked_search since (some page.nextToken) client
    · intro error failed
      obtain ⟨lines, failure⟩ := failing error failed
      rw [lines, failure]
      exact ⟨String.empty_append, rfl⟩
    · intro page done transactions
      obtain ⟨lines, failure⟩ := complete page done
      rw [lines, failure]
      refine ⟨rfl, fun small => ?_⟩
      have blank : textOf [] = "" := rfl
      rw [summary_totalOf small, textOf_cons, textOf_cons, blank, String.append_empty, ← String.append_assoc]

def localIndexer : Client :=
  { base := ⟨"http", .authority ⟨"", none, .name "localhost", some 8980⟩, .segments [""], none, none⟩
    headers := Client.standardHeaders, timeout := .ofSeconds 30 }

private theorem goes_localIndexer : Indexer.healthCheck.Goes localIndexer ∧
    ∀ next ∈ [none, some "+&=%"], (search (Instant.before ⟨0, 0⟩ 3600) next).Goes localIndexer := by
  have web : localIndexer.base.IsWeb := .inl rfl
  have health := Call.goes_iff plain_health web rfl rfl rfl
  have searches := fun next => Call.goes_iff (plain_search (Instant.before ⟨0, 0⟩ 3600) next) web rfl rfl rfl
  simp only [health, searches, line_search]
  decide +kernel

private theorem read_emptyAnswer : (Indexer.healthCheck.value? emptyAnswer).map (·.message) = some "" ∧
    (page? emptyAnswer).map (fun page => (page.nextToken, page.transactions)) = some ("", []) := by
  decide +kernel

def firstPage : Reply :=
  .answer ⟨200⟩ (Utf8.encode ("\x7b\"next-token\":\"+&=%\",\"transactions\":" ++
    "[\x7b\"payment-transaction\":\x7b\"amount\":7\x7d\x7d,\x7b\x7d]\x7d").toList) .whole

def twoPages : List Reply := [emptyAnswer, firstPage, emptyAnswer]

/-- Two pages, of which the first holds a payment and a token that has to be escaped. -/
theorem searches_of_replies_twoPages :
    let report := run (some twoPages) (script ⟨0, 0⟩ none none)
    opened .indexer none none = .ok localIndexer ∧ report.sent.length = 3 ∧ report.error = none ∧
      Asks localIndexer (searchAt (Instant.before ⟨0, 0⟩ 3600) (replyAt twoPages) 2)
        [("after-time", "1969-12-31T23:00:00Z"), ("limit", "50"), ("next", "+&=%"), ("tx-type", "pay")] ∧
      report.output = "Indexer health: \n1 payments in the last hour, 7 MicroAlgos moved\n" := by
  have made : opened .indexer none none = .ok localIndexer := rfl
  obtain ⟨last, least, outcomes, _, asked, _, _, healthy⟩ := searches_of_replies made ⟨0, 0⟩ twoPages
  dsimp only
  generalize run (some twoPages) (script ⟨0, 0⟩ none none) = report at asked healthy ⊢
  obtain ⟨well, goes⟩ := goes_localIndexer
  obtain ⟨status, told, silent⟩ := Option.map_eq_some_iff.mp read_emptyAnswer.1
  obtain ⟨second, two, nothing⟩ := Option.map_eq_some_iff.mp read_emptyAnswer.2
  have two : page? (replyAt twoPages 2) = some second := two
  have held : (page? (replyAt twoPages 1)).map (fun page => (page.nextToken, moved page.transactions,
      page.transactions.countP (·.paymentTransaction.isSome))) = some ("+&=%", 7, 1) := by
    decide +kernel
  obtain ⟨first, one, payment⟩ := Option.map_eq_some_iff.mp held
  obtain ⟨token, amount, count⟩ : first.nextToken = "+&=%" ∧ moved first.transactions = 7 ∧
      first.transactions.countP (·.paymentTransaction.isSome) = 1 := by
    simpa using payment
  obtain ⟨final, empty⟩ : second.nextToken = "" ∧ second.transactions = [] := by
    simpa using nothing
  have filled : first.nextToken ≠ "" := by
    rw [token]
    decide
  have next : tokenFor (replyAt twoPages) 2 = some "+&=%" :=
    ((tokenFor_succ (by decide) one).trans (if_neg filled)).trans (congrArg some token)
  have goesOn : (searchAt (Instant.before ⟨0, 0⟩ 3600) (replyAt twoPages) 2).Goes localIndexer := by
    rw [searchAt, next]
    exact goes _ (by simp)
  have found := (outcomes 1 first).mpr ⟨goes none (by simp), one⟩
  have found' := (outcomes 2 second).mpr ⟨goesOn, two⟩
  obtain rfl : last = 2 :=
    least.unique (isLeast_two found filled (.inr (.inr ⟨second, found', nextToken_eq_none.mpr final⟩)))
  obtain ⟨_, more, _, later, _, complete⟩ :=
    healthy status ((Call.execute_eq_ok_iff plain_health).mpr ⟨well, told⟩)
  obtain ⟨page, done, _, asks⟩ := later 1 (by decide) (by decide)
  cases found.symm.trans done
  obtain ⟨ended, output⟩ := complete second found'
  have most : report.sent.length ≤ 3 := by
    have size := asked.length_le
    rwa [List.length_map, List.length_cons, List.length_map, List.length_range'] at size
  refine ⟨made, Nat.le_antisymm most (more.mpr goesOn), ended, ?_, ?_⟩
  · have since : (Instant.before ⟨0, 0⟩ 3600).text 0 = "1969-12-31T23:00:00Z" := by decide +kernel
    rwa [token, since] at asks
  · have listed : (List.range' 1 2).flatMap (fun n => transactionsIn (replyAt twoPages n)) = first.transactions := by
      have here : transactionsIn (replyAt twoPages 1) = first.transactions := by rw [transactionsIn, one]; rfl
      have behind : transactionsIn (replyAt twoPages 2) = [] := by rw [transactionsIn, two, ← empty]; rfl
      simp [List.range'_succ, here, behind]
    rw [listed, amount, count] at output
    rw [output (by decide), silent]
    decide +kernel

private theorem length_le_encodeText (text : String) : text.toList.length ≤ (Form.encodeText text).length := by
  have written : ∀ octet, 1 ≤ (Form.encodeOctet octet).length := by
    intro octet
    rw [Form.encodeOctet]
    split
    · exact Nat.le_refl 1
    split
    · exact Nat.le_refl 1
    · exact Nat.le_add_left 1 2
  have each := List.length_le_sum_of_one_le
    ((Utf8.encode text.toList).map fun octet => (Form.encodeOctet octet).length)
    (List.forall_mem_map.mpr fun octet _ => written octet)
  rw [List.length_map] at each
  rw [Form.encodeText, List.length_flatMap]
  exact (Utf8.length_le_encode _).trans each

private theorem not_goes_of_long {token : String} (long : Client.addressLimit < token.toList.length) (since : Instant)
    (client : Client) : ¬(search since (some token)).Goes client := by
  rintro ⟨url, built, web, short⟩
  have base : client.base.IsWeb := by
    obtain ⟨_, _, _, _, _, rfl⟩ := Client.url_eq_ok_iff.mp built
    exact web
  have target := Call.target_of_plain (plain_search since _) base built
  have carried := length_le_encodeText token
  rw [Client.isTooLong_of_target] at short
  · cases short
  · rw [target, line_search]
    simp only [pairsOf, Option.toList_some, List.map_singleton, List.cons_append, List.nil_append, Form.encode,
      Form.encodePair, List.length_append, List.length_cons]
    omega

private theorem page?_answer {octets : List UInt8} {page : TransactionsResponse}
    (read : decode TransactionsResponse octets = .ok page) : page? (.answer ⟨200⟩ octets .whole) = some page := by
  change (decode TransactionsResponse octets).toOption = _
  rw [read]
  rfl

/-- An answer with a page that lists nothing and names another. -/
def pageWith (token : String) : Reply :=
  .answer ⟨200⟩ ((Catalogue.Entry.of TransactionsResponse).encode (⟨0, token, []⟩ : TransactionsResponse)) .whole

private theorem page?_pageWith (token : String) : page? (pageWith token) = some ⟨0, token, []⟩ := by
  have listed : Catalogue.Entry.of TransactionsResponse ∈ Catalogue.entries := List.mem_of_getElem? (i := 57) rfl
  have plain : (Catalogue.Entry.of TransactionsResponse).Plain (⟨0, token, []⟩ : TransactionsResponse) :=
    ⟨rfl, ⟨nofun, nofun, nofun, trivial⟩, Nat.le_of_ble_eq_true rfl⟩
  exact page?_answer (Catalogue.decode_of_plain listed plain)

/-- If the second search does not go the run ends there, although the first page names another. -/
theorem run_of_refused {address token : Option String} {client : Client}
    (made : opened .indexer address token = .ok client) (now : Instant) {replies : List Reply} {status : HealthCheck}
    (healthy : (Indexer.healthCheck.execute client (some (replyAt replies 0))).result = .ok status)
    {page : TransactionsResponse} (first : outcomeAt client (now.before 3600) (replyAt replies) 1 = .ok page)
    (filled : page.nextToken ≠ "") (stays : ¬(searchAt (now.before 3600) (replyAt replies) 2).Goes client) :
    let report := run (some replies) (script now address token)
    report.sent.length = 2 ∧ report.output = "Indexer health: " ++ status.message ++ "\n" ∧ report.error.isSome := by
  intro report
  obtain ⟨_, error, failed, _⟩ := Call.execute_of_stays (plain_search _ _) stays (some (replyAt replies 2))
  have least := isLeast_two first filled (.inr (.inl ⟨error, failed⟩))
  obtain ⟨most, more, failing, _⟩ :=
    journey_of_healthy least healthy [summary (totalOf (replyAt replies) (List.range' 1 2) .zero)]
  obtain ⟨output, sent, ended⟩ := run_of_opened made (fun client => steps client now) (makes_steps least)
  obtain ⟨lines, failure⟩ := failing error failed
  refine ⟨?_, ?_, ?_⟩
  · rw [show report.sent = _ from sent]
    exact Nat.le_antisymm (Nat.le_of_not_lt fun beyond => stays (more.mp beyond)) most
  · rw [show report.output = _ from output, lines]
    exact String.empty_append
  · rw [show report.error = _ from ended, failure]
    rfl

/-- A token that no address has room for ends the run, although all the replies are in order. -/
theorem run_of_long_token {token : String} (long : Client.addressLimit < token.toList.length) :
    let replies := [emptyAnswer, pageWith token, emptyAnswer]
    let report := run (some replies) (script ⟨0, 0⟩ none none)
    page? (replyAt replies 1) = some ⟨0, token, []⟩ ∧ (page? (replyAt replies 2)).isSome ∧
      report.sent.length = 2 ∧ report.output = "Indexer health: \n" ∧ report.error.isSome := by
  intro replies
  have page : page? (replyAt replies 1) = some ⟨0, token, []⟩ := page?_pageWith token
  have filled : token ≠ "" := by
    rintro rfl
    cases long
  obtain ⟨well, goes⟩ := goes_localIndexer
  obtain ⟨status, told, silent⟩ := Option.map_eq_some_iff.mp read_emptyAnswer.1
  obtain ⟨second, two, _⟩ := Option.map_eq_some_iff.mp read_emptyAnswer.2
  have next : tokenFor (replyAt replies) 2 = some token := (tokenFor_succ (by decide) page).trans (if_neg filled)
  have stays : ¬(searchAt (Instant.before ⟨0, 0⟩ 3600) (replyAt replies) 2).Goes localIndexer := by
    rw [searchAt, next]
    exact not_goes_of_long long _ _
  have made : opened .indexer none none = .ok localIndexer := rfl
  have healthy : (Indexer.healthCheck.execute localIndexer (some (replyAt replies 0))).result = .ok status :=
    (Call.execute_eq_ok_iff plain_health).mpr ⟨well, told⟩
  have first : outcomeAt localIndexer (Instant.before ⟨0, 0⟩ 3600) (replyAt replies) 1 = .ok ⟨0, token, []⟩ :=
    outcomeAt_eq_ok_iff.mpr ⟨goes none List.mem_cons_self, page⟩
  obtain ⟨sent, output, ended⟩ := run_of_refused made ⟨0, 0⟩ healthy first filled stays
  dsimp only
  generalize run (some replies) (script ⟨0, 0⟩ none none) = report at sent output ended ⊢
  refine ⟨page, Option.isSome_of_eq_some two, sent, output.trans ?_, ended⟩
  rw [silent]
  rfl

/-- The search for the second page is not made: its address has too many characters. -/
theorem long_token_ends_run :
    let token := String.ofList (List.replicate 65535 'A')
    let replies := [emptyAnswer, pageWith token, emptyAnswer]
    let report := run (some replies) (script ⟨0, 0⟩ none none)
    page? (replyAt replies 1) = some ⟨0, token, []⟩ ∧ (page? (replyAt replies 2)).isSome ∧
      report.sent.length = 2 ∧ report.output = "Indexer health: \n" ∧ report.error.isSome := by
  have size : ∀ n, (String.ofList (List.replicate n 'A')).toList.length = n := by
    intro n
    rw [String.toList_ofList, List.length_replicate]
  have long : Client.addressLimit < 65535 := by decide
  exact run_of_long_token ((size 65535).symm ▸ long)

end LedgerClient.Demo.RecentPayments
