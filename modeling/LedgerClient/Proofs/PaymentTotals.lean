import LedgerClient.Proofs.PaymentPages
import LedgerClient.Proofs.RouteSeparation

/-! What the payments program prints of amounts. The amounts of all pages are added up in one
word of 64 bits, and no page is refused because its payments are too large for that. So the
sum is printed up to multiples of the size of a word. -/

namespace LedgerClient.Demo.RecentPayments
open Script

/-- The amounts of the transactions can be added one by one, and no sum on the way leaves the
range of a word. -/
def Total.HasRoom (total : Total) : List Transaction → Prop
  | [] => True
  | transaction :: transactions =>
    (∀ payment, transaction.paymentTransaction = some payment →
      total.amount.toNat + payment.amount.toNat < 2 ^ 64) ∧
      (total.add transaction).HasRoom transactions

private theorem moved_cons (transaction : Transaction) (transactions : List Transaction) :
    moved (transaction :: transactions) = moved [transaction] + moved transactions := by
  simp only [moved, paymentsIn, List.filterMap_cons]
  cases transaction.paymentTransaction <;> simp

private theorem moved_singleton {transaction : Transaction} {payment : TransactionPayment}
    (paid : transaction.paymentTransaction = some payment) : moved [transaction] = payment.amount.toNat := by
  simp [moved, paymentsIn, paid]

/-- Amounts are never negative, so the last sum is the one that decides. -/
theorem Total.hasRoom_iff (transactions : List Transaction) : ∀ total : Total,
    total.HasRoom transactions ↔ total.amount.toNat + moved transactions < 2 ^ 64 := by
  induction transactions with
  | nil => exact fun total => iff_of_true trivial total.amount.toNat_lt
  | cons transaction transactions ih =>
    intro total
    rw [HasRoom, ih, moved_cons]
    cases paid : transaction.paymentTransaction with
    | none =>
      have nothing : moved [transaction] = 0 := by simp [moved, paymentsIn, paid]
      rw [Total.add, paid, nothing, Nat.zero_add]
      exact and_iff_right fun payment same => by cases same
    | some payment =>
      have added := UInt64.toNat_add total.amount payment.amount
      rw [Total.add, paid, moved_singleton paid]
      dsimp only
      constructor
      · rintro ⟨room, rest⟩
        rw [added, Nat.mod_eq_of_lt (room payment rfl)] at rest
        omega
      · intro small
        have room : total.amount.toNat + payment.amount.toNat < 2 ^ 64 := by omega
        rw [added, Nat.mod_eq_of_lt room]
        exact ⟨fun _ same => Option.some.inj same ▸ room, by omega⟩

private theorem exists_last (client : Client) (since : Instant) (reply : Nat → Reply) :
    ∃ last, IsLeast {n | 0 < n ∧ IsLast client since reply n} last := by
  classical
  have ends : ∃ n, 0 < n ∧ IsLast client since reply n := ⟨3, by decide, .inl rfl⟩
  exact ⟨Nat.find ends, Nat.find_spec ends, fun n found => Nat.find_min' ends found⟩

private theorem opened_of_accepted {now : Instant} {address token : Option String} {replies : List Reply}
    (accepted : (run (some replies) (script now address token)).error = none) :
    ∃ client, opened .indexer address token = .ok client := by
  cases made : opened .indexer address token with
  | ok client => exact ⟨client, rfl⟩
  | error error =>
    have stopped := (runs_client_of_error made replies).bind_error fun client => steps client now
    have failed : (run (some replies) (script now address token)).error = some error := (run_of_runs stopped).2.2
    cases accepted.symm.trans failed

/-- The transactions of the pages that the program got. The first reply is about the health. -/
def fetched (sent : List (Request × Reply)) : List Transaction :=
  (sent.drop 1).flatMap fun exchange => transactionsIn exchange.2

/-- The output of a run in which no call fails. -/
def account (status : HealthCheck) (count amount : Nat) : String :=
  "Indexer health: " ++ status.message ++ "\n" ++
    (toString count ++ " payments in the last hour, " ++ toString amount ++ " MicroAlgos moved") ++ "\n"

private theorem textOf_account (status : HealthCheck) (total : Total) :
    textOf ["Indexer health: " ++ status.message, summary total] = account status total.count total.amount.toNat := by
  have blank : textOf [] = "" := rfl
  unfold summary account
  simp only [textOf_cons, blank, String.append_empty, String.append_assoc]

private theorem account_injective {status : HealthCheck} {count amount amount' : Nat}
    (same : account status count amount = account status count amount') : amount = amount' := by
  unfold account at same
  simp only [String.append_left_inj, String.append_right_inj] at same
  exact toString_injective same

/-- If the last search has found a page, so has each one before it. -/
theorem page_of_le {client : Client} {since : Instant} {reply : Nat → Reply} {last n : Nat}
    (least : IsLeast {n | 0 < n ∧ IsLast client since reply n} last) {page : TransactionsResponse}
    (final : outcomeAt client since reply last = .ok page) (pos : 0 < n) (within : n ≤ last) :
    ∃ page, page? (reply n) = some page := by
  obtain before | rfl := Nat.lt_or_eq_of_le within
  · obtain ⟨other, done, _⟩ := page_of_lt least pos before
    exact ⟨other, (outcomeAt_eq_ok_iff.mp done).2⟩
  · exact ⟨page, (outcomeAt_eq_ok_iff.mp final).2⟩

private theorem length_sent_le (client : Client) (closing : List String) (since : Instant) (replies : List Reply)
    (last : Nat) :
    (journey client closing (stops since (replyAt replies) last) replies).sent.length ≤ last + 1 := by
  have asked : (journey client closing _ replies).sent.map (·.1.asked) <+: _ :=
    sent_isPrefix (plain_stops since (replyAt replies) last) replies
  have few := asked.length_le
  rwa [List.length_map, List.length_map, stops, List.length_cons, List.length_map, List.length_range'] at few

/-- The first of the replies is about the health, and the others answer the searches. -/
theorem replies_behind {sent : List (Request × Reply)} {reply : Nat → Reply} {last : Nat}
    (passed : sent.map (·.2) = (List.range (last + 1)).map reply) :
    (sent.drop 1).map (·.2) = (List.range' 1 last).map reply := by
  rw [List.map_drop, passed, ← List.map_drop, List.drop_one, List.tail_range, Nat.add_sub_cancel]

private theorem fetched_of_replies {sent : List (Request × Reply)} {reply : Nat → Reply} {last : Nat}
    (pages : (sent.drop 1).map (·.2) = (List.range' 1 last).map reply) :
    fetched sent = (List.range' 1 last).flatMap fun n => transactionsIn (reply n) := by
  have same := congrArg (List.flatMap transactionsIn) pages
  rwa [List.flatMap_map, List.flatMap_map] at same

/-- What is left of a run in which no call fails. -/
theorem report_of_accepted {now : Instant} {address token : Option String} {replies : List Reply}
    (accepted : (run (some replies) (script now address token)).error = none) :
    let report := run (some replies) (script now address token)
    ∃ status, Indexer.healthCheck.value? (replyAt replies 0) = some status ∧
      report.sent.map (·.2) = (List.range report.sent.length).map (replyAt replies) ∧
      (∀ exchange ∈ report.sent.drop 1, (page? exchange.2).isSome) ∧
      report.output = textOf ["Indexer health: " ++ status.message,
        summary ((fetched report.sent).foldl Total.add .zero)] := by
  intro report
  obtain ⟨client, made⟩ := opened_of_accepted accepted
  obtain ⟨last, least⟩ := exists_last client (now.before 3600) (replyAt replies)
  let closing := [summary (totalOf (replyAt replies) (List.range' 1 last) .zero)]
  obtain ⟨output, sent, ended⟩ := run_of_opened made (fun client => steps client now) (makes_steps least)
  have failure := (show report.error = _ from ended).symm.trans accepted
  have sent : report.sent = _ := sent
  have passed : report.sent.map (·.2) = (List.range report.sent.length).map (replyAt replies) :=
    sent ▸ replies_of_sent (plain_stops (now.before 3600) (replyAt replies) last) replies
  cases healthy : (Indexer.healthCheck.execute client (some (replyAt replies 0))).result with
  | error error =>
    obtain ⟨_, _, failed⟩ := journey_of_unhealthy healthy closing (now.before 3600) last
    cases failed.symm.trans failure
  | ok status =>
    obtain ⟨_, goes, failing, complete⟩ := journey_of_healthy least healthy closing
    cases final : outcomeAt client (now.before 3600) (replyAt replies) last with
    | error error => cases (failing error final).2.symm.trans failure
    | ok page =>
      have count : report.sent.length = last + 1 := sent ▸ Nat.le_antisymm
        (length_sent_le client closing _ replies last) (goes.mpr (outcomeAt_eq_ok_iff.mp final).1)
      have pages := replies_behind (count ▸ passed)
      refine ⟨status, ((Call.execute_eq_ok_iff plain_health).mp healthy).2, passed, fun exchange inside => ?_, ?_⟩
      · have known : exchange.2 ∈ (List.range' 1 last).map (replyAt replies) := pages ▸ List.mem_map_of_mem inside
        obtain ⟨n, within, same⟩ := List.mem_map.mp known
        obtain ⟨pos, bound⟩ := List.mem_range'_1.mp within
        obtain ⟨found, held⟩ := page_of_le least final pos (by omega)
        exact Option.isSome_of_eq_some (same ▸ held)
      · rw [fetched_of_replies pages, show report.output = _ from output, (complete page final).1]
        rfl

/-- The printed sum is right if it is a word, and then so is each sum on the way to it. Else a
multiple of the size of a word is missing, and some addition has left the range. -/
theorem total_of_accepted {now : Instant} {address token : Option String} {replies : List Reply}
    (accepted : (run (some replies) (script now address token)).error = none) :
    let report := run (some replies) (script now address token)
    let transactions := fetched report.sent
    let count := transactions.countP (·.paymentTransaction.isSome)
    report.sent.map (·.2) = (List.range report.sent.length).map (replyAt replies) ∧
    (∀ exchange ∈ report.sent.drop 1, (page? exchange.2).isSome) ∧
    ∃ status, Indexer.healthCheck.value? (replyAt replies 0) = some status ∧
      report.output = account status count (moved transactions % 2 ^ 64) ∧
      (report.output = account status count (moved transactions) ↔ moved transactions < 2 ^ 64) ∧
      (Total.zero.HasRoom transactions ↔ moved transactions < 2 ^ 64) := by
  intro report transactions count
  obtain ⟨status, healthy, passed, pages, output⟩ := report_of_accepted accepted
  have added := foldl_add transactions .zero
  rw [show Total.zero.amount.toNat = 0 from rfl, show Total.zero.count = 0 from rfl, Nat.zero_add, Nat.zero_add]
    at added
  have printed : report.output = account status count (moved transactions % 2 ^ 64) := by
    rw [output, textOf_account, added.1, added.2]
  refine ⟨passed, pages, status, healthy, printed, ?_, ?_⟩
  · rw [printed]
    constructor
    · intro same
      rw [← account_injective same]
      exact Nat.mod_lt _ (Nat.two_pow_pos 64)
    · intro small
      rw [Nat.mod_eq_of_lt small]
  · rw [Total.hasRoom_iff, show Total.zero.amount.toNat = 0 from rfl, Nat.zero_add]

/-- Two pages are accepted, and their one payment is the sum. -/
theorem total_of_accepted_twoPages :
    let report := run (some twoPages) (script ⟨0, 0⟩ none none)
    report.error = none ∧ moved (fetched report.sent) = 7 ∧ Total.zero.HasRoom (fetched report.sent) ∧
      ∃ status, report.output = account status 1 7 := by
  have ran : (run (some twoPages) (script ⟨0, 0⟩ none none)).error.isNone = true ∧
      moved (fetched (run (some twoPages) (script ⟨0, 0⟩ none none)).sent) = 7 ∧
      (fetched (run (some twoPages) (script ⟨0, 0⟩ none none)).sent).countP (·.paymentTransaction.isSome) = 1 := by
    decide +kernel
  have known := @total_of_accepted ⟨0, 0⟩ none none twoPages
  dsimp only at known ⊢
  generalize run (some twoPages) (script ⟨0, 0⟩ none none) = report at ran known ⊢
  obtain ⟨accepted, sum, count⟩ := ran
  have accepted := Option.isNone_iff_eq_none.mp accepted
  obtain ⟨_, _, status, _, _, right, room⟩ := known accepted
  rw [sum] at right room
  rw [count] at right
  have small : 7 < 2 ^ 64 := by decide
  exact ⟨accepted, sum, room.mpr small, status, right.mpr small⟩

/-- A page with a payment of the greatest amount and one of a single unit. -/
def largePage : Reply :=
  .answer ⟨200⟩ (Utf8.encode ("\x7b\"transactions\":[" ++
    "\x7b\"payment-transaction\":\x7b\"amount\":18446744073709551615\x7d\x7d," ++
    "\x7b\"payment-transaction\":\x7b\"amount\":1\x7d\x7d]\x7d").toList) .whole

/-- Two payments of together one more than the greatest word are accepted, and nothing is
printed of what they moved. -/
theorem sum_beyond_word_is_lost :
    let report := run (some [emptyAnswer, largePage]) (script ⟨0, 0⟩ none none)
    report.error = none ∧ moved (fetched report.sent) = 2 ^ 64 ∧ ¬Total.zero.HasRoom (fetched report.sent) ∧
      report.output = "Indexer health: \n2 payments in the last hour, 0 MicroAlgos moved\n" := by
  intro report
  have ran : report.error.isNone = true ∧ moved (fetched report.sent) = 2 ^ 64 ∧
      report.output = "Indexer health: \n2 payments in the last hour, 0 MicroAlgos moved\n" := by
    decide +kernel
  obtain ⟨accepted, sum, output⟩ := ran
  refine ⟨Option.isNone_iff_eq_none.mp accepted, sum, ?_, output⟩
  rw [Total.hasRoom_iff, sum]
  exact Nat.not_lt.mpr (Nat.le_add_left _ _)

end LedgerClient.Demo.RecentPayments
