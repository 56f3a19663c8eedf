import LedgerClient.Proofs.CallAddress
import LedgerClient.Proofs.Catalogue
import LedgerClient.Proofs.FormReading
import LedgerClient.Proofs.Tables

/-! The query of a call is what its filters were set to last. It is written twice, as a
form and as a part of a URL, but the second writing finds nothing to escape. -/

namespace LedgerClient

namespace Url

/-- The pairs in the query, as a server reads them. -/
def pairs (url : Url) : List (String × String) :=
  match url.query with
  | some query => Form.decode query.toList
  | none => []

private theorem isWritten_kept (special : Bool) {c : Char} (written : Form.isWritten c = true ∨ c = '=' ∨ c = '&') :
    c.toNat < 0x80 ∧ keptInQuery special (UInt8.ofNat c.toNat) = true ∧ isDropped c = false := by
  have checked : ∀ c : Char, c.toNat < 0x80 → Form.isWritten c = true →
      keptInQuery special (UInt8.ofNat c.toNat) = true ∧ isDropped c = false :=
    Percent.forall_ascii (by cases special <;> decide +kernel)
  rcases written with written | rfl | rfl
  · have small : c.toNat < 0x80 := by
      simp only [Form.isWritten, Bool.and_eq_true, decide_eq_true_eq] at written
      exact written.1
    exact ⟨small, checked c small written⟩
  · cases special <;> decide
  · cases special <;> decide

theorem encode_form (special : Bool) (pairs : List (String × String)) :
    Percent.encode (keptInQuery special) (dropBreaks (Form.encode pairs)) = Form.encode pairs := by
  have kept : ∀ c ∈ Form.encode pairs, c.toNat < 0x80 ∧ keptInQuery special (UInt8.ofNat c.toNat) = true ∧
      isDropped c = false := fun c inside => isWritten_kept special (Form.written_encode c inside)
  rw [dropBreaks_of_unbroken fun c inside => (kept c inside).2.2,
    Percent.encode_of_kept (fun c inside => (kept c inside).1) fun c inside => (kept c inside).2.1]

theorem pairs_withQuery (url : Url) (pairs : List (String × String)) :
    (url.withQuery (Query.ofPairs pairs)).pairs = pairs ∧
      ((url.withQuery (Query.ofPairs pairs)).query = none ↔ pairs = []) := by
  cases pairs with
  | nil => exact ⟨rfl, iff_of_true rfl rfl⟩
  | cons pair rest =>
    have written : (url.withQuery (Query.ofPairs (pair :: rest))).query =
        some (String.ofList (Form.encode (pair :: rest))) := by
      simp only [Query.ofPairs, withQuery, Option.map_some, String.toList_ofList, encode_form]
    constructor
    · rw [Url.pairs, written]
      simp only [String.toList_ofList, Form.decode_encode]
    · rw [written]
      exact iff_of_false (Option.some_ne_none _) (List.cons_ne_nil _ _)

end Url

private theorem Filter.key_injective {filter other : Filter} (same : filter.key = other.key) : filter = other := by
  cases filter <;> cases other <;> first | rfl | exact absurd same (by decide)

namespace Call

def Step.text? (step : Step filters) (filter : Filter) : Option String :=
  match step with
  | .set other value _ => if other = filter then some (other.print value) else none
  | .header _ _ | .timeout _ => none

/-- The texts of all values given to a filter, one after the other. -/
def given (steps : List (Step filters)) (filter : Filter) : List String := steps.filterMap (·.text? filter)

private theorem find?_apply (call : Call filters α) (step : Step filters) (filter : Filter) :
    (call.apply step).settings.find? filter.key =
      (step.text? filter).or (call.settings.find? filter.key) := by
  cases step with
  | set other value taken =>
    rw [apply, Call.set, Dictionary.find?_insert, Step.text?]
    by_cases same : other = filter
    · rw [if_pos same, if_pos (congrArg Filter.key same), Option.some_or]
    · rw [if_neg same, if_neg fun key => same (Filter.key_injective key), Option.none_or]
  | header name value => rfl
  | timeout timeout => rfl

/-- After any changes a filter stands at the value it was given last. -/
theorem find?_run (call : Call filters α) (steps : List (Step filters)) (filter : Filter) :
    (call.run steps).settings.find? filter.key =
      (given steps filter).getLast?.or (call.settings.find? filter.key) := by
  have replaces : ∀ (call : Call filters α) (step : Step filters), (call.apply step).settings.find? filter.key =
      (step.text? filter).or (call.settings.find? filter.key) := fun call step => find?_apply call step filter
  exact @foldl_last? _ _ _ apply _ (fun call => call.settings.find? filter.key) replaces steps call

end Call
end LedgerClient
