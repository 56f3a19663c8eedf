import LedgerClient.Client.Redirects
import LedgerClient.Proofs.Sending

/-! What goes over the wire when a server may send a client on. The request of the call is
the first, those that follow are limited in number, and what is handed over is the reply
to the last one. -/

namespace LedgerClient

namespace Redirection

/-- What is handed over is the reply to the last request, unless the redirects led astray. -/
theorem dispatch_handed {follow : Redirection} {hops : Nat} {server : Nat → Option Response} {url : Url}
    {request : Request} {requests : List Request} {reply : Reply}
    (sent : follow.dispatch hops server url request = (requests, some reply)) (found : reply ≠ .astray) :
    ∃ n response, requests.length = n + 1 ∧ server n = some response ∧ response.reply = reply := by
  fun_induction dispatch follow hops server url request generalizing requests reply with
  | case1 => cases sent
  | case2 _ server url request response answer | case3 _ server url request response answer =>
    cases sent
    exact ⟨0, response, rfl, answer, rfl⟩
  | case4 | case5 =>
    cases sent
    exact absurd rfl found
  | case6 server url request response answer status place onward url' request' hops goes rest handed further ih =>
    cases sent
    cases handed with
    | none => exact absurd rfl found
    | some reply =>
      obtain ⟨n, last, count, answer', same⟩ := ih further found
      exact ⟨n + 1, last, congrArg (· + 1) count, answer', same⟩

/-- Sends a request on to the place that is named, with a field for where it comes from. -/
def resend : Redirection := fun url request _ place =>
  match Url.parse place, HeaderValue.parse? url.text with
  | .ok next, some origin =>
    .goes next { request with
      target := String.ofList next.target, headers := request.headers.insert ⟨"referer", by decide⟩ origin }
  | _, _ => .fails

/-- A server that sends its client on to another place, and has a reply for it there. -/
def sendingOn (place : String) (reply : Reply) (n : Nat) : Option Response :=
  some (if n = 0 then ⟨.answer ⟨307⟩ [] .whole, some place⟩ else ⟨reply, none⟩)

end Redirection

namespace Client

variable {client : Client} {endpoint : Endpoint α} {options : Options}

/-- A reply that a call gets is the reply to the last request that went out for it. -/
theorem wire_handed {follow : Redirection} {server : Nat → Option Response} {reply : Reply}
    (handed : (client.wire endpoint options follow server).2 = some reply) (found : reply ≠ .astray) :
    ∃ n response, (client.wire endpoint options follow server).1.length = n + 1 ∧ server n = some response ∧
      response.reply = reply := by
  revert handed
  rw [wire]
  cases client.url endpoint with
  | error error => intro handed; cases handed
  | ok url =>
    dsimp only
    cases client.prepare endpoint options url with
    | error error => intro handed; cases handed
    | ok request => exact fun handed => Redirection.dispatch_handed (Prod.ext rfl handed) found

end Client
end LedgerClient
