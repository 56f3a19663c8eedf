import LedgerClient.Client.Exchange

/-! All that goes over the wire for a call. A server may send a client on to another place,
and the HTTP library goes there by itself. Which request it makes for the next place is
its own affair; how often it does so is limited. -/

namespace LedgerClient

/-- What an HTTP library makes of a place it is sent on to: it hands the answer over as it
is, gives up, or goes on with another request. -/
inductive Onward
  | stays
  | fails
  | goes (url : Url) (request : Request)

/-- How an HTTP library finds its way from a request, with the address that it went to, the
status of the answer, and the place that this names. -/
abbrev Redirection := Url → Request → Status → String → Onward

/-- How many times a client can be sent on. -/
def Redirection.limit : Nat := 10

/-- Sends a request, and those that follow from it as long as the server sends the client
on. The server is told by what it does with each request in turn, `none` where there is
nobody to be reached. What is handed over in the end is one reply. -/
def Redirection.dispatch (follow : Redirection) (hops : Nat) (server : Nat → Option Response) (url : Url)
    (request : Request) : List Request × Option Reply :=
  match server 0 with
  | none => ([], none)
  | some response =>
    match response.onward? with
    | none => ([request], some response.reply)
    | some (status, place) =>
      match follow url request status place, hops with
      | .stays, _ => ([request], some response.reply)
      | .fails, _ | .goes _ _, 0 => ([request], some .astray)
      | .goes url' request', hops + 1 =>
        let (requests, reply) := follow.dispatch hops (fun n => server (n + 1)) url' request'
        (request :: requests, some (reply.getD .astray))

namespace Client

/-- The requests that go out for a call, and what is handed over in the end. -/
def wire (client : Client) (endpoint : Endpoint α) (options : Options) (follow : Redirection)
    (server : Nat → Option Response) : List Request × Option Reply :=
  match client.url endpoint with
  | .error _ => ([], none)
  | .ok url =>
    match client.prepare endpoint options url with
    | .error _ => ([], none)
    | .ok request => follow.dispatch Redirection.limit server url request

end Client
end LedgerClient
