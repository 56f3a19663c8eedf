import LedgerClient.Url.Host

/-! URLs in the form in which they are written, with their parts told apart. -/

namespace LedgerClient

/-- The text in front of a host names a user and perhaps a password; both are
kept as they are written. An empty password is none. -/
structure Authority where
  user : String
  password : Option String
  host : Host
  portNumber : Option Nat
deriving DecidableEq, Repr

/-- What stands between scheme and path. A path without an authority that starts
with two slashes is set off by a dot. -/
inductive UrlFront
  | bare
  | dotted
  | authority (authority : Authority)
deriving DecidableEq, Repr

/-- A path is a list of segments, each with a slash in front; or, in a URL that
others cannot be made from, a text of its own. -/
inductive UrlPath
  | segments (segments : List String)
  | rootless (text : String)
deriving DecidableEq, Repr

structure Url where
  scheme : String
  front : UrlFront
  path : UrlPath
  query : Option String
  fragment : Option String
deriving DecidableEq, Repr

namespace Authority

def userInfo (authority : Authority) : List Char :=
  let password := match authority.password with
    | some password => ':' :: password.toList
    | none => []
  match authority.user.toList ++ password with
  | [] => []
  | text => text ++ ['@']

def text (authority : Authority) : List Char :=
  let ending := match authority.portNumber with
    | some n => ':' :: Nat.toDigits 10 n
    | none => []
  authority.userInfo ++ (authority.host.text ++ ending)

end Authority

namespace UrlPath

def text : UrlPath → List Char
  | .segments path => path.flatMap fun segment => '/' :: segment.toList
  | .rootless text => text.toList

end UrlPath

namespace Url

def frontText (url : Url) : List Char :=
  match url.front with
  | .bare => []
  | .dotted => ['/', '.']
  | .authority authority => '/' :: '/' :: authority.text

def queryText (url : Url) : List Char :=
  match url.query with
  | some query => '?' :: query.toList
  | none => []

def fragmentText (url : Url) : List Char :=
  match url.fragment with
  | some fragment => '#' :: fragment.toList
  | none => []

/-- Path and query, as they stand on a request line. -/
def target (url : Url) : List Char := url.path.text ++ url.queryText

def text (url : Url) : String :=
  String.ofList (url.scheme.toList ++ ':' :: (url.frontText ++ (url.target ++ url.fragmentText)))

def authority? (url : Url) : Option Authority :=
  match url.front with
  | .authority authority => some authority
  | _ => none

/-- The URL without what stands in front of its host. -/
def withoutUser (url : Url) : Url :=
  match url.front with
  | .authority authority => { url with front := .authority { authority with user := "", password := none } }
  | _ => url

/-- The schemes that have a host and a path, with the number that is left out behind it. -/
def standardPort? (scheme : String) : Option Nat :=
  match scheme with
  | "http" | "ws" => some 80
  | "https" | "wss" => some 443
  | "ftp" => some 21
  | _ => none

def isSpecial (scheme : String) : Bool := scheme = "file" || (standardPort? scheme).isSome

end Url
end LedgerClient
