import LedgerClient.Text.Split
import LedgerClient.Url.Path

/-! Reading URLs as the URL standard has it, without a base to complete them. -/

namespace LedgerClient.Url

/-- A scheme starts with a letter and ends before a colon. -/
def scheme? (text : List Char) : Option (String × List Char) :=
  let body := text.takeWhile (· ≠ ':')
  let fits := fun c : Char => c.isAlphanum || c = '+' || c = '-' || c = '.'
  match body, text.drop body.length with
  | c :: _, ':' :: rest =>
    if c.isAlpha && body.all fits then some (String.ofList (body.map Char.toLower), rest) else none
  | _, _ => none

def isSlash (special : Bool) (c : Char) : Bool := c = '/' || (special && c = '\\')

/-- What ends an authority. -/
def isEnd (special : Bool) (c : Char) : Bool := isSlash special c || c = '?' || c = '#'

/-- A text cut at the last of a mark. -/
def cutLast (mark : Char) (text : List Char) : Option (List Char × List Char) :=
  let back := text.reverse.takeWhile (· ≠ mark)
  if back.length = text.length then none
  else some (text.take (text.length - back.length - 1), back.reverse)

/-- User and password, of which an empty one is none. -/
def userInfo (text : List Char) : String × Option String :=
  let escape := fun text => String.ofList (Percent.encode keptInUserInfo text)
  let user := text.takeWhile (· ≠ ':')
  let password := (text.dropWhile (· ≠ ':')).drop 1
  (escape user, if password = [] then none else some (escape password))

/-- The host, and what follows from its colon on; colons in brackets are part of it. -/
def cutHost : (inside : Bool) → List Char → List Char × List Char
  | _, [] => ([], [])
  | inside, c :: rest =>
    if c = ':' ∧ ¬inside then ([], c :: rest)
    else
      let inside := if c = '[' then true else if c = ']' then false else inside
      let (host, behind) := cutHost inside rest
      (c :: host, behind)

/-- The number behind the colon of a host. It may be missing, and the standard one is
left out. -/
def portNumber (scheme : String) (text : List Char) : Except UrlFault (Option Nat) :=
  if text = [] then .ok none
  else if text.all Char.isDigit then
    let n := text.foldl (fun n c => n * 10 + (c.toNat - 48)) 0
    if 65535 < n then .error .badPort
    else .ok (if standardPort? scheme = some n then none else some n)
  else .error .badPort

/-- An authority, with what is left of its text: outside the special schemes a
backslash ends the number. Only there a host may be empty, if nothing else is said
about it; `followed` tells whether anything comes behind the authority. -/
def authority (scheme : String) (followed : Bool) (text : List Char) :
    Except UrlFault (Authority × List Char) := do
  let special := isSpecial scheme
  let (info, rest) := match cutLast '@' text with
    | some (info, rest) => (some info, rest)
    | none => (none, text)
  let (user, password) := userInfo (info.getD [])
  let (hostText, portText) := cutHost false rest
  let ends := fun c : Char => c = '\\'
  let left := portText.dropWhile (!ends ·)
  let portText := portText.takeWhile (!ends ·)
  let attached := user ≠ "" ∨ password.isSome ∨ portText ≠ [] ∨ (info = some [] ∧ followed)
  if hostText = [] ∧ (special ∨ attached) then throw .emptyHost
  let host ← if special then Host.parse hostText else Host.parseBare hostText
  let portNumber ← portNumber scheme (portText.drop 1)
  return (⟨user, password, host, portNumber⟩, left)

/-- Query and fragment of what is left behind a path. -/
def ending (scheme : String) (text : List Char) : Option String × Option String :=
  let fragment := match text.dropWhile (· ≠ '#') with
    | [] => none
    | _ :: fragment => some (String.ofList (Percent.encode keptInFragment fragment))
  match text.takeWhile (· ≠ '#') with
  | [] => (none, fragment)
  | _ :: query => (some (String.ofList (Percent.encode (keptInQuery (isSpecial scheme)) query)), fragment)

def isMark (c : Char) : Bool := c = '?' || c = '#'

/-- The segments of a path behind its first slash. -/
def segmentsOf (scheme : String) (text : List Char) : List String :=
  walk scheme ((Text.splitBy (isSlash (isSpecial scheme)) text).map (Percent.encode keptInPath))

def finish (scheme : String) (front : UrlFront) (path : UrlPath) (rest : List Char) : Url :=
  let (query, fragment) := ending scheme rest
  ⟨scheme, front, path, query, fragment⟩

/-- What follows the two slashes in front of an authority. -/
def withAuthority (scheme : String) (text : List Char) : Except UrlFault Url := do
  let special := isSpecial scheme
  let front := text.takeWhile (!isEnd special ·)
  let rest := text.dropWhile (!isEnd special ·)
  let (authority, left) ← authority scheme (rest ≠ []) front
  let rest := left ++ rest
  let segments := match rest.takeWhile (!isMark ·) with
    | [] => if special then [""] else []
    | c :: pathText => segmentsOf scheme (if isSlash special c then pathText else c :: pathText)
  return finish scheme (.authority authority) (.segments segments) (rest.dropWhile (!isMark ·))

/-- A path without authority is set off from the scheme if it starts with an
empty segment. -/
def withoutAuthority (scheme : String) (text : List Char) : Url :=
  let pathText := text.takeWhile (!isMark ·)
  let rest := text.dropWhile (!isMark ·)
  match pathText with
  | '/' :: pathText =>
    let segments := segmentsOf scheme pathText
    let front := if segments.head? = some "" ∧ segments ≠ [""] then UrlFront.dotted else .bare
    finish scheme front (.segments segments) rest
  | _ => finish scheme .bare (.rootless (String.ofList (Percent.encode visible pathText))) rest

def noAuthority (host : Host) : UrlFront := .authority ⟨"", none, host, none⟩

/-- A file, which has a host only if two slashes come first and no drive follows
them. A host in front of a drive is dropped, and so is the local one. -/
def ofFile (text : List Char) : Except UrlFault Url := do
  let scheme := "file"
  let slash := isSlash true
  let pathOf := fun text : List Char => (segmentsOf scheme (text.takeWhile (!isMark ·)), text.dropWhile (!isMark ·))
  match text with
  | a :: b :: text =>
    if slash a && slash b then
      let hostText := text.takeWhile (!isEnd true ·)
      if isDrive hostText then
        let (segments, rest) := pathOf text
        return finish scheme (noAuthority (.name "")) (.segments segments) rest
      else
        let host ← if hostText = [] then .ok (Host.name "") else Host.parse hostText
        let host := if host = .name "localhost" then Host.name "" else host
        let behind := text.drop hostText.length
        let behind := match behind with
          | c :: rest => if slash c then rest else c :: rest
          | [] => []
        let (segments, rest) := pathOf behind
        let host := match segments with
          | drive :: _ => if isDrive drive.toList then Host.name "" else host
          | [] => host
        return finish scheme (noAuthority host) (.segments segments) rest
    else
      let (segments, rest) := pathOf (if slash a then b :: text else a :: b :: text)
      return finish scheme (noAuthority (.name "")) (.segments segments) rest
  | _ =>
    let (segments, rest) := pathOf (text.dropWhile slash)
    return finish scheme (noAuthority (.name "")) (.segments segments) rest

/-- Controls and blanks at both ends are no part of a URL. -/
def trimEnds (text : List Char) : List Char :=
  ((text.dropWhile (·.toNat ≤ 0x20)).reverse.dropWhile (·.toNat ≤ 0x20)).reverse

def parse (text : String) : Except UrlFault Url :=
  match scheme? (dropBreaks (trimEnds text.toList)) with
  | none => .error .noScheme
  | some (scheme, rest) =>
    if isFile scheme then ofFile rest
    else if isSpecial scheme then withAuthority scheme (rest.dropWhile (isSlash true))
    else
      match rest with
      | '/' :: '/' :: rest => withAuthority scheme rest
      | _ => .ok (withoutAuthority scheme rest)

end LedgerClient.Url
