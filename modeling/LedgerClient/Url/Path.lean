import LedgerClient.Url.Basic
import LedgerClient.Url.Escape

/-! Paths as lists of segments. Segments that are dots are not entered but
resolved, and a path that ends in a slash ends in an empty segment. -/

namespace LedgerClient.Url

def isDot (segment : List Char) : Bool :=
  [".", "%2e", "%2E"].contains (String.ofList segment)

def isDoubleDot (segment : List Char) : Bool :=
  ["..", "%2e%2e", "%2e%2E", "%2E%2e", "%2E%2E", "%2e.", "%2E.", ".%2e", ".%2E"].contains (String.ofList segment)

/-- A letter and a colon, as drives are called; or a bar for the colon. -/
def isDrive (segment : List Char) : Bool :=
  match segment with
  | [letter, mark] => letter.isAlpha && (mark = ':' || mark = '|')
  | _ => false

/-- A segment that starts with a drive keeps its place when dots lead out of it. -/
def startsWithDrive (segment : List Char) : Bool :=
  isDrive (segment.take 2) && (segment.length = 2 || segment[2]? = some '\\')

/-- The path one level up. -/
def parent (path : List String) : List String :=
  match path.getLast? with
  | some segment => if startsWithDrive segment.toList then path else path.dropLast
  | none => []

/-- Enters a segment. When dots come last, the path they lead to ends in a slash. -/
def enter (path : List String) (segment : List Char) (last : Bool) : List String :=
  let ending := if last then [""] else []
  if isDoubleDot segment then parent path ++ ending
  else if isDot segment then path ++ ending
  else path ++ [String.ofList segment]

/-- In the scheme of files the first segment may be a drive, which is written
with a colon and is a segment of its own. -/
def enterDrive (path : List String) (segment : List Char) (last : Bool) : List String :=
  match path, segment with
  | [], [letter, mark] =>
    if isDrive [letter, mark] then [String.ofList [letter, ':']] else enter path segment last
  | [], letter :: ':' :: c :: rest =>
    if letter.isAlpha then enter [String.ofList [letter, ':']] (c :: rest) last else enter path segment last
  | _, _ => enter path segment last

/-- A path of files does not start with empty segments. -/
def withoutBlanks (path : List String) : List String :=
  match path.dropWhile (· = "") with
  | [] => [""]
  | path => path

def isFile (scheme : String) : Bool := scheme = "file"

/-- The path that segments lead to, starting from the root. -/
def walk (scheme : String) (segments : List (List Char)) : List String :=
  let enter := if isFile scheme then enterDrive else enter
  let path := enter ((segments.dropLast.foldl (fun path segment => enter path segment false) []))
    (segments.getLastD []) true
  if isFile scheme then withoutBlanks path else path

/-- Appends one entry as a segment, all marks in it escaped. A path that is only
a slash is no segment to stand behind. -/
def append (scheme : String) (path : List String) (entry : String) : List String :=
  let segment := Percent.encode (keptInSegment (isSpecial scheme)) (dropBreaks entry.toList)
  let path := if path = [""] then [] else path
  if isFile scheme then withoutBlanks (enterDrive path segment true) else enter path segment true

/-- Drops the slash at the end of a path that is longer than a slash. -/
def withoutSlash (path : List String) : List String :=
  if path.length ≠ 1 ∧ path.getLast? = some "" then path.dropLast else path

/-- The URL with entries appended to its path; `none` if it has no path for them. -/
def extend? (url : Url) (entries : List String) : Option Url :=
  match url.path with
  | .rootless _ => none
  | .segments path =>
    some { url with path := .segments (entries.foldl (append url.scheme) (withoutSlash path)) }

/-- The URL with another query, or with none. -/
def withQuery (url : Url) (query : Option String) : Url :=
  { url with
    query := query.map fun query =>
      String.ofList (Percent.encode (keptInQuery (isSpecial url.scheme)) (dropBreaks query.toList)) }

end LedgerClient.Url
