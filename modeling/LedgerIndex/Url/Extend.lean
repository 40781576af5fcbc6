import LedgerIndex.Url.Parser

/-! # Building on a base

The URLs of a service are its base URL with further path segments, each encoded so that it stays one
segment, and with further query parameters. -/

namespace LedgerIndex.Url

/-- The characters of a segment as a path holds them. -/
def encodeSegment (special : Bool) (segment : String) : String :=
  let kept := segment.toList.filter fun c => !(c == '\t' || c == '\n' || c == '\r')
  let set := if special then Percent.inSpecialSegment else Percent.inSegment
  String.ofList (Percent.encode set kept)

/-- Drops an empty last segment, unless it is the only one. -/
def dropEmptyLast (segments : List String) : List String :=
  if 1 < segments.length ∧ segments.getLast? = some "" then segments.dropLast else segments

/-- Puts an encoded segment behind others; a path that is a single slash is as good as none. -/
def addSegment (segments : List String) (encoded : String) : List String :=
  if segments = [""] then [encoded] else segments ++ [encoded]

/-- Adds a segment; the segments `.` and `..` are passed over. -/
def pushSegment (special : Bool) (segments : List String) (segment : String) : List String :=
  if segment = "." ∨ segment = ".." then segments
  else
    let encoded := encodeSegment special segment
    if isDoubleDot encoded then
      addSegment (if segments = [""] then segments else segments.dropLast) ""
    else if isSingleDot encoded then addSegment segments ""
    else addSegment segments encoded

/-- The URL with further segments behind its path, or `none` where it cannot be a base. -/
def withSegments? (url : Url) (segments : List String) : Option Url :=
  match url.path with
  | .segments list =>
    let special := isSpecialScheme url.scheme
    some { url with
      path := .segments (segments.foldl (pushSegment special) (dropEmptyLast list)) }
  | .opaqueText _ => none

/-- The URL with a further query parameter, whose name and value need no encoding. -/
def withParameter (url : Url) (name value : String) : Url :=
  let pair := name ++ "=" ++ value
  { url with query := match url.query with
      | some query => some (if query = "" then pair else query ++ "&" ++ pair)
      | none => some pair }

end LedgerIndex.Url
