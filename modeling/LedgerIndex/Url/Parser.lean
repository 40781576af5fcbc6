import LedgerIndex.Url.Basic

/-! # Reading URLs

`Url.parse` reads an absolute URL.  Blanks and controls around the text are dropped, tabs and line
breaks anywhere.  The default port of the scheme is left out, the segments `.` and `..` of a path
are resolved, and special characters are encoded. -/

namespace LedgerIndex.Url

/-- Removes blanks and controls at both ends, and tabs and line breaks everywhere. -/
def clean (cs : List Char) : List Char :=
  let isOuter (c : Char) : Bool := c.toNat ≤ 0x20
  let trimmed := ((cs.dropWhile isOuter).reverse.dropWhile isOuter).reverse
  trimmed.filter fun c => !(c == '\t' || c == '\n' || c == '\r')

/-- A character of a scheme behind its first letter. -/
def isSchemeChar (c : Char) : Bool :=
  c.isAlphanum || c == '+' || c == '-' || c == '.'

/-- The scheme in lowercase, and what follows its colon. -/
def splitScheme? (cs : List Char) : Option (String × List Char) :=
  match cs with
  | c :: _ =>
    if c.isAlpha then
      match cs.dropWhile isSchemeChar with
      | ':' :: rest => some (String.ofList ((cs.takeWhile isSchemeChar).map Char.toLower), rest)
      | _ => none
    else none
  | [] => none

/-- The character that ends an authority. -/
def endsAuthority (special : Bool) (c : Char) : Bool :=
  c == '/' || c == '?' || c == '#' || (special && c == '\\')

/-- Splits behind the last occurrence of a character. -/
def splitLast? (separator : Char) (cs : List Char) : Option (List Char × List Char) :=
  if separator ∈ cs then
    let reversed := cs.reverse
    some (((reversed.dropWhile (· != separator)).drop 1).reverse,
      (reversed.takeWhile (· != separator)).reverse)
  else none

/-- The user name and password of the text in front of a host. -/
def readCredentials (cs : List Char) : String × Option String :=
  let part (cs : List Char) : String := String.ofList (Percent.encode Percent.inUserinfo cs)
  let name := cs.takeWhile (· != ':')
  match cs.dropWhile (· != ':') with
  | _ :: c :: rest => (part name, some (part (c :: rest)))
  | _ => (part name, none)

/-- The characters of a host, up to the colon of a port. -/
def takeHost (inBrackets : Bool) : List Char → List Char × List Char
  | [] => ([], [])
  | c :: rest =>
    if c = ':' ∧ ¬ inBrackets then ([], c :: rest)
    else
      let (host, tail) := takeHost (c = '[' || (inBrackets && c != ']')) rest
      (c :: host, tail)

/-- A port, absent where it is the default one or has no digits. -/
def readPort (scheme : String) (cs : List Char) : Except UrlError (Option Nat) :=
  if cs.all Char.isDigit then
    let port := Decimal.value cs
    if 65535 < port then .error .invalidPort
    else if cs = [] ∨ defaultPort? scheme = some port then .ok none
    else .ok (some port)
  else .error .invalidPort

/-- Reads an authority; `last` says that nothing follows it.  Empty credentials need a host, unless
nothing follows. -/
def readAuthority (scheme : String) (special last : Bool) (cs : List Char) :
    Except UrlError Authority := do
  let (credentials, rest) := match splitLast? '@' cs with
    | some (credentials, rest) => (some credentials, rest)
    | none => (none, cs)
  if credentials = some [] ∧ rest = [] ∧ ¬ last then throw .emptyHost
  let (username, password) := readCredentials (credentials.getD [])
  let (host, rest) := takeHost false rest
  if special ∧ host = [] then throw .emptyHost
  let host ← if special then Host.ofDomain host else Host.ofOpaque host
  if host = .name "" ∧ rest ≠ [] then throw .emptyHost
  let port ← readPort scheme (rest.drop 1)
  if host = .name "" ∧ (username ≠ "" ∨ password.isSome) then throw .emptyHost
  return ⟨username, password, host, port⟩

/-- The spellings of a single point as a segment. -/
def isSingleDot (segment : String) : Bool :=
  segment ∈ [".", "%2e", "%2E"]

/-- The spellings of a double point as a segment. -/
def isDoubleDot (segment : String) : Bool :=
  segment ∈ ["..", "%2e%2e", "%2e%2E", "%2E%2e", "%2E%2E", "%2e.", "%2E.", ".%2e", ".%2E"]

/-- Resolves the points among segments, the segments so far last first. -/
def resolveDots (done : List String) : List String → List String
  | [] => done.reverse
  | segment :: rest =>
    if isDoubleDot segment then
      let done := done.drop 1
      resolveDots (if rest = [] then "" :: done else done) rest
    else if isSingleDot segment then resolveDots (if rest = [] then "" :: done else done) rest
    else resolveDots (segment :: done) rest

/-- The segments of a path without its first slash. -/
def readSegments (special : Bool) (cs : List Char) : List String :=
  let slashed := cs.map fun c => if special && c == '\\' then '/' else c
  resolveDots [] ((Host.splitAt '/' slashed).map fun segment =>
    String.ofList (Percent.encode Percent.inPath segment))

/-- The path behind an authority. -/
def readPath (special : Bool) (cs : List Char) : List String :=
  match cs with
  | [] => if special then [""] else []
  | c :: rest =>
    if c = '/' ∨ (special ∧ c = '\\') then readSegments special rest
    else readSegments special cs

/-- Path, query and fragment, not yet encoded. -/
def splitTail (cs : List Char) : List Char × Option (List Char) × Option (List Char) :=
  let path := cs.takeWhile fun c => c != '?' && c != '#'
  match cs.dropWhile fun c => c != '?' && c != '#' with
  | '?' :: rest =>
    let query := rest.takeWhile (· != '#')
    match rest.dropWhile (· != '#') with
    | _ :: fragment => (path, some query, some fragment)
    | [] => (path, some query, none)
  | _ :: fragment => (path, none, some fragment)
  | [] => (path, none, none)

/-- The URL of a scheme, an authority and a path, with the query and fragment encoded. -/
def assemble (scheme : String) (authority : Option Authority) (path : UrlPath)
    (query fragment : Option (List Char)) : Url :=
  let inQuery := if isSpecialScheme scheme then Percent.inSpecialQuery else Percent.inQuery
  { scheme := scheme
    authority := authority
    path := path
    query := query.map fun cs => String.ofList (Percent.encode inQuery cs)
    fragment := fragment.map fun cs => String.ofList (Percent.encode Percent.inFragment cs) }

/-- Reads what follows the two slashes of a URL. -/
def readHierarchical (scheme : String) (cs : List Char) : Except UrlError Url := do
  let special := isSpecialScheme scheme
  let front := cs.takeWhile (!endsAuthority special ·)
  let tail := cs.dropWhile (!endsAuthority special ·)
  let (path, query, fragment) := splitTail tail
  let authority ← readAuthority scheme special tail.isEmpty front
  return assemble scheme (some authority) (.segments (readPath special path)) query fragment

/-- Reads a URL of the scheme of local files, whose host may be empty. -/
def readFile (cs : List Char) : Except UrlError Url := do
  let isSlash (c : Char) : Bool := c == '/' || c == '\\'
  let (front, rest) := match cs with
    | a :: b :: rest =>
      if isSlash a && isSlash b then
        (rest.takeWhile (!endsAuthority true ·), rest.dropWhile (!endsAuthority true ·))
      else ([], cs)
    | _ => ([], cs)
  let host ← if front = [] then pure (.name "") else Host.ofDomain front
  let host := if host = .name "localhost" then .name "" else host
  let (path, query, fragment) := splitTail rest
  let segments := match (readPath true path).dropWhile (· == "") with
    | [] => [""]
    | segments => segments
  return assemble "file" (some ⟨"", none, host, none⟩) (.segments segments) query fragment

/-- Reads what follows a scheme without special meaning. -/
def readPlain (scheme : String) (cs : List Char) : Except UrlError Url :=
  match cs with
  | '/' :: '/' :: rest => readHierarchical scheme rest
  | '/' :: rest =>
    let (path, query, fragment) := splitTail rest
    .ok (assemble scheme none (.segments (readSegments false path)) query fragment)
  | _ =>
    let (path, query, fragment) := splitTail cs
    let text := String.ofList (Percent.encode (fun _ => false) path)
    .ok (assemble scheme none (.opaqueText text) query fragment)

def parse (text : String) : Except UrlError Url :=
  match splitScheme? (clean text.toList) with
  | none => .error .relativeWithoutBase
  | some (scheme, rest) =>
    if scheme = "file" then readFile rest
    else if isSpecialScheme scheme then
      readHierarchical scheme (rest.dropWhile fun c => c == '/' || c == '\\')
    else readPlain scheme rest

end LedgerIndex.Url
