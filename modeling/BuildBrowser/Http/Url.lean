import BuildBrowser.Decimal.Natural
import BuildBrowser.Segment
import BuildBrowser.Text.Blank
import BuildBrowser.Text.Split

/-!
# URLs of the web

A URL is read from a text in the way of web browsers: blanks around it go, the scheme and the host
become lower case, a port that the scheme implies is dropped, a backslash counts as a slash, and the
segments `.` and `..` of the path are resolved (`resolveDots`). Only what a request needs is kept:
names and passwords are not. A text that names a scheme of another kind is `foreign`.
-/

namespace BuildBrowser.Http

/-- A URL with a host, as it is used. -/
structure Url where
  scheme : String
  host : String
  port : Option Nat
  path : List String
  query : Option String
  fragment : Option String
  deriving DecidableEq, Repr

/-- What a text is: no URL, a URL of a scheme without hosts, or a URL. -/
inductive Parsed where
  | invalid
  | foreign (text : String)
  | url (url : Url)
  deriving DecidableEq, Repr

/-- The schemes whose URLs have a host, with the ports that they imply. -/
def impliedPorts : List (String × Nat) :=
  [("http", 80), ("https", 443), ("ws", 80), ("wss", 443), ("ftp", 21)]

namespace Url

/-- The host with its port, if it has one. -/
def authority (url : Url) : String :=
  url.host ++ match url.port with
    | some port => ":" ++ Decimal.numeral port
    | none => ""

/-- The path and the query: what a request line asks for. -/
def target (url : Url) : String :=
  String.join (url.path.map ("/" ++ ·)) ++ match url.query with
    | some query => "?" ++ query
    | none => ""

/-- The text of a URL. -/
def text (url : Url) : String :=
  url.scheme ++ "://" ++ url.authority ++ url.target ++ match url.fragment with
    | some fragment => "#" ++ fragment
    | none => ""

/-- Whether requests can be sent to a URL. -/
def isWeb (url : Url) : Bool :=
  url.scheme = "http" || url.scheme = "https"

end Url

/-! ## Percent encoding -/

/-- A text with some characters, and all that are not printable ASCII, percent-encoded. -/
def percentEncode (encoded : List Char) (text : List Char) : List Char :=
  text.flatMap fun c =>
    if c.toNat < 0x20 || c.toNat > 0x7E || encoded.contains c then
      (String.utf8EncodeChar c).flatMap fun b =>
        ['%', Segment.hexDigit (b.toNat / 16), Segment.hexDigit (b.toNat % 16)]
    else [c]

/-- A segment of a path, percent-encoded. -/
def encodePath : List Char → List Char :=
  percentEncode [' ', '"', '<', '>', '`', '#', '?', '\x7b', '\x7d']

/-- A query, percent-encoded. -/
def encodeQuery : List Char → List Char :=
  percentEncode [' ', '"', '<', '>', '#', '\x27']

/-- A fragment, percent-encoded. -/
def encodeFragment : List Char → List Char :=
  percentEncode [' ', '"', '<', '>', '`']

/-! ## Dot segments -/

/-- A segment with its encoded dots decoded. -/
def plainDots : List Char → List Char
  | '%' :: '2' :: 'e' :: rest => '.' :: plainDots rest
  | '%' :: '2' :: 'E' :: rest => '.' :: plainDots rest
  | c :: rest => c :: plainDots rest
  | [] => []

/-- A segment that stands for its directory. -/
def isDot (segment : List Char) : Bool :=
  plainDots segment = ['.']

/-- A segment that stands for the directory above. -/
def isDotDot (segment : List Char) : Bool :=
  plainDots segment = ['.', '.']

/-- The segments of a path with its dot segments resolved, after those before it, last first. A dot
segment at the end leaves an empty one. -/
def resolveAfter (before : List (List Char)) : List (List Char) → List (List Char)
  | [] => before.reverse
  | segment :: rest =>
    let last := if rest.isEmpty then [[]] else []
    if isDotDot segment then resolveAfter (last ++ before.tail) rest
    else if isDot segment then resolveAfter (last ++ before) rest
    else resolveAfter (segment :: before) rest

/-- The segments of a path with its dot segments resolved. -/
def resolveDots (segments : List (List Char)) : List (List Char) :=
  resolveAfter [] segments

/-! ## Hosts -/

/-- The number that a part of an IPv4 address writes, in base 10, 8 or 16. -/
def ipv4Part? (part : List Char) : Option Nat :=
  let (base, digits) := match part with
    | '0' :: 'x' :: rest => (16, rest)
    | '0' :: 'X' :: rest => (16, rest)
    | '0' :: c :: rest => (8, c :: rest)
    | digits => (10, digits)
  if part.isEmpty then none
  else
    digits.foldl (fun n? c => do
      let n ← n?
      let d ← Segment.hexValue? c
      if d < base then some (n * base + d) else none) (some 0)

/-- The address that parts write: the last one stands for all bytes that are left. -/
def ipv4? (parts : List Nat) : Option Nat :=
  let count := parts.length
  match parts.reverse with
  | [] => none
  | last :: before =>
    if count ≤ 4 ∧ before.all (· < 256) ∧ last < Nat.pow 256 (5 - count) then
      some (before.reverse.foldl (fun n b => n * 256 + b) 0 * Nat.pow 256 (5 - count) + last)
    else none

/-- The dotted text of an address. -/
def ipv4Text (n : Nat) : String :=
  ".".intercalate ([n / 0x1000000, n / 0x10000 % 256, n / 256 % 256, n % 256].map Decimal.numeral)

/-- Characters that no host has. -/
def isForbiddenInHost (c : Char) : Bool :=
  c.toNat ≤ 0x20 || c.toNat ≥ 0x7F ||
    ['#', '%', '/', ':', '<', '>', '?', '@', '[', '\\', ']', '^', '|'].contains c

/-- The host that a text names, if it names one: an IPv6 address in brackets, an IPv4 address, or a
name. -/
def parseHost? (text : List Char) : Option String :=
  match text with
  | '[' :: rest =>
    let inner := rest.dropLast
    if rest.getLast? = some ']' ∧ inner.all (fun c => c = ':' || c = '.' || (Segment.hexValue? c).isSome)
        ∧ 2 ≤ inner.count ':' then
      some (String.ofList ('[' :: inner.map Char.toLower ++ [']']))
    else none
  | _ =>
    let name := (Segment.decodeChars text).map Char.toLower
    if name.isEmpty || name.any isForbiddenInHost then none
    else
      let parts := Text.splitOn '.' name
      let parts := if parts.length > 1 ∧ parts.getLast? = some [] then parts.dropLast else parts
      let last := parts.getLast?.getD []
      if (!last.isEmpty && last.all (·.isDigit)) || (ipv4Part? last).isSome then
        ((parts.mapM ipv4Part?).bind ipv4?).map ipv4Text
      else some (String.ofList name)

/-! ## Reading -/

/-- The text before the first character that satisfies `p`, and the text from there on. -/
def cut (p : Char → Bool) (text : List Char) : List Char × List Char :=
  text.span fun c => !p c

/-- A text without the first character, if it starts with that one. -/
def dropMark (mark : Char) : List Char → Option (List Char)
  | [] => none
  | c :: rest => if c = mark then some rest else none

/-- A slash, or what counts as one. -/
def isSlash (c : Char) : Bool :=
  c = '/' || c = '\\'

/-- The segments between slashes. -/
def splitPath (text : List Char) : List (List Char) :=
  Text.splitOn '/' (text.map fun c => if c = '\\' then '/' else c)

/-- The port after a host, without the one that the scheme implies. -/
def parsePort? (scheme : String) (text : List Char) : Option (Option Nat) :=
  match dropMark ':' text with
  | none => if text.isEmpty then some none else none
  | some digits =>
    if digits.all (·.isDigit) then
      let port := Decimal.appendDigits 0 digits
      if port > 65535 then none
      else if digits.isEmpty ∨ impliedPorts.lookup scheme = some port then some none
      else some (some port)
    else none

/-- The host and the port of an authority, without names and passwords. -/
def parseAuthority? (scheme : String) (text : List Char) : Option (String × Option Nat) := do
  let place := (text.reverse.takeWhile (· ≠ '@')).reverse
  let bracketed := place.head? = some '['
  let inside := if bracketed then (place.takeWhile (· ≠ ']')).length + 1
    else (place.takeWhile (· ≠ ':')).length
  let host ← parseHost? (place.take inside)
  let port ← parsePort? scheme (place.drop inside)
  return (host, port)

/-- A URL with a query and a fragment read from the text after its path. -/
def withSuffix (url : Url) (text : List Char) : Url :=
  let (beforeFragment, fragment) := cut (· = '#') text
  { url with
    query := (dropMark '?' beforeFragment).map fun q => String.ofList (encodeQuery q)
    fragment := (dropMark '#' fragment).map fun f => String.ofList (encodeFragment f) }

/-- The path of segments that are not encoded. -/
def pathOf (segments : List (List Char)) : List String :=
  (resolveDots (segments.map encodePath)).map String.ofList

/-- A URL with a path, a query and a fragment read from the text after its authority. -/
def withPath (url : Url) (text : List Char) : Url :=
  let (path, suffix) := cut (fun c => c = '?' || c = '#') text
  let segments := match path with
    | [] => [[]]
    | _ :: rest => splitPath rest
  withSuffix { url with path := pathOf segments } suffix

/-- A URL read from the text after its scheme and slashes. -/
def parseAfterSlashes (scheme : String) (text : List Char) : Parsed :=
  let (authority, rest) := cut (fun c => isSlash c || c = '?' || c = '#') text
  match parseAuthority? scheme authority with
  | some (host, port) => .url (withPath ⟨scheme, host, port, [], none, none⟩ rest)
  | none => .invalid

/-- A text without the blanks and controls at its ends, and without line ends and tabs. -/
def tidy (text : List Char) : List Char :=
  (Text.strip (fun c => c.toNat ≤ 0x20) text).filter fun c => c ≠ '\t' && c ≠ '\n' && c ≠ '\r'

/-- The scheme that a text starts with, and the text after its colon. -/
def splitScheme? (text : List Char) : Option (String × List Char) :=
  let (name, rest) := cut (· = ':') text
  match name, rest with
  | c :: _, _ :: rest =>
    if c.isAlpha ∧ name.all (fun c => c.isAlphanum || c = '+' || c = '-' || c = '.') then
      some (String.ofList (name.map Char.toLower), rest)
    else none
  | _, _ => none

/-- What a text is by itself. -/
def parse (text : String) : Parsed :=
  let text := tidy text.toList
  match splitScheme? text with
  | none => .invalid
  | some (scheme, rest) =>
    if (impliedPorts.lookup scheme).isSome then parseAfterSlashes scheme (rest.dropWhile isSlash)
    else .foreign (scheme ++ ":" ++ String.ofList (percentEncode [] rest))

/-- What a text is that stands in a document at a URL. -/
def join (base : Url) (text : String) : Parsed :=
  let chars := tidy text.toList
  match splitScheme? chars with
  | some (scheme, rest) =>
    if scheme = base.scheme ∧ !(rest.head?.map isSlash).getD false then relative base rest
    else parse text
  | none => relative base chars
where
  /-- A reference without a scheme. -/
  relative (base : Url) (chars : List Char) : Parsed :=
    match chars with
    | [] => .url { base with fragment := none }
    | c :: rest =>
      if isSlash c then
        match rest with
        | d :: rest' =>
          if isSlash d then parseAfterSlashes base.scheme (rest'.dropWhile isSlash)
          else .url (withPath base chars)
        | [] => .url (withPath base chars)
      else if c = '?' then .url (withSuffix base chars)
      else if c = '#' then
        .url { withSuffix base chars with query := base.query }
      else
        let (path, suffix) := cut (fun c => c = '?' || c = '#') chars
        let directory := base.path.dropLast.map String.toList
        let segments := resolveDots (directory ++ (splitPath path).map encodePath)
        .url (withSuffix { base with path := segments.map String.ofList } suffix)

end BuildBrowser.Http
