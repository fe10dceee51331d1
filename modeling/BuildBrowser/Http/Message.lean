import BuildBrowser.Decimal.Natural
import BuildBrowser.Http.Exchange
import BuildBrowser.Text.Blank

/-!
# HTTP messages — requests and answers as bytes

`WireRequest.message` is what is sent for a request, over a connection that the answer ends.
`WireReply.ofMessage` reads all that came back over it: a status line, header lines up to an empty
one, and a body, which goes as far as its announced length, as its chunks, or as the connection. A
body that stops before its announced end is kept and marked as cut short.
-/

namespace BuildBrowser.Http

/-- A header: its name in lower case, and its value without the blanks at its ends. -/
abbrev Header := String × String

/-! ## Requests -/

/-- The headers of a request. -/
def WireRequest.headers (request : WireRequest) : List Header :=
  [("accept", "*/*")] ++ (request.contentType.toList.map fun value => ("content-type", value)) ++
    (request.contentLength.toList.map fun value => ("content-length", value)) ++
    [("host", request.url.authority), ("connection", "close")]

/-- The bytes of a request. -/
def WireRequest.message (request : WireRequest) : Bytes :=
  let lines := (request.method.text ++ " " ++ request.url.target ++ " HTTP/1.1") ::
    request.headers.map fun h => h.1 ++ ": " ++ h.2
  utf8 (String.join (lines.map (· ++ "\r\n")) ++ "\r\n") ++ request.body

/-! ## Heads of answers -/

/-- The text of a line whose bytes are given in reverse, without a carriage return at its end. -/
def lineText (reversed : Bytes) : String :=
  let line := match reversed with
    | 0x0D :: before => before
    | line => line
  String.ofList (Utf8.decodeLossy line.reverse)

/-- The lines up to the first empty one, and the bytes after it. The line under way is given in
reverse. -/
def splitHead? (line : Bytes) : Bytes → Option (List String × Bytes)
  | [] => none
  | b :: rest =>
    if b = 0x0A then
      if lineText line = "" then some ([], rest)
      else (splitHead? [] rest).map fun head => (lineText line :: head.1, head.2)
    else splitHead? (b :: line) rest

/-- The code in a status line. -/
def statusCode? (line : String) : Option Nat :=
  match Text.splitOn ' ' line.toList with
  | version :: code :: _ =>
    if version.take 5 = ['H', 'T', 'T', 'P', '/'] ∧ code.length = 3 then Decimal.ofDigits? code
    else none
  | _ => none

/-- The header of a line, if the line has a colon. -/
def header? (line : String) : Option Header :=
  match cut (· = ':') line.toList with
  | (name, _ :: value) => some (String.ofList (name.map Char.toLower), Text.trim (String.ofList value))
  | (_, []) => none

/-! ## Bodies of answers -/

/-- Where the reading of chunks stands: in the size of a chunk, behind it on the same line, in data
of which so many bytes are left, or behind the data of a chunk. -/
inductive ChunkState where
  | size (n : Nat)
  | extension (n : Nat)
  | data (left : Nat)
  | behind
  deriving DecidableEq, Repr

/-- The data of chunks, and whether the last chunk was among them. The data so far is given in
reverse. -/
def readChunks (data : Bytes) : ChunkState → Bytes → Bytes × Bool
  | _, [] => (data.reverse, false)
  | .size n, b :: rest =>
    if b = 0x0A then
      if n = 0 then (data.reverse, true) else readChunks data (.data n) rest
    else
      match Segment.hexValue? (Char.ofNat b.toNat) with
      | some digit => readChunks data (.size (n * 16 + digit)) rest
      | none => readChunks data (.extension n) rest
  | .extension n, b :: rest =>
    if b ≠ 0x0A then readChunks data (.extension n) rest
    else if n = 0 then (data.reverse, true)
    else readChunks data (.data n) rest
  | .data left, b :: rest =>
    readChunks (b :: data) (if left ≤ 1 then .behind else .data (left - 1)) rest
  | .behind, b :: rest => readChunks data (if b = 0x0A then .size 0 else .behind) rest

/-- Whether answers of a status have no body, whatever their headers announce. -/
def isBodiless (status : Nat) : Bool :=
  status < 200 || status = 204 || status = 304

/-- The body of an answer, and whether it is complete, from the bytes behind its head. A length that
is no number counts as a body that never gets complete. -/
def readBody (status : Nat) (headers : List Header) (bytes : Bytes) : Bytes × Bool :=
  if isBodiless status then ([], true)
  else if headers.lookup "transfer-encoding" = some "chunked" then readChunks [] (.size 0) bytes
  else
    match headers.lookup "content-length" with
    | none => (bytes, true)
    | some value =>
      match Decimal.ofDigits? value.toList with
      | some length => (bytes.take length, length ≤ bytes.length)
      | none => (bytes, false)

/-! ## Answers -/

/-- The answer at the start of some bytes, and what stands behind its head. -/
def readAnswer? (bytes : Bytes) : Option (WireReply × Bytes) := do
  let (lines, rest) ← splitHead? [] bytes
  let status ← statusCode? (lines.headD "")
  let headers := (lines.drop 1).filterMap header?
  let (body, complete) := readBody status headers rest
  return (.answer status (headers.lookup "location") body complete, rest)

/-- The first answer among some bytes that is final, after so many that are not. -/
def finalAnswer? : (left : Nat) → Bytes → Option WireReply
  | 0, _ => none
  | left + 1, bytes =>
    match readAnswer? bytes with
    | some (.answer status location body complete, rest) =>
      if status < 200 then finalAnswer? left rest
      else some (.answer status location body complete)
    | _ => none

/-- The reply that all bytes of a connection make. Bytes that are no answer count as none. -/
def WireReply.ofMessage (bytes : Bytes) : WireReply :=
  (finalAnswer? bytes.length bytes).getD .closed

end BuildBrowser.Http
