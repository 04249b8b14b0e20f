/-
  Decoding one packet from the front of a buffer. `none` is a panic, as for the lengths.

  A header of HTTP goes on over every line that begins with a blank. `decode_http_header` looks
  for the blank behind the end of the line; where the buffer ends there, it takes the header for
  complete, though the next read may go on with it. This is the one place where the answer for
  a buffer changes when more bytes arrive (`decodePacket_stable_iff`).
-/
import Terlan.Lib.Incremental
import Terlan.Lib.Text
import Terlan.Packet.Length

namespace Terlan.Packet

open Terlan.Lib

/-! ## Packets -/

inductive VmPacketMode where
  | length1
  | length2
  | length4
  | asn1
  | sunRm
  | cdr
  | fastCgi
  | tpkt
  | sslTls
  | line
  | http
  | httpHeader
deriving DecidableEq

/-- Both limits are words of 32 bits, and 0 means no limit. -/
structure VmPacketOptions where
  packetSize : Nat
  lineLength : Nat

inductive VmHttpUri where
  | asterisk
  | absolute (scheme host : String) (port : Option Nat) (path : String)
  | scheme (scheme remainder : String)
  | absolutePath (path : String)
  | other (target : String)

inductive VmHttpPacket where
  | request (method : String) (uri : VmHttpUri) (version : Nat × Nat)
  | response (version : Nat × Nat) (status : Nat) (phrase : String)
  | header (knownIndex : Nat) (canonicalName originalName value : String)
  | endOfHeaders
  | error (bytes : List UInt8)

inductive VmDecodedPacket where
  | bytes (bytes : List UInt8)
  | sslTls (contentType : UInt8) (version : UInt8 × UInt8) (data : List UInt8)
  | http (packet : VmHttpPacket)

inductive VmPacketDecodeOutcome where
  | complete (packet : VmDecodedPacket) (consumed : Nat)
  | more (total : Option Nat)
  | invalid

/-! ## Packets that say their length -/

def VmPacketMode.packetType : VmPacketMode → Option PacketType
  | .length1 => some .pb1
  | .length2 => some .pb2
  | .length4 => some .pb4
  | .asn1 => some .asn1
  | .sunRm => some .rm
  | .cdr => some .cdr
  | .fastCgi => some .fcgi
  | .tpkt => some .tpkt
  | .sslTls => some .sslTls
  | .line | .http | .httpHeader => none

def completeBytes (packet : List UInt8) (consumed : Nat) : VmPacketDecodeOutcome :=
  .complete (.bytes packet) consumed

def decodeSslTls (bytes : List UInt8) (total : Nat) : Option VmPacketDecodeOutcome := do
  if (← bytes[0]?) &&& 0x80 ≠ 0 ∧ (← bytes[2]?) = 1 then
    let body ← slice bytes 5 total
    let handshakeLen := body.length + 2
    if handshakeLen > 0x00ffffff then return .invalid
    else
      let data := [1, .ofNat (handshakeLen >>> 16), .ofNat (handshakeLen >>> 8),
        .ofNat handshakeLen] ++ (← slice bytes 3 5) ++ body
      return .complete (.sslTls 22 (← bytes[3]?, ← bytes[4]?) data) total
  else
    let data ← slice bytes 5 total
    return .complete (.sslTls (← bytes[0]?) (← bytes[1]?, ← bytes[2]?) data) total

/-- The packet of `total` bytes at the front of the buffer. -/
def extract (mode : VmPacketMode) (bytes : List UInt8) (total : Nat) :
    Option VmPacketDecodeOutcome :=
  match mode with
  | .length1 => (slice bytes 1 total).map (completeBytes · total)
  | .length2 => (slice bytes 2 total).map (completeBytes · total)
  | .length4 => (slice bytes 4 total).map (completeBytes · total)
  | .fastCgi => do
    let padding := (← bytes[6]?).toNat
    return completeBytes (← slice bytes 0 (← checkedSub total padding)) total
  | .sslTls => decodeSslTls bytes total
  | _ => (slice bytes 0 total).map (completeBytes · total)

def decodeFixed (mode : VmPacketMode) (bytes : List UInt8) (options : VmPacketOptions) :
    Option VmPacketDecodeOutcome :=
  match mode.packetType with
  | none => some .invalid
  | some htype => do
    match ← fixedPacketLength htype bytes options.packetSize with
    | none => return .invalid
    | some total =>
      if total < 0 then return .invalid
      else if total = 0 then return .more none
      else if bytes.length < total.toNat then return .more (some total.toNat)
      else extract mode bytes total.toNat

/-! ## Lines -/

def exceedsLimit (length limit : Nat) : Bool := limit ≠ 0 ∧ length > limit

/-- How much of the buffer the line takes, or the answer that there is no line. -/
def lineConsumed (bytes : List UInt8) (options : VmPacketOptions) :
    Except VmPacketDecodeOutcome Nat :=
  match (bytes.findIdx? (· = 10)).map (· + 1) with
  | some stop =>
    if options.lineLength ≠ 0 ∧ stop > options.lineLength then .ok options.lineLength
    else .ok stop
  | none =>
    if options.lineLength ≠ 0 ∧ bytes.length ≥ options.lineLength then .ok options.lineLength
    else if options.packetSize ≠ 0 ∧ bytes.length ≥ options.packetSize then .error .invalid
    else .error (.more none)

def decodeLine (bytes : List UInt8) (options : VmPacketOptions) : Option VmPacketDecodeOutcome :=
  match lineConsumed bytes options with
  | .error outcome => some outcome
  | .ok consumed =>
    if exceedsLimit consumed options.packetSize then some .invalid
    else (slice bytes 0 consumed).map (completeBytes · consumed)

/-! ## The texts of HTTP -/

/-- `split_once`, of the characters. -/
def splitOnce (separator : Char) : List Char → Option (List Char × List Char)
  | [] => none
  | c :: text =>
    if c = separator then some ([], text)
    else (splitOnce separator text).map fun (before, after) => (c :: before, after)

/-- `rsplit_once`. -/
def rsplitOnce (separator : Char) (text : List Char) : Option (List Char × List Char) :=
  (splitOnce separator text.reverse).map fun (after, before) => (before.reverse, after.reverse)

def stripPrefix (start text : List Char) : Option (List Char) :=
  if start.isPrefixOf text then some (text.drop start.length) else none

/-- `parse::<u16>`. -/
def parseU16 (text : List Char) : Option Nat :=
  let digits := if text.head? = some '+' then text.tail else text
  if digits ≠ [] ∧ digits.all Char.isDigit ∧ Nat.ofDigitChars 10 digits 0 < 2 ^ 16 then
    some (Nat.ofDigitChars 10 digits 0)
  else none

def parseHttpVersion (value : List Char) : Option (Nat × Nat) := do
  let (major, minor) ← splitOnce '.' (← stripPrefix "HTTP/".toList value)
  return (← parseU16 major, ← parseU16 minor)

/-- The host and the port of the part between the scheme and the path. -/
def parseAuthority (authority : List Char) : List Char × Option Nat :=
  if authority.head? = some '[' then
    match splitOnce ']' authority with
    | some (host, rest) => (host ++ [']'], (stripPrefix [':'] rest).bind parseU16)
    | none => (((splitOnce ':' authority).map Prod.fst).getD authority, none)
  else
    match rsplitOnce ':' authority with
    | some (host, port) =>
      match parseU16 port with
      | some port => (host, some port)
      | none => (authority, none)
    | none => (authority, none)

def parseAbsoluteUri (scheme rest : List Char) : VmHttpUri :=
  let (authority, path) :=
    match splitOnce '/' rest with
    | some (authority, path) => (authority, '/' :: path)
    | none => (rest, ['/'])
  let (host, port) := parseAuthority authority
  .absolute (.ofList scheme) (.ofList host) port (.ofList path)

def parseHttpUri (target : List Char) : VmHttpUri :=
  if target = ['*'] then .asterisk
  else
    match stripPrefix "http://".toList target, stripPrefix "https://".toList target with
    | some rest, _ => parseAbsoluteUri "http".toList rest
    | none, some rest => parseAbsoluteUri "https".toList rest
    | none, none =>
      if target.head? = some '/' then .absolutePath (.ofList target)
      else
        match splitOnce ':' target with
        | some (scheme, remainder) => .scheme (.ofList scheme) (.ofList remainder)
        | none => .other (.ofList target)

/-- A request line has exactly three parts. -/
def parseHttpRequest (line : List Char) : Option VmHttpPacket :=
  match line.splitOn ' ' with
  | [method, target, version] => do
    let version ← parseHttpVersion version
    if method = [] ∨ target = [] then none
    else return .request (.ofList method) (parseHttpUri target) version
  | _ => none

def parseHttpResponse (line : List Char) : Option VmHttpPacket := do
  let (first, rest) := (splitOnce ' ' line).elim (line, none) fun (first, rest) => (first, some rest)
  let version ← parseHttpVersion first
  let rest ← rest
  let (status, phrase) := (splitOnce ' ' rest).getD (rest, [])
  return .response version (← parseU16 status) (.ofList phrase)

def knownHeaders : List String :=
  ["Cache-Control", "Connection", "Date", "Pragma", "Transfer-Encoding", "Upgrade", "Via",
    "Accept", "Accept-Charset", "Accept-Encoding", "Accept-Language", "Authorization", "From",
    "Host", "If-Modified-Since", "If-Match", "If-None-Match", "If-Range", "If-Unmodified-Since",
    "Max-Forwards", "Proxy-Authorization", "Range", "Referer", "User-Agent", "Age", "Location",
    "Proxy-Authenticate", "Public", "Retry-After", "Server", "Vary", "Warning",
    "Www-Authenticate", "Allow", "Content-Base", "Content-Encoding", "Content-Language",
    "Content-Length", "Content-Location", "Content-Md5", "Content-Range", "Content-Type", "Etag",
    "Expires", "Last-Modified", "Accept-Ranges", "Set-Cookie", "Set-Cookie2", "X-Forwarded-For",
    "Cookie", "Keep-Alive", "Proxy-Connection"]

/-- The characters after a hyphen, and the first, are capitals. -/
def titleCaseFrom : Bool → List Char → List Char
  | _, [] => []
  | capitalize, c :: name =>
    if c = '-' then c :: titleCaseFrom true name
    else (if capitalize then c.toUpper else c.toLower) :: titleCaseFrom false name

def titleCaseHeader (name : List Char) : String := .ofList (titleCaseFrom true name)

def canonicalHeader (name : List Char) : Nat × String :=
  match knownHeaders.findIdx? (·.toList.map Char.toLower = name.map Char.toLower) with
  | some index => (index + 1, knownHeaders.getD index "")
  | none => (0, titleCaseHeader name)

/-! ## Packets of HTTP -/

def findCrlf : List UInt8 → Option Nat
  | [] => none
  | [_] => none
  | first :: second :: bytes =>
    if first = 13 ∧ second = 10 then some 0
    else (findCrlf (second :: bytes)).map (· + 1)

def incompleteText (bytes : List UInt8) (packetSize : Nat) : VmPacketDecodeOutcome :=
  if packetSize ≠ 0 ∧ bytes.length > packetSize then .invalid else .more none

def completeHttp (packet : VmHttpPacket) (consumed : Nat) : VmPacketDecodeOutcome :=
  .complete (.http packet) consumed

/-- The packet of a start line, with the bytes that are reported if it is malformed. -/
def startPacket (line raw : List UInt8) : VmHttpPacket :=
  match fromUtf8 line with
  | none => .error raw
  | some line =>
    ((parseHttpResponse line.toList).orElse fun _ => parseHttpRequest line.toList).getD (.error raw)

def decodeHttpStart (bytes : List UInt8) (options : VmPacketOptions) :
    Option VmPacketDecodeOutcome :=
  match findCrlf bytes with
  | none => some (incompleteText bytes options.packetSize)
  | some lineEnd =>
    let consumed := lineEnd + 2
    if exceedsLimit consumed options.packetSize then some .invalid
    else do
      let line ← slice bytes 0 lineEnd
      return completeHttp (startPacket line (← slice bytes 0 consumed)) consumed

def isBlankByte (byte : UInt8) : Bool := byte = 32 || byte = 9

/-- The packet of a header, with the bytes that are reported if it is malformed. -/
def headerPacket (line raw : List UInt8) : VmHttpPacket :=
  match fromUtf8 line with
  | none => .error raw
  | some line =>
    match splitOnce ':' line.toList with
    | none => .error raw
    | some (originalName, rest) =>
      if originalName = [] ∨
          originalName.any fun c => c = ' ' || c = '\t' || c = '\r' || c = '\n' then
        .error raw
      else
        let value := rest.dropWhile fun c => c = ' ' || c = '\t'
        let (knownIndex, canonicalName) := canonicalHeader originalName
        .header knownIndex canonicalName (.ofList originalName) (.ofList value)

/-- The loop over the continuation lines: where the header ends, or that its last line has no
end yet. -/
def headerEnd (bytes : List UInt8) (consumed : Nat) : Option (Option Nat) :=
  match _h : bytes[consumed]? with
  | none => some (some consumed)
  | some byte =>
    if isBlankByte byte then
      match sliceFrom bytes consumed with
      | none => none
      | some rest =>
        match findCrlf rest with
        | none => some none
        | some relativeEnd => headerEnd bytes (consumed + (relativeEnd + 2))
    else some (some consumed)
termination_by bytes.length - consumed
decreasing_by
  obtain ⟨within, -⟩ := List.getElem?_eq_some_iff.mp _h
  omega

def decodeHttpHeader (bytes : List UInt8) (options : VmPacketOptions) :
    Option VmPacketDecodeOutcome :=
  if [13, 10].isPrefixOf bytes then some (completeHttp .endOfHeaders 2)
  else
    match findCrlf bytes with
    | none => some (incompleteText bytes options.packetSize)
    | some firstEnd => do
      match ← headerEnd bytes (firstEnd + 2) with
      | none => return incompleteText bytes options.packetSize
      | some consumed =>
        if exceedsLimit consumed options.packetSize then return .invalid
        else
          let line ← slice bytes 0 (← checkedSub consumed 2)
          return completeHttp (headerPacket line (← slice bytes 0 consumed)) consumed

def decodePacket (mode : VmPacketMode) (options : VmPacketOptions) (bytes : List UInt8) :
    Option VmPacketDecodeOutcome :=
  match mode with
  | .line => decodeLine bytes options
  | .http => decodeHttpStart bytes options
  | .httpHeader => decodeHttpHeader bytes options
  | _ => decodeFixed mode bytes options

end Terlan.Packet
