import Liano.Efi
import Liano.Lib.Bytes

/-! The parser of an HTTP message body (DxeHttpLib.c): its state is set up from the headers, each call
gets a buffer with the next bytes, and the data of the body go to a callback. -/
namespace Liano.Http

/-- A header, with its name and value up to their NUL. -/
structure EfiHttpHeader where
  fieldName : Bytes
  fieldValue : Bytes
deriving DecidableEq, Repr

inductive EfiHttpMethod
  | get | post | patch | options | connect | head | put | delete | trace | max
deriving DecidableEq, Repr

inductive EfiHttpStatusCode
  | continue100
  | switchingProtocols101
  | noContent204
  | notModified304
  | other (code : Nat)
deriving DecidableEq, Repr

def asciiCharToUpper (c : UInt8) : UInt8 := if 97 ≤ c ∧ c ≤ 122 then c-32 else c

def asciiStriCmp : Bytes → Bytes → Int
  | [], [] => 0
  | [], b :: _ => -((asciiCharToUpper b).toNat : Int)
  | a :: _, [] => (asciiCharToUpper a).toNat
  | a :: as, b :: bs =>
    if asciiCharToUpper a = asciiCharToUpper b then asciiStriCmp as bs
    else ((asciiCharToUpper a).toNat : Int) - (asciiCharToUpper b).toNat

def httpFindHeader (headers : List EfiHttpHeader) (fieldName : Bytes) : Option EfiHttpHeader :=
  headers.find? fun h => asciiStriCmp h.fieldName fieldName == 0

def ascii (s : String) : Bytes := s.toList.map fun c => UInt8.ofNat c.toNat

def httpHeaderContentLength : Bytes := ascii "Content-Length"
def httpHeaderTransferEncoding : Bytes := ascii "Transfer-Encoding"

def isDecimalDigit (c : UInt8) : Bool := decide (48 ≤ c ∧ c ≤ 57)

/-- The loop of AsciiStrDecimalToUintnS over the digits. -/
def decimalDigits : Bytes → Nat → EfiStatus × Nat
  | [], data => (.success, data)
  | c :: rest, data =>
    if isDecimalDigit c = true then
      if data > (2^64-1 - (c.toNat-48)) / 10 then (.unsupported, 2^64-1)
      else decimalDigits rest (data*10 + (c.toNat-48))
    else (.success, data)

/-- PcdMaximumAsciiStringLength -/
def asciiRsizeMax : Nat := 1000000

/-- AsciiStrDecimalToUintnS, with what is in the variable for the result before. -/
def asciiStrDecimalToUintnS (s : Bytes) (data : Nat) : EfiStatus × Nat :=
  if s.length > asciiRsizeMax then (.invalidParameter, data)
  else decimalDigits ((s.dropWhile fun c => c = 32 ∨ c = 9).dropWhile (· = 48)) 0

def httpIoParseContentLengthHeader (headers : List EfiHttpHeader) (contentLength : Nat) :
    EfiStatus × Nat := match httpFindHeader headers httpHeaderContentLength with
  | none => (.notFound, contentLength)
  | some header => asciiStrDecimalToUintnS header.fieldValue contentLength

def httpIoIsChunked (headers : List EfiHttpHeader) : Bool :=
  match httpFindHeader headers httpHeaderTransferEncoding with
  | none => false
  | some header => asciiStriCmp header.fieldValue (ascii "identity") != 0

def httpIoNoMessageBody (method : EfiHttpMethod) (statusCode : EfiHttpStatusCode) : Bool :=
  method == .head || statusCode == .continue100 || statusCode == .switchingProtocols101 ||
    statusCode == .noContent204 || statusCode == .notModified304

inductive HttpBodyParseState
  | bodyStart
  | bodyIdentity
  | chunkSizeStart
  | chunkSize
  | chunkSizeEndCR
  | chunkExtStart
  | chunkDataStart
  | chunkDataEnd
  | chunkDataEndCR
  | trailer
  | lastCRLF
  | lastCRLFEnd
  | complete
  | stateMax
deriving DecidableEq, Repr

inductive BodyParseEvent
  | onData (data : Bytes)
  | onComplete
deriving DecidableEq, Repr

/-- HTTP_BODY_PARSER_CALLBACK: the status that it returns for an event. -/
abbrev HttpBodyParserCallback := BodyParseEvent → EfiStatus

/-- HTTP_BODY_PARSER. The callback is a parameter of the functions below. -/
structure HttpBodyParser where
  ignoreBody : Bool
  isChunked : Bool
  contentLengthIsValid : Bool
  contentLength : Nat
  parsedBodyLength : Nat
  state : HttpBodyParseState
  currentChunkSize : Nat
  currentChunkParsedSize : Nat
deriving DecidableEq, Repr

/-- HttpInitMsgParser, where the memory for the parser can be allocated. -/
def httpInitMsgParser (method : EfiHttpMethod) (statusCode : EfiHttpStatusCode)
    (headers : List EfiHttpHeader) : HttpBodyParser := let ignoreBody := httpIoNoMessageBody method statusCode
  let length := httpIoParseContentLengthHeader headers 0
  { ignoreBody := ignoreBody
    isChunked := httpIoIsChunked headers
    contentLengthIsValid := !length.1.isError
    contentLength := length.2
    parsedBodyLength := 0
    state := if ignoreBody = true then .complete else .bodyStart
    currentChunkSize := 0
    currentChunkParsedSize := 0 }

def netIsHexChar (c : UInt8) : Bool :=
  decide (48 ≤ c ∧ c ≤ 57) || decide (65 ≤ c ∧ c ≤ 70) || decide (97 ≤ c ∧ c ≤ 102)

def httpIoHexCharToUintn (c : UInt8) : Nat :=
  if 48 ≤ c ∧ c ≤ 57 then c.toNat-48 else 10 + (asciiCharToUpper c).toNat - 65

def cr : UInt8 := 13
def lf : UInt8 := 10
def semicolon : UInt8 := 59

inductive BodyStep
  | returns (status : EfiStatus) (p : HttpBodyParser) (events : List BodyParseEvent)
  | goesOn (p : HttpBodyParser) (rest : Bytes) (events : List BodyParseEvent)
deriving DecidableEq, Repr

section
variable (f : HttpBodyParserCallback)

def callback (event : BodyParseEvent) (p : HttpBodyParser)
    (events : List BodyParseEvent) (next : List BodyParseEvent → BodyStep) : BodyStep :=
  if (f event).isError = true then .returns (f event) p (events ++ [event])
  else next (events ++ [event])

/-- The case BodyParserBodyIdentity, with the length of the buffer. -/
def identityStep (bodyLength : Nat) (p : HttpBodyParser)
    (rest : Bytes) : BodyStep :=
  let length := min bodyLength (toUint64 (p.contentLength + (2^64-p.parsedBodyLength)))
  callback f (.onData (rest.take length)) p [] fun events =>
    let p := { p with parsedBodyLength := toUint64 (p.parsedBodyLength+length) }
    if p.parsedBodyLength = p.contentLength then
      let p := { p with state := .complete }
      callback f .onComplete p events fun events => .goesOn p (rest.drop length) events
    else .goesOn p (rest.drop length) events

/-- The case BodyParserChunkSize, for the next byte. -/
def chunkSizeStep (p : HttpBodyParser) (c : UInt8) (rest : Bytes) : BodyStep := if netIsHexChar c = false then
    if c = semicolon then .goesOn { p with state := .chunkExtStart } rest []
    else if c = cr then .goesOn { p with state := .chunkSizeEndCR } rest []
    else .goesOn { p with state := .stateMax } (c :: rest) []
  else if p.currentChunkSize > (2^64-1-16) / 16 then .returns .invalidParameter p []
  else .goesOn { p with currentChunkSize := p.currentChunkSize*16 + httpIoHexCharToUintn c } rest []

/-- The case BodyParserChunkDataStart. -/
def chunkDataStep (p : HttpBodyParser) (rest : Bytes) : BodyStep :=
  let length := min (p.currentChunkSize-p.currentChunkParsedSize) rest.length
  callback f (.onData (rest.take length)) p [] fun events =>
    let p := { p with
      contentLength := toUint64 (p.contentLength+length)
      currentChunkParsedSize := p.currentChunkParsedSize + length }
    .goesOn (if p.currentChunkParsedSize = p.currentChunkSize then { p with state := .chunkDataEnd }
      else p) (rest.drop length) events

/-- One round of the loop of HttpParseMessageBody, with the next byte and those behind it. -/
def bodyStep (bodyLength : Nat) (p : HttpBodyParser) (c : UInt8)
    (rest : Bytes) : BodyStep := match p.state with
  | .stateMax => .returns .aborted p []
  | .bodyIdentity => identityStep f bodyLength p (c :: rest)
  | .chunkSizeStart => chunkSizeStep { p with currentChunkSize := 0, state := .chunkSize } c rest
  | .chunkSize => chunkSizeStep p c rest
  | .chunkExtStart => .goesOn (if c = cr then { p with state := .chunkSizeEndCR } else p) rest []
  | .chunkSizeEndCR =>
    if c ≠ lf then .goesOn { p with state := .stateMax } (c :: rest) []
    else if p.currentChunkSize = 0 then
      .goesOn { p with contentLengthIsValid := true, state := .lastCRLF } rest []
    else .goesOn { p with state := .chunkDataStart, currentChunkParsedSize := 0 } rest []
  | .lastCRLF =>
    if c = cr then .goesOn { p with state := .lastCRLFEnd } rest []
    else .goesOn { p with state := .trailer } (c :: rest) []
  | .lastCRLFEnd =>
    if c = lf then
      let p := { p with state := .complete }
      callback f .onComplete p [] fun events => .goesOn p rest events
    else .goesOn { p with state := .stateMax } (c :: rest) []
  | .trailer => .goesOn (if c = cr then { p with state := .chunkSizeEndCR } else p) rest []
  | .chunkDataStart => chunkDataStep f p (c :: rest)
  | .chunkDataEnd => .goesOn { p with state := if c = cr then .chunkDataEndCR else .stateMax } rest []
  | .chunkDataEndCR =>
    if c ≠ lf then .goesOn { p with state := .stateMax } (c :: rest) []
    else .goesOn { p with state := .chunkSizeStart } rest []
  -- `default: break`
  | .bodyStart | .complete => .goesOn p (c :: rest) []

structure ParseResult where
  status : EfiStatus
  parser : HttpBodyParser
  events : List BodyParseEvent
deriving DecidableEq, Repr

/-- The loop of HttpParseMessageBody; none where the fuel does not suffice. -/
def parseLoop (f : HttpBodyParserCallback) (bodyLength : Nat) :
    Nat → HttpBodyParser → Bytes → List BodyParseEvent → Option ParseResult
  | 0, _, _, _ => none
  | _+1, p, [], events => some ⟨if p.state = .stateMax then .aborted else .success, p, events⟩
  | fuel+1, p, c :: rest, events =>
    match bodyStep f bodyLength p c rest with
    | .returns status p more => some ⟨status, p, events ++ more⟩
    | .goesOn p rest more => parseLoop f bodyLength fuel p rest (events ++ more)

def startBody (p : HttpBodyParser) : HttpBodyParser :=
  if p.state = .bodyStart then
    { p with
      parsedBodyLength := 0
      state := if p.isChunked = true then .chunkSizeStart else .bodyIdentity }
  else p

/-- HttpParseMessageBody, for a parser that has been initialized. -/
def httpParseMessageBody (fuel : Nat) (p : HttpBodyParser)
    (body : Bytes) : Option ParseResult :=
  if body.length = 0 then some ⟨.invalidParameter, p, []⟩
  -- the callback of such a parser is NULL
  else if p.ignoreBody = true then some ⟨.success, { p with state := .complete }, []⟩
  else parseLoop f body.length fuel (startBody p) body []

end

def httpIsMessageComplete (p : HttpBodyParser) : Bool := p.state == .complete

/-- HttpGetEntityLength, none for EFI_NOT_READY. -/
def httpGetEntityLength (p : HttpBodyParser) : Option Nat :=
  if p.contentLengthIsValid = true then some p.contentLength else none

def parseBuffers (f : HttpBodyParserCallback) (fuel : Nat) :
    HttpBodyParser → List Bytes → List BodyParseEvent → Option ParseResult
  | p, [], events => some ⟨.success, p, events⟩
  | p, body :: buffers, events =>
    (httpParseMessageBody f fuel p body).bind fun r =>
      if r.status.isError = true then some { r with events := events ++ r.events }
      else parseBuffers f fuel r.parser buffers (events ++ r.events)

def BodyParseEvent.data : BodyParseEvent → Bytes
  | .onData data => data
  | .onComplete => []

def eventsData (events : List BodyParseEvent) : Bytes := events.flatMap BodyParseEvent.data

end Liano.Http
