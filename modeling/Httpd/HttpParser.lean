import Httpd.Bytes
import Httpd.Lib.Scan
import Mathlib.Data.List.DropRight

namespace Httpd
open Scan
set_option autoImplicit true

inductive HttpMethod where
  | get
  | head
  | unsupported
  deriving DecidableEq

inductive HttpVersion where
  | http10
  | http11
  | unknown
  deriving DecidableEq

def httpMethodTextMax : Nat := 16
def httpPathMax : Nat := 1024
def httpVersionTextMax : Nat := 16
def httpConnectionTextMax : Nat := 32

structure HttpRequest where
  methodText : CharArray httpMethodTextMax
  path : CharArray httpPathMax
  versionText : CharArray httpVersionTextMax
  connection : CharArray httpConnectionTextMax
  method : HttpMethod
  version : HttpVersion
  keepAliveRequested : Bool
  hasRange : Bool
  rangeIsSuffix : Bool
  rangeEndProvided : Bool
  rangeStart : UInt64
  rangeEnd : UInt64
  deriving DecidableEq

def HttpRequest.zero : HttpRequest where
  methodText := .zero _ (by decide)
  path := .zero _ (by decide)
  versionText := .zero _ (by decide)
  connection := .zero _ (by decide)
  method := .get
  version := .http10
  keepAliveRequested := false
  hasRange := false
  rangeIsSuffix := false
  rangeEndProvided := false
  rangeStart := 0
  rangeEnd := 0

def asciiCaseEqual : Bytes → Bytes → Bool
  | [], [] => true
  | l :: left, r :: right => toLower l = toLower r && asciiCaseEqual left right
  | _, _ => false

def asciiCaseEqualBounded (text expected : Bytes) : Bool :=
  if text.length ≠ expected.length then false else asciiCaseEqual text expected

def findCrlf (text : Bytes) : Option Nat := firstOccurrence crlf text

def isSpaceOrTab (c : UInt8) : Bool := c = 32 ∨ c = 9

def skipSpaces (text : Bytes) : Bytes := text.dropWhile isSpaceOrTab

def trimTrailingSpan (text : Bytes) : Bytes :=
  text.rdropWhile fun c => isSpaceOrTab c ∨ c = cr ∨ c = lf

def sizeMax : UInt64 := 18446744073709551615

def parseSizeDigits (parsed : UInt64) : Bytes → Option UInt64
  | [] => some parsed
  | c :: rest =>
    if !isDigit c then none
    else
      let digit := (c - 48).toUInt64
      if parsed > (sizeMax - digit) / 10 then none
      else parseSizeDigits (parsed * 10 + digit) rest

def parseSizeToken (token : Bytes) : Option UInt64 :=
  if token = [] then none else parseSizeDigits 0 token

def parseRangeHeader (value : Bytes) (request : HttpRequest) : HttpRequest :=
  let value := skipSpaces (trimTrailingSpan value)
  if value.length < 6 ∨ !asciiCaseEqualBounded (value.take 6) (ascii "bytes=") then request
  else
    let rangeSpec := value.drop 6
    if rangeSpec = [] then request
    else if 44 ∈ rangeSpec then request
    else
      match rangeSpec.idxOf? 45 with
      | none => request
      | some 0 =>
        match parseSizeToken (rangeSpec.drop 1) with
        | none => request
        | some parsed =>
          if parsed = 0 then request
          else { request with hasRange := true, rangeIsSuffix := true, rangeStart := parsed }
      | some dash =>
        match parseSizeToken (rangeSpec.take dash) with
        | none => request
        | some parsed =>
          let request : HttpRequest := { request with hasRange := true, rangeStart := parsed }
          let endToken := rangeSpec.drop (dash + 1)
          if endToken = [] then request
          else
            match parseSizeToken endToken with
            | none => { request with hasRange := false }
            | some parsed => { request with rangeEndProvided := true, rangeEnd := parsed }

def parseHeaderLine (line : Bytes) (request : HttpRequest) : HttpRequest :=
  match line.idxOf? 58 with
  | none => request
  | some colon =>
    let value := trimTrailingSpan (skipSpaces (line.drop (colon + 1)))
    if asciiCaseEqualBounded (line.take colon) (ascii "Connection") then
      { request with connection := request.connection.copyBounded value }
    else if asciiCaseEqualBounded (line.take colon) (ascii "Range") then
      parseRangeHeader value request
    else request

/-- The loop of `parse_headers`; every round consumes a line, so the length is fuel enough. -/
def parseHeadersLoop : Nat → Bytes → HttpRequest → HttpRequest
  | 0, _, request => request
  | fuel + 1, headers, request =>
    match findCrlf headers with
    | none => request
    | some 0 => request
    | some lineLen =>
      parseHeadersLoop fuel (headers.drop (lineLen + 2))
        (parseHeaderLine (headers.take lineLen) request)

def parseHeaders (headers : Bytes) (request : HttpRequest) : HttpRequest :=
  parseHeadersLoop headers.length headers request

def parseMethod (methodText : Bytes) : HttpMethod :=
  if methodText = ascii "GET" then .get
  else if methodText = ascii "HEAD" then .head
  else .unsupported

def parseVersion (versionText : Bytes) : HttpVersion :=
  if versionText = ascii "HTTP/1.0" then .http10
  else if versionText = ascii "HTTP/1.1" then .http11
  else .unknown

/-- `none` is `HTTP_PARSE_BAD_REQUEST`. -/
def httpParseRequest (raw : Bytes) : Option HttpRequest :=
  match findCrlf raw with
  | none => none
  | some requestLineLen =>
    let line := raw.take requestLineLen
    match line.idxOf? 32 with
    | none => none
    | some firstSpace =>
      let afterMethod := line.drop (firstSpace + 1)
      match afterMethod.idxOf? 32 with
      | none => none
      | some targetLen =>
        let versionBytes := afterMethod.drop (targetLen + 1)
        if targetLen = 0 then none
        else if firstSpace = 0 ∨ versionBytes = [] then none
        else
          let target := afterMethod.take targetLen
          let pathLen := (target.idxOf? 63).getD targetLen
          if pathLen = 0 then none
          else
            let request : HttpRequest := { HttpRequest.zero with
              methodText := HttpRequest.zero.methodText.copyBounded (line.take firstSpace)
              path := HttpRequest.zero.path.copyBounded (target.take pathLen)
              versionText := HttpRequest.zero.versionText.copyBounded versionBytes }
            let request : HttpRequest := { request with
              method := parseMethod request.methodText.str
              version := parseVersion request.versionText.str }
            if request.version = .unknown then none
            else
              let request := parseHeaders (raw.drop (requestLineLen + 2)) request
              let connection := request.connection.str
              some { request with
                keepAliveRequested :=
                  (if request.version = .http11 then !asciiCaseEqual connection (ascii "close")
                  else asciiCaseEqual connection (ascii "keep-alive")) }

def httpShouldKeepAlive (request : HttpRequest) : Bool := request.keepAliveRequested

def httpStatusText (statusCode : Nat) : Bytes :=
  match statusCode with
  | 200 => ascii "OK"
  | 206 => ascii "Partial Content"
  | 400 => ascii "Bad Request"
  | 403 => ascii "Forbidden"
  | 404 => ascii "Not Found"
  | 416 => ascii "Range Not Satisfiable"
  | 500 => ascii "Internal Server Error"
  | 501 => ascii "Not Implemented"
  | 503 => ascii "Service Unavailable"
  | _ => ascii "Unknown"

theorem asciiCaseEqual_iff (left right : Bytes) :
    asciiCaseEqual left right = true ↔ left.map toLower = right.map toLower := by
  induction left generalizing right with
  | nil =>
    cases right with
    | nil => exact ⟨fun _ => rfl, fun _ => rfl⟩
    | cons r right => exact ⟨nofun, nofun⟩
  | cons l left ih =>
    cases right with
    | nil => exact ⟨nofun, nofun⟩
    | cons r right =>
      rw [asciiCaseEqual, Bool.and_eq_true, decide_eq_true_iff, ih, List.map_cons, List.map_cons,
        List.cons.injEq]

theorem parseHeadersLoop_fuel {headers : Bytes} (h : headers.length ≤ fuel)
    (h' : headers.length ≤ fuel') (request : HttpRequest) :
    parseHeadersLoop fuel headers request = parseHeadersLoop fuel' headers request := by
  induction fuel generalizing fuel' headers request with
  | zero =>
    have hn : headers = [] := List.length_eq_zero_iff.1 (Nat.le_zero.1 h)
    subst hn
    cases fuel' <;> rfl
  | succ fuel ih =>
    cases fuel' with
    | zero =>
      have hn : headers = [] := List.length_eq_zero_iff.1 (Nat.le_zero.1 h')
      subst hn
      rfl
    | succ fuel' =>
      simp only [parseHeadersLoop]
      cases hc : findCrlf headers with
      | none => rfl
      | some n =>
        have hb := firstOccurrence_bound hc
        cases n with
        | zero => rfl
        | succ n =>
          apply ih <;> rw [List.length_drop] <;> simp only [crlf, List.length_cons] at hb <;> omega

example : (httpParseRequest (ascii "GET /a?b HTTP/1.1\r\nRange: bytes=7-10\r\n\r\n")).map
    (fun r => (r.path.str, r.hasRange, r.rangeStart, r.rangeEnd, r.keepAliveRequested)) =
      some (ascii "/a", true, 7, 10, true) := by decide

end Httpd
