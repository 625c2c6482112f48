import Httpd.DirectoryListing
import Httpd.MessageHead

namespace Httpd
set_option autoImplicit true

def responseBufferSize : Nat := 8192

/-- One result the kernel has in store for the `send` calls on a connection. A call that
takes bytes takes at least one; once the list is used up every call takes all it is given. -/
inductive SendOutcome where
  | took (extra : Nat)
  | interrupted
  | zero
  | failed
  | broken
  deriving DecidableEq

structure SendRun where
  events : List SocketEvent
  ok : Bool
  rest : List SendOutcome

def SocketEvent.sentBytes : SocketEvent → Bytes
  | .sent chunk => chunk
  | _ => []

def wire (events : List SocketEvent) : Bytes := events.flatMap SocketEvent.sentBytes

namespace SendRun

def done (outcomes : List SendOutcome) : SendRun := ⟨[], true, outcomes⟩

def refused (outcomes : List SendOutcome) : SendRun := ⟨[], false, outcomes⟩

def andThen (first : SendRun) (next : List SendOutcome → SendRun) : SendRun :=
  if first.ok then
    ⟨first.events ++ (next first.rest).events, (next first.rest).ok, (next first.rest).rest⟩
  else first

end SendRun

def sendAll : List SendOutcome → Bytes → SendRun
  | [], data => if data = [] then .done [] else ⟨[.sent data], true, []⟩
  | outcome :: outcomes, data =>
    if data = [] then .done (outcome :: outcomes)
    else
      match outcome with
      | .took extra =>
        let later := sendAll outcomes (data.drop (extra + 1))
        { later with events := .sent (data.take (extra + 1)) :: later.events }
      | .interrupted =>
        let later := sendAll outcomes data
        { later with events := .sendInterrupted :: later.events }
      | .zero => ⟨[.sent []], false, outcomes⟩
      | .failed => ⟨[.sendFailed], false, outcomes⟩
      | .broken => ⟨[.sendBroken], false, outcomes⟩

/-- `snprintf` into `headers`, then `send_all` of what it wrote. -/
def sendHeaders (text : Bytes) (outcomes : List SendOutcome) : SendRun :=
  let (headerLen, headers) := snprintf responseBufferSize text
  if headerLen < 0 ∨ headerLen ≥ responseBufferSize then .refused outcomes
  else sendAll outcomes (headers.take headerLen.toNat)

structure ResponseResult where
  statusCode : Nat
  bodyBytes : UInt64
  deriving DecidableEq

structure Reply where
  run : SendRun
  result : ResponseResult

/-- The result is filled in only when all was sent. -/
def SendRun.report (run : SendRun) (statusCode : Nat) (bodyBytes : UInt64) : Reply :=
  ⟨run, if run.ok then ⟨statusCode, bodyBytes⟩ else ⟨0, 0⟩⟩

def responseVersion (request : Option HttpRequest) : Bytes :=
  match request with
  | some request => if request.version = .http10 then ascii "HTTP/1.0" else ascii "HTTP/1.1"
  | none => ascii "HTTP/1.1"

def connectionText (keepAlive : Bool) : Bytes :=
  if keepAlive then ascii "keep-alive" else ascii "close"

/-- What the format strings of the response builders expand to. -/
def headerText (request : Option HttpRequest) (status : Nat) (reason : Bytes)
    (fields : List (Bytes × Bytes)) : Bytes :=
  headText ((responseVersion request ++ 32 :: decimal status ++ 32 :: reason) ::
    fields.map fieldLine)

def sendBody (request : Option HttpRequest) : Bool :=
  match request with
  | some request => request.method ≠ .head
  | none => true

def sendSimpleResponse (request : Option HttpRequest) (status : Nat) (body : Bytes)
    (keepAlive : Bool) (outcomes : List SendOutcome) : Reply :=
  let text := headerText request status (httpStatusText status)
    [(ascii "Content-Type", ascii "text/plain"),
      (ascii "Content-Length", decimal body.length),
      (ascii "Connection", connectionText keepAlive)]
  let run := (sendHeaders text outcomes).andThen fun outcomes =>
    if sendBody request then sendAll outcomes body else .done outcomes
  run.report status (if sendBody request then UInt64.ofNat body.length else 0)

structure ByteRange where
  start : UInt64
  last : UInt64
  length : UInt64
  isPartial : Bool
  deriving DecidableEq

def resolveRange (request : HttpRequest) (fileSize : UInt64) : Option ByteRange :=
  if !request.hasRange then
    some ⟨0, if fileSize = 0 then 0 else fileSize - 1, fileSize, false⟩
  else if fileSize = 0 then none
  else if request.rangeIsSuffix then
    let suffixLength := request.rangeStart
    let start := if suffixLength ≥ fileSize then 0 else fileSize - suffixLength
    some ⟨start, fileSize - 1, fileSize - 1 - start + 1, true⟩
  else if request.rangeStart ≥ fileSize then none
  else
    let start := request.rangeStart
    let last := if request.rangeEndProvided then request.rangeEnd else fileSize - 1
    if last < start then none
    else
      let last := if last ≥ fileSize then fileSize - 1 else last
      some ⟨start, last, last - start + 1, true⟩

def sendRangeNotSatisfiable (request : HttpRequest) (fileSize : UInt64) (keepAlive : Bool)
    (outcomes : List SendOutcome) : Reply :=
  let body := ascii "Range Not Satisfiable\n"
  let text := headerText (some request) 416 (httpStatusText 416)
    [(ascii "Content-Type", ascii "text/plain"),
      (ascii "Content-Length", decimal body.length),
      (ascii "Content-Range", ascii "bytes */" ++ decimal fileSize.toNat),
      (ascii "Connection", connectionText keepAlive)]
  let run := (sendHeaders text outcomes).andThen fun outcomes =>
    if sendBody (some request) then sendAll outcomes body else .done outcomes
  run.report 416 (if sendBody (some request) then UInt64.ofNat body.length else 0)

/-- One `fread`: the bytes it delivers, those still in the file, the results still in store. -/
def fread (want : Nat) (file : Bytes) (freads : List Nat) : Bytes × Bytes × List Nat :=
  let got := match freads with
    | [] => want
    | extra :: _ => min want (extra + 1)
  (file.take got, file.drop got, freads.tail)

/-- The `while (remaining > 0)` loop; every round sends a byte, so `remaining` is fuel enough. -/
def sendFileLoop : Nat → Nat → Bytes → List Nat → List SendOutcome → SendRun
  | 0, _, _, _, outcomes => .done outcomes
  | fuel + 1, remaining, file, freads, outcomes =>
    if remaining = 0 then .done outcomes
    else
      let want := if remaining < readBufferSize then remaining else readBufferSize
      let (buffer, file, freads) := fread want file freads
      if buffer = [] then .refused outcomes
      else (sendAll outcomes buffer).andThen fun outcomes =>
        sendFileLoop fuel (remaining - buffer.length) file freads outcomes

def internalServerError : Bytes := ascii "Internal Server Error\n"

def sendFileResponse (os : Os) (request : HttpRequest) (info : FileInfo) (keepAlive : Bool)
    (outcomes : List SendOutcome) : Reply :=
  match os.fopen info.resolvedPath with
  | none => sendSimpleResponse (some request) 500 internalServerError false outcomes
  | some file =>
    match resolveRange request info.size with
    | none => sendRangeNotSatisfiable request info.size keepAlive outcomes
    | some range =>
      if range.isPartial ∧ !os.fseeko range.start then
        sendSimpleResponse (some request) 500 internalServerError false outcomes
      else
        let file := if range.isPartial then file.drop range.start.toNat else file
        let status := if range.isPartial then 206 else 200
        let text :=
          if range.isPartial then
            headerText (some request) 206 (httpStatusText 206)
              [(ascii "Content-Type", info.mimeType),
                (ascii "Content-Length", decimal range.length.toNat),
                (ascii "Content-Range", ascii "bytes " ++ decimal range.start.toNat ++
                  45 :: decimal range.last.toNat ++ 47 :: decimal info.size.toNat),
                (ascii "Accept-Ranges", ascii "bytes"),
                (ascii "Connection", connectionText keepAlive)]
          else
            headerText (some request) 200 (ascii "OK")
              [(ascii "Content-Type", info.mimeType),
                (ascii "Content-Length", decimal info.size.toNat),
                (ascii "Accept-Ranges", ascii "bytes"),
                (ascii "Connection", connectionText keepAlive)]
        let run := (sendHeaders text outcomes).andThen fun outcomes =>
          if request.method = .head then .done outcomes
          else sendFileLoop range.length.toNat range.length.toNat file os.freads outcomes
        run.report status (if request.method = .head then 0 else range.length)

def sendDirectoryResponse (os : Os) (request : HttpRequest) (info : FileInfo) (keepAlive : Bool)
    (outcomes : List SendOutcome) : Reply :=
  match (fileBuildDirectoryListing 64 os request.path.str info.resolvedPath).1 with
  | none => sendSimpleResponse (some request) 500 internalServerError false outcomes
  | some body =>
    let text := headerText (some request) 200 (ascii "OK")
      [(ascii "Content-Type", ascii "text/html"),
        (ascii "Content-Length", decimal body.length),
        (ascii "Connection", connectionText keepAlive)]
    let run := (sendHeaders text outcomes).andThen fun outcomes =>
      if request.method = .head then .done outcomes else sendAll outcomes body
    run.report 200 (if request.method = .head then 0 else UInt64.ofNat body.length)

def statusFromFileResult : FileFailure → Nat
  | .notFound => 404
  | .forbidden => 403
  | .error => 500

def respond (os : Os) (docRoot : Bytes) (request : HttpRequest) (keepAlive : Bool)
    (outcomes : List SendOutcome) : Reply :=
  if request.method = .unsupported then
    sendSimpleResponse (some request) 501 (ascii "Not Implemented\n") keepAlive outcomes
  else
    match fileStatPath os docRoot request.path.str with
    | .error failure =>
      let status := statusFromFileResult failure
      let body := (snprintf 128 (decimal status ++ 32 :: httpStatusText status ++ [lf])).2
      sendSimpleResponse (some request) status body keepAlive outcomes
    | .ok info =>
      match info.kind with
      | .directory => sendDirectoryResponse os request info keepAlive outcomes
      | .regular => sendFileResponse os request info keepAlive outcomes

end Httpd
