import Httpd.Responses

namespace Httpd
set_option autoImplicit true

/-- The body of a response: bytes that are at hand, or so many bytes of an open file. -/
inductive Body where
  | text (bytes : Bytes)
  | file (count : UInt64) (contents : Bytes) (freads : List Nat)

namespace Body

def length : Body → UInt64
  | .text bytes => UInt64.ofNat bytes.length
  | .file count _ _ => count

def size : Body → Nat
  | .text bytes => bytes.length
  | .file count _ _ => count.toNat

def bytes : Body → Bytes
  | .text bytes => bytes
  | .file count contents _ => contents.take count.toNat

def send (outcomes : List SendOutcome) : Body → SendRun
  | .text bytes => sendAll outcomes bytes
  | .file count contents freads =>
    sendFileLoop count.toNat count.toNat contents freads outcomes

def Available : Body → Prop
  | .text _ => True
  | .file count contents _ => count.toNat ≤ contents.length

instance : DecidablePred Available
  | .text _ => isTrue trivial
  | .file count contents _ => inferInstanceAs (Decidable (count.toNat ≤ contents.length))

end Body

/-- What the server has chosen to answer, whether or not the body is asked for. -/
structure Answer where
  status : Nat
  head : Bytes
  body : Body

/-- How an answer is given; the result is filled in when all of it was sent. -/
def Answer.reply (answer : Answer) (headOnly : Bool) (outcomes : List SendOutcome) : Reply :=
  let run := (sendHeaders answer.head outcomes).andThen fun outcomes =>
    if headOnly then .done outcomes else answer.body.send outcomes
  run.report answer.status (if headOnly then 0 else answer.body.length)

def simpleAnswer (request : Option HttpRequest) (status : Nat) (body : Bytes) (keepAlive : Bool) :
    Answer where
  status := status
  head := headerText request status (httpStatusText status)
    [(ascii "Content-Type", ascii "text/plain"),
      (ascii "Content-Length", decimal body.length),
      (ascii "Connection", connectionText keepAlive)]
  body := .text body

def unsatisfiedFields (fileSize : UInt64) (keepAlive : Bool) : List (Bytes × Bytes) :=
  [(ascii "Content-Type", ascii "text/plain"),
    (ascii "Content-Length", decimal (ascii "Range Not Satisfiable\n").length),
    (ascii "Content-Range", ascii "bytes */" ++ decimal fileSize.toNat),
    (ascii "Connection", connectionText keepAlive)]

def rangeNotSatisfiableAnswer (request : HttpRequest) (fileSize : UInt64) (keepAlive : Bool) :
    Answer where
  status := 416
  head := headerText (some request) 416 (httpStatusText 416) (unsatisfiedFields fileSize keepAlive)
  body := .text (ascii "Range Not Satisfiable\n")

def fileFields (info : FileInfo) (range : ByteRange) (keepAlive : Bool) : List (Bytes × Bytes) :=
  if range.isPartial then
    [(ascii "Content-Type", info.mimeType),
      (ascii "Content-Length", decimal range.length.toNat),
      (ascii "Content-Range", ascii "bytes " ++ decimal range.start.toNat ++
        45 :: decimal range.last.toNat ++ 47 :: decimal info.size.toNat),
      (ascii "Accept-Ranges", ascii "bytes"),
      (ascii "Connection", connectionText keepAlive)]
  else
    [(ascii "Content-Type", info.mimeType),
      (ascii "Content-Length", decimal info.size.toNat),
      (ascii "Accept-Ranges", ascii "bytes"),
      (ascii "Connection", connectionText keepAlive)]

def rangeAnswer (os : Os) (request : HttpRequest) (info : FileInfo) (keepAlive : Bool)
    (file : Bytes) (range : ByteRange) : Answer where
  status := if range.isPartial then 206 else 200
  head :=
    if range.isPartial then
      headerText (some request) 206 (httpStatusText 206) (fileFields info range keepAlive)
    else headerText (some request) 200 (ascii "OK") (fileFields info range keepAlive)
  body := .file range.length (if range.isPartial then file.drop range.start.toNat else file) os.freads

def fileAnswer (os : Os) (request : HttpRequest) (info : FileInfo) (keepAlive : Bool) : Answer :=
  match os.fopen info.resolvedPath with
  | none => simpleAnswer (some request) 500 internalServerError false
  | some file =>
    match resolveRange request info.size with
    | none => rangeNotSatisfiableAnswer request info.size keepAlive
    | some range =>
      if range.isPartial ∧ !os.fseeko range.start then
        simpleAnswer (some request) 500 internalServerError false
      else rangeAnswer os request info keepAlive file range

def directoryAnswer (os : Os) (request : HttpRequest) (info : FileInfo) (keepAlive : Bool) : Answer :=
  match (fileBuildDirectoryListing 64 os request.path.str info.resolvedPath).1 with
  | none => simpleAnswer (some request) 500 internalServerError false
  | some body => {
      status := 200
      head := headerText (some request) 200 (ascii "OK")
        [(ascii "Content-Type", ascii "text/html"),
          (ascii "Content-Length", decimal body.length),
          (ascii "Connection", connectionText keepAlive)]
      body := .text body }

def answer (os : Os) (docRoot : Bytes) (request : HttpRequest) (keepAlive : Bool) : Answer :=
  if request.method = .unsupported then
    simpleAnswer (some request) 501 (ascii "Not Implemented\n") keepAlive
  else
    match fileStatPath os docRoot request.path.str with
    | .error failure =>
      let status := statusFromFileResult failure
      let body := (snprintf 128 (decimal status ++ 32 :: httpStatusText status ++ [lf])).2
      simpleAnswer (some request) status body keepAlive
    | .ok info =>
      match info.kind with
      | .directory => directoryAnswer os request info keepAlive
      | .regular => fileAnswer os request info keepAlive

theorem sendSimpleResponse_eq (request : Option HttpRequest) (status : Nat) (body : Bytes)
    (keepAlive : Bool) (outcomes : List SendOutcome) :
    sendSimpleResponse request status body keepAlive outcomes =
      (simpleAnswer request status body keepAlive).reply (!sendBody request) outcomes := by
  simp only [sendSimpleResponse, Answer.reply, simpleAnswer]
  cases sendBody request <;> rfl

theorem sendRangeNotSatisfiable_eq (request : HttpRequest) (fileSize : UInt64) (keepAlive : Bool)
    (outcomes : List SendOutcome) :
    sendRangeNotSatisfiable request fileSize keepAlive outcomes =
      (rangeNotSatisfiableAnswer request fileSize keepAlive).reply (!sendBody (some request))
        outcomes := by
  simp only [sendRangeNotSatisfiable, Answer.reply, rangeNotSatisfiableAnswer]
  cases sendBody (some request) <;> rfl

theorem headOnly_iff (request : HttpRequest) :
    (!sendBody (some request)) = decide (request.method = .head) := by
  cases hm : request.method <;> simp only [sendBody, hm] <;> rfl

theorem sendFileResponse_eq (os : Os) (request : HttpRequest) (info : FileInfo) (keepAlive : Bool)
    (outcomes : List SendOutcome) :
    sendFileResponse os request info keepAlive outcomes =
      (fileAnswer os request info keepAlive).reply (!sendBody (some request)) outcomes := by
  simp only [sendFileResponse, fileAnswer]
  cases os.fopen info.resolvedPath with
  | none => exact sendSimpleResponse_eq (some request) 500 internalServerError false outcomes
  | some file =>
    cases resolveRange request info.size with
    | none => exact sendRangeNotSatisfiable_eq request info.size keepAlive outcomes
    | some range =>
      simp only
      split
      · exact sendSimpleResponse_eq (some request) 500 internalServerError false outcomes
      · rw [headOnly_iff]
        simp only [rangeAnswer, Answer.reply, fileFields, decide_eq_true_eq]
        cases range.isPartial <;> rfl

theorem sendDirectoryResponse_eq (os : Os) (request : HttpRequest) (info : FileInfo)
    (keepAlive : Bool) (outcomes : List SendOutcome) :
    sendDirectoryResponse os request info keepAlive outcomes =
      (directoryAnswer os request info keepAlive).reply (!sendBody (some request)) outcomes := by
  simp only [sendDirectoryResponse, directoryAnswer]
  cases (fileBuildDirectoryListing 64 os request.path.str info.resolvedPath).1 with
  | none => exact sendSimpleResponse_eq (some request) 500 internalServerError false outcomes
  | some body =>
    rw [headOnly_iff]
    simp only [Answer.reply, decide_eq_true_eq]
    rfl

/-- What `handle_client` does with a request is to choose an answer and to give it. -/
theorem respond_eq (os : Os) (docRoot : Bytes) (request : HttpRequest) (keepAlive : Bool)
    (outcomes : List SendOutcome) :
    respond os docRoot request keepAlive outcomes =
      (answer os docRoot request keepAlive).reply (!sendBody (some request)) outcomes := by
  simp only [respond, answer]
  by_cases hm : request.method = .unsupported
  · rw [if_pos hm, if_pos hm]
    exact sendSimpleResponse_eq (some request) 501 _ keepAlive outcomes
  · rw [if_neg hm, if_neg hm]
    cases fileStatPath os docRoot request.path.str with
    | error failure => exact sendSimpleResponse_eq (some request) _ _ keepAlive outcomes
    | ok info =>
      cases hk : info.kind with
      | directory =>
        simp only [hk]
        exact sendDirectoryResponse_eq os request info keepAlive outcomes
      | regular =>
        simp only [hk]
        exact sendFileResponse_eq os request info keepAlive outcomes

end Httpd
