import Httpd.ResponseFraming
import Httpd.StreamFraming

namespace Httpd
set_option autoImplicit true

/-- Everything a connection meets: the server's settings, what its calls to the system answer,
the `k`th request seeing `os k`, and what the socket has in store. -/
structure Connection where
  docRoot : Bytes
  clientIp : Bytes
  os : Nat → Os
  arrivals : List Arrival
  outcomes : List SendOutcome

structure LogEntry where
  clientIp : Bytes
  requestLine : Bytes
  result : ResponseResult
  deriving DecidableEq

/-- What a pass of the loop of `handle_client` did; `complete` if all of a response was sent. -/
structure Turn where
  read : ReadOutcome
  events : List SocketEvent
  complete : Bool
  log : Option LogEntry

/-- One pass of the loop, and where the next one starts if there is one. -/
def clientPass (c : Connection) (k : Nat) (s : ReadState) (outcomes : List SendOutcome) :
    Turn × Option (ReadState × List SendOutcome) :=
  let result := readNextRequest s
  match result.outcome with
  | .eof => (⟨.eof, result.events, false, none⟩, none)
  | .bad =>
    let reply := sendSimpleResponse none 400 (ascii "Bad Request\n") false outcomes
    (⟨.bad, result.events ++ reply.run.events, reply.run.ok,
      some ⟨c.clientIp, badRequestLine result.state.buffer, reply.result⟩⟩, none)
  | .request request requestLine head =>
    let keepGoing := httpShouldKeepAlive request
    let reply := respond (c.os k) c.docRoot request keepGoing outcomes
    let log := if reply.run.ok then some ⟨c.clientIp, requestLine, reply.result⟩ else none
    (⟨.request request requestLine head, result.events ++ reply.run.events, reply.run.ok, log⟩,
      if reply.run.ok && keepGoing then some (result.state, reply.run.rest) else none)

def clientLoop (c : Connection) : Nat → Nat → ReadState → List SendOutcome → List Turn
  | 0, _, _, _ => []
  | fuel + 1, k, s, outcomes =>
    match clientPass c k s outcomes with
    | (turn, none) => [turn]
    | (turn, some (s, outcomes)) => turn :: clientLoop c fuel (k + 1) s outcomes

/-- The passes of `handle_client`; every one but the last takes a request off the stream. -/
def handleClient (c : Connection) : List Turn :=
  clientLoop c ((streamOf c.arrivals).length + 1) 0 (.initial c.arrivals) c.outcomes

def Connection.trace (c : Connection) : List SocketEvent :=
  (handleClient c).flatMap Turn.events ++ [.closed]

def ReadOutcome.headOnly : ReadOutcome → Bool
  | .request taken _ _ => !sendBody (some taken)
  | _ => false

end Httpd
