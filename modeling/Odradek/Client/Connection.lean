import Mathlib.Data.List.AList
import Odradek.Client.Error
import Odradek.Library.Program
import Odradek.Protocol.Header

/-!
A single broker connection (`conn.rs`): requests that share a socket, a lock
around its write half, and a table of the ones that wait for a reply. An
operation that awaits is where a request's future can be dropped, and inside
`request_unbounded` also where its deadline can pass.
-/

namespace Odradek.Client.Conn

open Library Odradek.Protocol

structure ConnCall where
  apiKey : Int16
  apiVersion : Int16
  body : Bytes
  deriving DecidableEq

def requestFrame (clientId : String) (call : ConnCall) (headerVersion : Int16)
    (correlationId : Int32) : Except EncodeError Bytes :=
  frame do
    let header ← RequestHeader.encode
      { requestApiKey := call.apiKey
        requestApiVersion := call.apiVersion
        correlationId
        clientId := some clientId
        unknownTaggedFields := [] } headerVersion
    pure (header ++ call.body)

abbrev Response := Except ClientError Bytes

/-- What has come of a request's `oneshot` channel. -/
inductive Reply
  | waiting
  | sent (response : Response)
  | hungUp
  deriving DecidableEq

structure Pending where
  responseHeaderVersion : Int16
  reply : Nat
  deriving DecidableEq

inductive ConnOp
  | throttleRemaining
  | sleep (pause : Int)
  | loadClosed
  | nextCorrelation
  | register (correlationId : Int32) (responseHeaderVersion : Int16)
  | unregister (correlationId : Int32)
  | lockWriter (correlationId : Int32)
  | write (correlationId : Int32) (rest : Bytes)
  | unlockWriter
  | reply (correlationId : Int32) (reply : Nat)
  | failAll
  | answer (response : Response)

/-- The deadline passed while the operation was awaited. -/
inductive Elapsed
  | elapsed
  deriving DecidableEq

@[reducible] def ConnOp.Res : ConnOp → Type
  | .throttleRemaining => Option Int
  | .loadClosed => Bool
  | .nextCorrelation => Int32
  | .register _ _ => Nat
  | .lockWriter _ => Except Elapsed Unit
  | .write _ _ => Except Elapsed (Except ClientError Nat)
  | .reply _ _ => Except Elapsed (Except ClientError Response)
  | _ => Unit

abbrev ConnProgram := Program ConnOp ConnOp.Res

def perform (op : ConnOp) : ConnProgram op.Res := Program.perform op

inductive Interrupt
  | elapsed
  | failed (error : ClientError)
  deriving DecidableEq

abbrev ConnTry := ExceptT Interrupt ConnProgram

def failWith {α : Type} (e : ClientError) : ConnTry α := throw (.failed e)

def awaited {α : Type} (call : ConnProgram (Except Elapsed α)) : ConnTry α := do
  match ← call with
  | .ok a => pure a
  | .error .elapsed => throw .elapsed

def supported {α : Type} (apiKey : Int16) : Option α → ConnTry α
  | some a => pure a
  | none => failWith (.unsupportedApi apiKey)

/-- `write_all`: one `write` after the other, each of at least a byte. -/
def writeAll (correlationId : Int32) : (rounds : Nat) → Bytes → ConnTry (Except ClientError Unit)
  | 0, _ => pure (.ok ())
  | rounds + 1, rest => do
    if rest.isEmpty then pure (.ok ())
    else
      match ← awaited (perform (.write correlationId rest)) with
      | .error e => pure (.error e)
      | .ok n =>
        if n = 0 then pure (.error .io) else writeAll correlationId rounds (rest.drop n)

def send (correlationId : Int32) (framed : Bytes) : ConnTry (Except ClientError Unit) := do
  awaited (perform (.lockWriter correlationId))
  let result ← writeAll correlationId framed.length framed
  perform .unlockWriter
  pure result

/-- An early return once the request is registered: its guard is armed. -/
def abandon {α : Type} (correlationId : Int32) (e : ClientError) : ConnTry α := do
  perform (.unregister correlationId)
  failWith e

def awaitResponse (correlationId : Int32) (reply : Nat) : ConnTry Bytes := do
  match ← awaited (perform (.reply correlationId reply)) with
  | .ok (.ok response) => pure response
  | .ok (.error e) => failWith e
  | .error e => abandon correlationId e

def requestUnbounded (clientId : String) (call : ConnCall) : ConnTry Bytes := do
  let closed ← perform .loadClosed
  if closed then failWith .connectionClosed
  else
    let headerVersion ← supported call.apiKey (requestHeaderVersion call.apiKey call.apiVersion)
    let responseVersion ← supported call.apiKey (responseHeaderVersion call.apiKey call.apiVersion)
    let correlationId ← perform .nextCorrelation
    match requestFrame clientId call headerVersion correlationId with
    | .error e => failWith (.encode e)
    | .ok framed =>
      let reply ← perform (.register correlationId responseVersion)
      match ← send correlationId framed with
      | .error e => abandon correlationId e
      | .ok () => awaitResponse correlationId reply

def waitOutThrottle : ConnProgram Unit := do
  match ← perform .throttleRemaining with
  | some pause => perform (.sleep pause)
  | none => pure ()

def request (clientId : String) (call : ConnCall) : ConnProgram Unit := do
  waitOutThrottle
  match ← (requestUnbounded clientId call).run with
  | .ok response => perform (.answer (.ok response))
  | .error .elapsed =>
    perform .failAll
    perform (.answer (.error (.timeout "response")))
  | .error (.failed e) => perform (.answer (.error e))

abbrev InFlight := AList fun _ : Int32 => Pending

/-- A connection and its socket. `admitted` are the requests that found it open
and have yet to leave its write half behind; `midFrame` says that the last frame
on the socket is not whole. -/
structure ConnWorld where
  closed : Bool
  inFlight : InFlight
  replies : List Reply
  correlation : Int32
  throttledUntil : Int
  reading : Bool
  writer : Option Nat
  socket : Bytes
  midFrame : Bool
  admitted : List Nat
  calls : List ConnCall
  answers : List (Nat × Response)

inductive ConnChoice
  | go
  | now (ms : Int)
  | wrote (n : Nat)
  | fails
  | elapse

inductive ConnWeather
  | response (payload : Bytes)
  | readFails
  | throttle (now ms : Int)

namespace ConnWorld

def fresh : ConnWorld :=
  { closed := false
    inFlight := ∅
    replies := []
    correlation := 1
    throttledUntil := 0
    reading := true
    writer := none
    socket := []
    midFrame := false
    admitted := []
    calls := []
    answers := [] }

def throttleRemaining (w : ConnWorld) (now : Int) : Option Int :=
  if w.throttledUntil = 0 then none
  else if now < w.throttledUntil then some (w.throttledUntil - now)
  else none

def noteThrottle (w : ConnWorld) (now ms : Int) : ConnWorld :=
  if ms ≤ 0 then w else { w with throttledUntil := max w.throttledUntil (now + ms) }

def setReply (w : ConnWorld) (reply : Nat) (r : Reply) : ConnWorld :=
  { w with replies := w.replies.set reply r }

def hangUp (w : ConnWorld) : Option Pending → ConnWorld
  | some pending => w.setReply pending.reply .hungUp
  | none => w

def register (w : ConnWorld) (correlationId : Int32) (responseHeaderVersion : Int16) :
    ConnWorld :=
  let pending : Pending := { responseHeaderVersion, reply := w.replies.length }
  { w.hangUp (w.inFlight.lookup correlationId) with
    inFlight := w.inFlight.insert correlationId pending
    replies := (w.hangUp (w.inFlight.lookup correlationId)).replies ++ [.waiting] }

def unregister (w : ConnWorld) (correlationId : Int32) : ConnWorld :=
  { w.hangUp (w.inFlight.lookup correlationId) with
    inFlight := w.inFlight.erase correlationId }

def failAll (w : ConnWorld) : ConnWorld :=
  { w.inFlight.entries.foldl
      (fun w entry => w.setReply entry.2.reply (.sent (.error .connectionClosed))) w with
    closed := true
    inFlight := ∅ }

def leave (w : ConnWorld) (i : Nat) : ConnWorld :=
  { w with admitted := w.admitted.filter fun j => j != i }

def unlockWriter (w : ConnWorld) (i : Nat) : ConnWorld := { w with writer := none }.leave i

/-- `n` bytes of what is left of a frame reach the socket. -/
def put (w : ConnWorld) (rest : Bytes) (n : Nat) : ConnWorld :=
  { w with
    socket := w.socket ++ rest.take n
    midFrame := if n = 0 then w.midFrame else n < rest.length }

/-- The future of `request_unbounded` is dropped while it awaits an operation. -/
def abandoned (i : Nat) : ConnOp → ConnWorld → Option ConnWorld
  | .lockWriter correlationId, w => some ((w.leave i).unregister correlationId)
  | .write correlationId _, w => some ((w.failAll.unlockWriter i).unregister correlationId)
  | .reply correlationId _, w => some (w.unregister correlationId)
  | _, _ => none

def drop (i : Nat) (op : ConnOp) (w : ConnWorld) : Option ConnWorld :=
  match op with
  | .sleep _ => some w
  | op => abandoned i op w

def elapse (i : Nat) : (op : ConnOp) → ConnWorld → Option (op.Res × ConnWorld)
  | .lockWriter correlationId, w =>
    (abandoned i (.lockWriter correlationId) w).map fun w => (.error .elapsed, w)
  | .write correlationId rest, w =>
    (abandoned i (.write correlationId rest) w).map fun w => (.error .elapsed, w)
  | .reply correlationId reply, w =>
    (abandoned i (.reply correlationId reply) w).map fun w => (.error .elapsed, w)
  | _, _ => none

def act (i : Nat) : (op : ConnOp) → ConnChoice → ConnWorld → Option (op.Res × ConnWorld)
  | .throttleRemaining, .now ms, w => some (w.throttleRemaining ms, w)
  | .sleep _, .go, w => some ((), w)
  | .loadClosed, .go, w =>
    some (w.closed, if w.closed then w else { w with admitted := w.admitted ++ [i] })
  | .nextCorrelation, .go, w => some (w.correlation, { w with correlation := w.correlation + 1 })
  | .register correlationId version, .go, w =>
    some (w.replies.length, w.register correlationId version)
  | .unregister correlationId, .go, w => some ((), w.unregister correlationId)
  | .lockWriter _, .go, w =>
    if w.writer = none then some (.ok (), { w with writer := some i }) else none
  | .write _ rest, .wrote n, w =>
    if n ≤ rest.length then some (.ok (.ok n), w.put rest n) else none
  | .write _ _, .fails, w => some (.ok (.error .io), w)
  | .unlockWriter, .go, w => some ((), w.unlockWriter i)
  | .reply _ reply, .go, w =>
    match w.replies[reply]? with
    | some (.sent response) => some (.ok (.ok response), w)
    | some .hungUp => some (.ok (.error .connectionClosed), w)
    | _ => none
  | .failAll, .go, w => some ((), w.failAll)
  | .answer response, .go, w =>
    some ((), { w.leave i with answers := w.answers ++ [(i, response)] })
  | op, .elapse, w => w.elapse i op
  | _, _, _ => none

/-- The body behind a response's header; `none` is a panic. -/
def responseBody (version : Int16) (payload : Bytes) : Option Response :=
  let reader : Reader Ledger :=
    { bytes := payload
      state := { budget := Limits.default.budget payload.length, decoded := 0 } }
  match (ResponseHeader.decode version).run reader with
  | .ok _ rest => some (.ok rest.bytes)
  | .error (.error e) _ => some (.error (.decode e))
  | .error .panic _ => none

/-- `read_response`, once a whole frame is in. Its error ends the reader loop. -/
def readResponse (w : ConnWorld) (payload : Bytes) : ConnWorld :=
  match peekCorrelationId payload with
  | .error _ => { w.failAll with reading := false }
  | .ok correlationId =>
    match w.inFlight.lookup correlationId with
    | none => { w.failAll with reading := false }
    | some pending =>
      let w := { w with inFlight := w.inFlight.erase correlationId }
      match responseBody pending.responseHeaderVersion payload with
      | some response => w.setReply pending.reply (.sent response)
      | none => { w.setReply pending.reply .hungUp with reading := false }

def idle : ConnWeather → ConnWorld → Option ConnWorld
  | .response payload, w =>
    if w.reading ∧ payload.length ≤ defaultMaxFrame then some (w.readResponse payload) else none
  | .readFails, w => if w.reading then some { w.failAll with reading := false } else none
  | .throttle now ms, w => some (w.noteThrottle now ms)

def begin (i : Nat) (call : ConnCall) (w : ConnWorld) : Option ConnWorld :=
  if w.calls.length = i then some { w with calls := w.calls ++ [call] } else none

end ConnWorld

abbrev ConnMachine := Machine ConnWorld ConnOp ConnOp.Res ConnChoice ConnCall ConnWeather

/-- The machine of a connection. Its last handle dropped, a connection has no
requests left; that it then fails is not modelled. -/
def connMachine (clientId : String) : ConnMachine :=
  { exec := ConnWorld.act
    drop := ConnWorld.drop
    idle := ConnWorld.idle
    begin := ConnWorld.begin
    body := request clientId }

end Odradek.Client.Conn
