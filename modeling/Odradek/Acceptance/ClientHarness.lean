import Odradek.Protocol.Header
import Odradek.Protocol.Records

/-!
The acceptance suite as the server of a client under test (`checks/client.rs`):
what it makes of a frame, how it answers as one of three brokers, and what it
records. Connections run side by side; each lock section of an answer is a step
of its own. The generated messages are parameters, as far as the harness looks
into them; times and the errors of bodies that do not decode are left out.
-/

namespace Odradek.Acceptance

open Library Odradek.Protocol

def produceKey : Int16 := 0
def fetchKey : Int16 := 1
def listOffsetsKey : Int16 := 2
def metadataKey : Int16 := 3
def saslHandshakeKey : Int16 := 17
def initProducerIdKey : Int16 := 22
def saslAuthenticateKey : Int16 := 36

def maxApiVersions : Int16 := 4

def noError : Int16 := 0
def unknownTopicOrPartition : Int16 := 3
def notLeaderOrFollower : Int16 := 6
def unsupportedSaslMechanism : Int16 := 33
def unsupportedVersion : Int16 := 35

def brokerCount : Int32 := 3
def routingTopic : String := "odradek-routing"
def routingTopicId : Bytes := utf8 "odradek-routing!"
def offeredMechanism : String := "OAUTHBEARER"

def throttleMs : Int32 := 400

inductive HarnessFault
  | leaderMove
  | rejectSaslToken
  | unknownTaggedField
  | throttle
  deriving DecidableEq

structure Observation where
  nodeId : Int32
  connId : Nat
  index : Nat
  apiKey : Int16
  apiVersion : Int16
  header : Option RequestHeader
  routes : List (String × Int32)
  saslMechanism : Option String
  deriving DecidableEq

section Parsing

structure TopicRef where
  name : String
  topicId : Bytes
  partitions : List Int32
  deriving DecidableEq

/-- `decode_fully` of the generated requests, each at a version. -/
structure Bodies where
  produce : Int16 → Bytes → Option (List TopicRef)
  fetch : Int16 → Bytes → Option (List TopicRef)
  listOffsets : Int16 → Bytes → Option (List (String × List Int32))
  saslHandshake : Int16 → Bytes → Option String

def hexDigit (n : Nat) : Char := Nat.digitChar n

/-- `{:02x?}` of an id. -/
def debugHex (bytes : Bytes) : String :=
  "[" ++ ", ".intercalate (bytes.map fun b =>
    String.ofList [hexDigit (b.toNat / 16), hexDigit (b.toNat % 16)]) ++ "]"

def resolveTopic (name : String) (topicId : Bytes) : String :=
  if name ≠ "" then name
  else if topicId = routingTopicId then routingTopic
  else "<topic id " ++ debugHex topicId ++ ">"

def topicRoutes (topics : List TopicRef) : List (String × Int32) :=
  topics.flatMap fun topic =>
    topic.partitions.map fun partition => (resolveTopic topic.name topic.topicId, partition)

def readI16 (bytes : Bytes) : Int16 := Int16.ofBitVec (BitVec.ofNat 16 (ofBigEndian bytes))

def decodeHeader (version : Int16) (frame : Bytes) : Option (RequestHeader × Bytes) :=
  (runDecode .default (RequestHeader.decode version) frame).toOption

/-- Try flexible then classic header encodings. -/
def salvageHeader (frame : Bytes) : Option RequestHeader :=
  ((decodeHeader 2 frame).or (decodeHeader 1 frame)).map (·.1)

def bodyRoutes (bodies : Bodies) (apiKey apiVersion : Int16) (body : Bytes) :
    List (String × Int32) :=
  if apiKey = produceKey then
    match bodies.produce apiVersion body with
    | some topics => topicRoutes topics
    | none => []
  else if apiKey = fetchKey then
    match bodies.fetch apiVersion body with
    | some topics => topicRoutes topics
    | none => []
  else if apiKey = listOffsetsKey then
    match bodies.listOffsets apiVersion body with
    | some topics => topics.flatMap fun topic => topic.2.map fun partition => (topic.1, partition)
    | none => []
  else []

def parseRequest (bodies : Bodies) (nodeId : Int32) (connId index : Nat) (frame : Bytes) :
    Observation :=
  if frame.length < 8 then
    { nodeId, connId, index, apiKey := -1, apiVersion := -1, header := none, routes := []
      saslMechanism := none }
  else
    let apiKey := readI16 (frame.take 2)
    let apiVersion := readI16 ((frame.drop 2).take 2)
    let probeVersion :=
      if apiKey = apiVersionsKey ∧ maxApiVersions < apiVersion then maxApiVersions else apiVersion
    match (requestHeaderVersion apiKey probeVersion).bind fun hv => decodeHeader hv frame with
    | some (header, body) =>
      { nodeId, connId, index, apiKey, apiVersion, header := some header
        routes := bodyRoutes bodies apiKey apiVersion body
        saslMechanism :=
          if apiKey = saslHandshakeKey then bodies.saslHandshake apiVersion body else none }
    | none =>
      { nodeId, connId, index, apiKey, apiVersion, header := salvageHeader frame, routes := []
        saslMechanism := none }

end Parsing

/-- A NOT_LEADER injection that actually fired. -/
structure FaultEvent where
  partition : Int32
  toNode : Int32
  deriving DecidableEq

structure ClusterView where
  fault : Option HarnessFault
  leaders : List Int32
  events : List FaultEvent
  saslRejections : List (Nat × Nat)
  throttles : List (Nat × Nat)
  tagged : List (Nat × Nat)
  negotiated : List Nat
  deriving DecidableEq

/-- A partition of a request and the error code it is answered with. -/
structure Judged where
  topic : String
  partition : Int32
  errorCode : Int16
  deriving DecidableEq

inductive Answer
  | apiVersions (errorCode version : Int16) (tagged : Bool)
  | metadata (version : Int16) (tagged : Bool) (throttle : Int32) (leaders : List Int32)
  | saslHandshake (version errorCode : Int16)
  | saslAuthenticate (version : Int16) (refused : Bool)
  | initProducerId (version : Int16)
  | produce (version : Int16) (judged : List Judged) (throttle : Int32)
  | listOffsets (version : Int16) (judged : List Judged)
  | fetch (version : Int16) (judged : List Judged) (throttle : Int32)
  deriving DecidableEq

def Answer.isTagged : Answer → Bool
  | .apiVersions _ _ tagged => tagged
  | .metadata _ tagged _ _ => tagged
  | _ => false

namespace ClusterView

def start (fault : Option HarnessFault) : ClusterView :=
  { fault, leaders := [0, 1, 2], events := [], saslRejections := [], throttles := [], tagged := []
    negotiated := [] }

def slot (view : ClusterView) (partition : Int32) : Option (Nat × Int32) :=
  if partition < 0 then none
  else (view.leaders[partition.toInt.toNat]?).map fun leader => (partition.toInt.toNat, leader)

def produceError (view : ClusterView) (partition nodeId : Int32) : ClusterView × Int16 :=
  match view.slot partition with
  | none => (view, unknownTopicOrPartition)
  | some (slot, leader) =>
    if leader ≠ nodeId then (view, notLeaderOrFollower)
    else if view.fault = some .leaderMove ∧
        !view.events.any (fun event => event.partition = partition) then
      let toNode := (nodeId + 1) % brokerCount
      ({ view with
          leaders := view.leaders.set slot toNode
          events := view.events ++ [{ partition, toNode }] }, notLeaderOrFollower)
    else (view, noError)

def fetchError (view : ClusterView) (partition nodeId : Int32) : Int16 :=
  match view.slot partition with
  | some (_, leader) => if leader = nodeId then noError else notLeaderOrFollower
  | none => unknownTopicOrPartition

def judge (view : ClusterView) (apiKey : Int16) (nodeId : Int32) (route : String × Int32) :
    ClusterView × Judged :=
  if route.1 ≠ routingTopic then
    (view, { topic := route.1, partition := route.2, errorCode := unknownTopicOrPartition })
  else if apiKey = produceKey then
    let (view, errorCode) := view.produceError route.2 nodeId
    (view, { topic := route.1, partition := route.2, errorCode })
  else
    (view, { topic := route.1, partition := route.2, errorCode := view.fetchError route.2 nodeId })

def throttleFor (view : ClusterView) (connId index : Nat) (supported : Bool) :
    ClusterView × Int32 :=
  if !supported ∨ view.fault ≠ some .throttle then (view, 0)
  else ({ view with throttles := view.throttles ++ [(connId, index)] }, throttleMs)

/-- The unknown field is added and recorded together. -/
def tagFor (view : ClusterView) (connId index : Nat) (flexible : Bool) : ClusterView × Bool :=
  if view.fault = some .unknownTaggedField ∧ flexible then
    ({ view with tagged := view.tagged ++ [(connId, index)] }, true)
  else (view, false)

def clampVersion (version low high : Int16) : Int16 :=
  if version < low then low else if high < version then high else version

/-- `respond`, once the routes are judged; a request of another api is not answered. -/
def respond (view : ClusterView) (header : RequestHeader) (connId index : Nat)
    (saslMechanism : Option String) (judged : List Judged) : ClusterView × Option Answer :=
  let version := header.requestApiVersion
  if header.requestApiKey = apiVersionsKey then
    if maxApiVersions < version then (view, some (.apiVersions unsupportedVersion 0 false))
    else
      let (view, tagged) := view.tagFor connId index (version ≥ 3)
      (view, some (.apiVersions noError version tagged))
  else if header.requestApiKey = metadataKey then
    let v := clampVersion version 0 13
    let leaders := view.leaders
    let (view, tagged) := view.tagFor connId index (v ≥ 9)
    let (view, throttle) := view.throttleFor connId index (v ≥ 3)
    (view, some (.metadata v tagged throttle leaders))
  else if header.requestApiKey = saslHandshakeKey then
    let v := clampVersion version 0 1
    if saslMechanism = some offeredMechanism then
      ({ view with negotiated := connId :: view.negotiated }, some (.saslHandshake v noError))
    else (view, some (.saslHandshake v unsupportedSaslMechanism))
  else if header.requestApiKey = saslAuthenticateKey then
    let v := clampVersion version 0 2
    if view.negotiated.contains connId ∧ view.fault = some .rejectSaslToken ∧
        !view.saslRejections.any (fun rejection => rejection.1 = connId) then
      ({ view with saslRejections := view.saslRejections ++ [(connId, index)] },
        some (.saslAuthenticate v true))
    else (view, some (.saslAuthenticate v false))
  else if header.requestApiKey = initProducerIdKey then
    (view, some (.initProducerId (clampVersion version 0 6)))
  else if header.requestApiKey = produceKey then
    let v := clampVersion version 3 13
    let (view, throttle) := view.throttleFor connId index (v ≥ 1)
    (view, some (.produce v judged throttle))
  else if header.requestApiKey = listOffsetsKey then
    (view, some (.listOffsets (clampVersion version 1 10) judged))
  else if header.requestApiKey = fetchKey then
    let v := clampVersion version 4 18
    let (view, throttle) := view.throttleFor connId index (v ≥ 1)
    (view, some (.fetch v judged throttle))
  else (view, none)

end ClusterView

/-- Where `serve_conn` stands: before a frame, with routes left to judge, or with
an observation to hand over. -/
inductive Phase
  | idle
  | judging (obs : Observation) (header : RequestHeader) (left : List (String × Int32))
      (judged : List Judged) (staged : List FaultEvent)
  | answered (obs : Observation)
  deriving DecidableEq

structure Conn where
  nodeId : Int32
  received : Nat
  phase : Phase
  deriving DecidableEq

/-- What happened, in the order of the steps: a frame arrived, or a response
went out, with the leader moves that were staged for it. -/
inductive Entry
  | arrived (obs : Observation)
  | answered (connId index : Nat) (staged : List FaultEvent) (answer : Answer)
  deriving DecidableEq

structure Harness where
  view : ClusterView
  conns : List Conn
  sent : List Observation
  log : List Entry
  deriving DecidableEq

inductive Action
  | open (nodeId : Int32)
  | receive (connId : Nat) (frame : Bytes)
  | judge (connId : Nat)
  | answer (connId : Nat)
  | record (connId : Nat)
  deriving DecidableEq

namespace Harness

def start (fault : Option HarnessFault) : Harness :=
  { view := .start fault, conns := [], sent := [], log := [] }

def setConn (h : Harness) (connId : Nat) (conn : Conn) : Harness :=
  { h with conns := h.conns.set connId conn }

/-- The phase after a frame: without a header there is nothing to answer. -/
def phaseOf (obs : Observation) : Phase :=
  match obs.header with
  | some header => .judging obs header obs.routes [] []
  | none => .answered obs

variable (bodies : Bodies)

def observe (conn : Conn) (connId : Nat) (frame : Bytes) : Observation :=
  parseRequest bodies conn.nodeId connId conn.received frame

def next (h : Harness) : Action → Option Harness
  | .open nodeId =>
    if 0 ≤ nodeId ∧ nodeId < brokerCount then
      some { h with conns := h.conns ++ [{ nodeId, received := 0, phase := .idle }] }
    else none
  | .receive connId frame => do
    let conn ← h.conns[connId]?
    match conn.phase with
    | .idle =>
      let obs := observe bodies conn connId frame
      some { h.setConn connId { conn with received := conn.received + 1, phase := phaseOf obs } with
        log := h.log ++ [.arrived obs] }
    | _ => none
  | .judge connId => do
    let conn ← h.conns[connId]?
    match conn.phase with
    | .judging obs header (route :: left) judged staged =>
      let (view, verdict) := h.view.judge header.requestApiKey conn.nodeId route
      let fresh := view.events.drop h.view.events.length
      some { h.setConn connId { conn with
          phase := .judging obs header left (judged ++ [verdict]) (staged ++ fresh) } with view }
    | _ => none
  | .answer connId => do
    let conn ← h.conns[connId]?
    match conn.phase with
    | .judging obs header [] judged staged =>
      let (view, answer) := h.view.respond header connId obs.index obs.saslMechanism judged
      some { h.setConn connId { conn with phase := .answered obs } with
        view
        log := h.log ++ (answer.map (.answered connId obs.index staged)).toList }
    | _ => none
  | .record connId => do
    let conn ← h.conns[connId]?
    match conn.phase with
    | .answered obs =>
      some { h.setConn connId { conn with phase := .idle } with sent := h.sent ++ [obs] }
    | _ => none

end Harness

end Odradek.Acceptance
