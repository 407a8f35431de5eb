import Odradek.Library.BigEndian
import Odradek.Library.Decoder
import Odradek.Library.Window
import Odradek.Library.Reachable
import Odradek.Library.Pool
import Odradek.Protocol.RecordSets
import Odradek.Protocol.Reencoding
import Odradek.Protocol.Accounting
import Odradek.Client.ConnectionIntegrity
import Odradek.Client.CorrelatedReplies
import Odradek.Client.Transactional
import Odradek.Client.Sequences
import Odradek.Client.FencedFlush
import Odradek.Protocol.Subscriptions
import Odradek.Client.Catalog
import Odradek.Client.UnknownTopics
import Odradek.Client.DeletedTopics
import Odradek.Client.CheckedFetch
import Odradek.Web.FairTurns
import Odradek.Web.TopicResume
import Odradek.Sasl.Transcript
import Odradek.Client.FailedFlush
import Odradek.Client.TransactionSafety
import Odradek.Client.Consumption
import Odradek.Client.Agreement
import Odradek.Client.TargetAdoption
import Odradek.Client.Rejoin
import Odradek.Client.RangeShares
import Odradek.Client.LeaderElection
import Odradek.Client.Redials
import Odradek.Protocol.WireRoundTrip
import Odradek.Web.Latest
import Odradek.Web.HubRollback
import Odradek.Protocol.CrcSlicing
import Odradek.Protocol.VarintReading
import Odradek.Protocol.TaggedSections
import Odradek.Protocol.Framing
import Odradek.Protocol.SetEncoders
import Odradek.Codegen.VersionGuards
import Odradek.Client.FetchBounds
import Odradek.Sasl.ServerAcceptance
import Odradek.Protocol.ApiVersionsRoundTrip
import Odradek.Client.Negotiate
import Odradek.Acceptance.ClientChecks
import Odradek.Acceptance.Afterwards
import Odradek.Acceptance.ReferenceIsolation
import Odradek.Client.RepeatedStamps
import Odradek.Protocol.Envelopes
import Odradek.Sasl.Plain
import Odradek.Sasl.OauthBearer
import Odradek.Sasl.MskIam
import Odradek.Client.Snappy
import Odradek.Acceptance.ReferenceTopics
import Odradek.Acceptance.ReferenceTimestamps
import Odradek.Web.AskedPositions
import Odradek.Acceptance.Recovery
import Odradek.Acceptance.SpeakableVerdicts
import Odradek.Client.KeyedPartition
import Odradek.Client.JoinAll
import Odradek.Client.BlockingLeases
import Odradek.Web.EventJson
import Odradek.Codegen.RoundTrip
import Odradek.Codegen.Accepted
import Odradek.Codegen.MalformedInput
import Odradek.Codegen.SecondPass
import Odradek.Protocol.RecordSafety
import Odradek.Acceptance.ReferenceSasl
import Odradek.Web.KafkaDelivery
import Odradek.Web.MemoryDelivery
