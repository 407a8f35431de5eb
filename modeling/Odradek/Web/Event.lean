import Mathlib.Order.WithBot
import Odradek.Protocol.Error

/-!
The web-shaped view of a record, where a subscription starts and what it sees
(`event.rs`), and what a source answers (`source.rs`). A position is an `i64`
the engine only compares; `Option<i64>` with `None` below every position is
`WithBot Int`.
-/

namespace Odradek
namespace Web

/-- Where a cursor stands: the last position seen, `⊥` before the first. -/
abbrev Cursor := WithBot Int

-- The computable order of positions, ahead of the complete lattice Mathlib finds.
instance intLinearOrder : LinearOrder Int := Int.instLinearOrder

instance intPartialOrder : PartialOrder Int := LinearOrder.toPartialOrder

structure Event where
  topic : String
  partition : Int
  offset : Int
  timestamp : Int
  key : Option Bytes
  value : Option Bytes
  headers : List (String × Option Bytes)
  deriving DecidableEq

/-- `Event::at`: the values a record cannot be without. -/
def Event.at (topic : String) (partition offset timestamp : Int) : Event :=
  { topic, partition, offset, timestamp, key := none, value := none, headers := [] }

inductive Position
  | earliest
  | latest
  | after (offset : Int)
  deriving DecidableEq

structure Filter where
  keyPrefix : Option Bytes
  header : Option (String × Bytes)
  deriving DecidableEq

def Filter.default : Filter := { keyPrefix := none, header := none }

def Filter.matchesEvent (filter : Filter) (event : Event) : Bool :=
  (match filter.keyPrefix with
    | none => true
    | some keyPrefix =>
      match event.key with
      | some key => keyPrefix.isPrefixOf key
      | none => false) &&
  (match filter.header with
    | none => true
    | some (name, value) => event.headers.any fun h => h.1 == name && h.2 == some value)

inductive SourceErrorKind
  | notFound
  | auth
  | unavailable
  | other
  deriving DecidableEq

structure SourceError where
  kind : SourceErrorKind
  message : String
  deriving DecidableEq

def SourceError.isPermanent (e : SourceError) : Bool :=
  match e.kind with
  | .notFound | .auth => true
  | .unavailable | .other => false

structure SourceBatch where
  events : List Event
  nextAfter : Cursor
  deriving DecidableEq

end Web
end Odradek
