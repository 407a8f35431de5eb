import Odradek.Library.Base64
import Odradek.Protocol.WireRoundTrip
import Odradek.Web.Event

/-!
The JSON view of an event (`json.rs`), as the value that is written: an object is the
list of its fields, in the order in which they are serialised. How bytes become base64
is a parameter. What is read back by name is the event.
-/

namespace Odradek.Web

open Protocol

inductive Json
  | number (n : Int)
  | string (s : String)
  | array (items : List Json)
  | object (fields : List (String × Json))

/-- Bytes as JSON, which are text when they are UTF-8. -/
inductive Encoded
  | text (text : String)
  | base64 (text : String)

def Encoded.json : Encoded → Json
  | .text s => .string s
  | .base64 s => .string s

/-- The names one byte string can land under. -/
structure Field where
  text : String
  base64 : String

def Field.name (field : Field) : Encoded → String
  | .text _ => field.text
  | .base64 _ => field.base64

def keyField : Field := { text := "key", base64 := "key_base64" }

def valueField : Field := { text := "value", base64 := "value_base64" }

section Writing

variable (encode64 : Bytes → String)

def Encoded.of (bytes : Bytes) : Encoded :=
  match fromUtf8 bytes with
  | some s => .text s
  | none => .base64 (encode64 bytes)

/-- The entry of a byte string that may be absent. -/
def entry (field : Field) : Option Bytes → List (String × Json)
  | none => []
  | some bytes =>
    let encoded := Encoded.of encode64 bytes
    [(field.name encoded, encoded.json)]

def headerJson (header : String × Option Bytes) : Json :=
  .object (("name", .string header.1) :: entry encode64 valueField header.2)

def headersEntry (headers : List (String × Option Bytes)) : List (String × Json) :=
  if headers.isEmpty then [] else [("headers", .array (headers.map (headerJson encode64)))]

def positionEntries (event : Event) : List (String × Json) :=
  [("topic", .string event.topic), ("partition", .number event.partition),
    ("offset", .number event.offset), ("timestamp", .number event.timestamp)]

def eventJson (event : Event) : Json :=
  .object (positionEntries event ++ (entry encode64 keyField event.key ++
    (entry encode64 valueField event.value ++ headersEntry encode64 event.headers)))

end Writing

section Reading

variable (decode64 : String → Option Bytes)

def Json.asString : Json → Option String
  | .string s => some s
  | _ => none

def Json.asNumber : Json → Option Int
  | .number n => some n
  | _ => none

/-- A byte string that may be absent, from whichever of its names is there. -/
def readBytes (field : Field) (fields : List (String × Json)) : Option (Option Bytes) :=
  match fields.lookup field.text, fields.lookup field.base64 with
  | some json, _ => json.asString.map fun text => some (utf8 text)
  | none, some json => (json.asString.bind decode64).map some
  | none, none => some none

def readHeader : Json → Option (String × Option Bytes)
  | .object fields => do
    let name ← (fields.lookup "name").bind Json.asString
    let value ← readBytes decode64 valueField fields
    pure (name, value)
  | _ => none

def readHeaders (fields : List (String × Json)) : Option (List (String × Option Bytes)) :=
  match fields.lookup "headers" with
  | none => some []
  | some (.array items) => items.mapM (readHeader decode64)
  | some _ => none

def readEvent : Json → Option Event
  | .object fields => do
    let topic ← (fields.lookup "topic").bind Json.asString
    let partition ← (fields.lookup "partition").bind Json.asNumber
    let offset ← (fields.lookup "offset").bind Json.asNumber
    let timestamp ← (fields.lookup "timestamp").bind Json.asNumber
    let key ← readBytes decode64 keyField fields
    let value ← readBytes decode64 valueField fields
    let headers ← readHeaders decode64 fields
    pure { topic, partition, offset, timestamp, key, value, headers }
  | _ => none

end Reading

section RoundTrip

variable {encode64 : Bytes → String} {decode64 : String → Option Bytes} {field : Field}

/-- An entry is found under its own names only. -/
theorem lookup_entry_other {name : String} (htext : name ≠ field.text)
    (hbase64 : name ≠ field.base64) (bytes : Option Bytes) :
    (entry encode64 field bytes).lookup name = none := by
  cases bytes with
  | none => rfl
  | some bytes =>
      have hname : (name == field.name (Encoded.of encode64 bytes)) = false := by
        cases Encoded.of encode64 bytes with
        | text _ => exact beq_eq_false_iff_ne.mpr htext
        | base64 _ => exact beq_eq_false_iff_ne.mpr hbase64
      simp only [entry, List.lookup_cons, hname, List.lookup_nil]

/-- Either form of a byte string reads back as it. -/
theorem readBytes_entry (hdecodes : ∀ bytes, decode64 (encode64 bytes) = some bytes)
    (hnames : field.text ≠ field.base64) (before after : List (String × Json))
    (hbefore : before.lookup field.text = none ∧ before.lookup field.base64 = none)
    (hafter : after.lookup field.text = none ∧ after.lookup field.base64 = none)
    (bytes : Option Bytes) :
    readBytes decode64 field (before ++ (entry encode64 field bytes ++ after)) = some bytes := by
  simp only [readBytes, List.lookup_append, hbefore, hafter, Option.none_or, Option.or_none]
  cases bytes with
  | none => rfl
  | some bytes =>
      have hother : (field.text == field.base64) = false := beq_eq_false_iff_ne.mpr hnames
      cases htext : fromUtf8 bytes with
      | some text =>
          simp only [entry, Encoded.of, htext, Field.name, Encoded.json, List.lookup_cons,
            beq_self_eq_true, Json.asString, Option.map_some, fromUtf8_some htext]
      | none =>
          simp only [entry, Encoded.of, htext, Field.name, Encoded.json, List.lookup_cons, hother,
            List.lookup_nil, beq_self_eq_true, Json.asString, Option.bind_some, hdecodes,
            Option.map_some]

theorem lookup_headersEntry {name : String} (h : name ≠ "headers")
    (headers : List (String × Option Bytes)) :
    (headersEntry encode64 headers).lookup name = none := by
  have hname : (name == "headers") = false := beq_eq_false_iff_ne.mpr h
  unfold headersEntry
  split
  · rfl
  · simp only [List.lookup_cons, hname, List.lookup_nil]

theorem readHeader_headerJson (hdecodes : ∀ bytes, decode64 (encode64 bytes) = some bytes)
    (header : String × Option Bytes) :
    readHeader decode64 (headerJson encode64 header) = some header := by
  have hnames : valueField.text ≠ valueField.base64 := by decide
  have hvalue := readBytes_entry hdecodes hnames [("name", .string header.1)] [] ⟨rfl, rfl⟩
    ⟨rfl, rfl⟩ header.2
  rw [List.append_nil, List.singleton_append] at hvalue
  simp only [readHeader, headerJson, hvalue]
  rfl

theorem readHeaders_headersEntry (hdecodes : ∀ bytes, decode64 (encode64 bytes) = some bytes)
    {before : List (String × Json)}
    (hbefore : before.lookup "headers" = none) (headers : List (String × Option Bytes)) :
    readHeaders decode64 (before ++ headersEntry encode64 headers) = some headers := by
  rw [readHeaders, List.lookup_append, hbefore, Option.none_or, headersEntry]
  cases headers with
  | nil => rfl
  | cons header headers =>
      have hread : (headers.map (headerJson encode64)).mapM (readHeader decode64) =
        some headers := by
        induction headers with
        | nil => rfl
        | cons header headers ih =>
            rw [List.map_cons, List.mapM_cons, readHeader_headerJson hdecodes, ih]
            rfl
      show ((headerJson encode64 header) :: headers.map (headerJson encode64)).mapM
        (readHeader decode64) = _
      rw [List.mapM_cons, readHeader_headerJson hdecodes, hread]
      rfl

/-- An event is read back from its JSON. -/
theorem readEvent_eventJson (hdecodes : ∀ bytes, decode64 (encode64 bytes) = some bytes)
    (event : Event) : readEvent decode64 (eventJson encode64 event) = some event := by
  have hposition (name : String) {json : Json} {rest : List (String × Json)}
      (h : (positionEntries event).lookup name = some json) :
      (positionEntries event ++ rest).lookup name = some json := by
    rw [List.lookup_append, h, Option.some_or]
  have hlater {name : String} (htext : name ≠ "value") (hbase64 : name ≠ "value_base64")
      (hheaders : name ≠ "headers") : (entry encode64 valueField event.value ++
        headersEntry encode64 event.headers).lookup name = none := by
    rw [List.lookup_append, lookup_entry_other htext hbase64, lookup_headersEntry hheaders]
    rfl
  have hearlier {name : String} (hname : (positionEntries event).lookup name = none)
      (htext : name ≠ "key") (hbase64 : name ≠ "key_base64") :
      (positionEntries event ++ entry encode64 keyField event.key).lookup name = none := by
    rw [List.lookup_append, hname, lookup_entry_other htext hbase64]
    rfl
  have hkey := readBytes_entry hdecodes (show keyField.text ≠ keyField.base64 by decide)
    (positionEntries event) _ ⟨rfl, rfl⟩
    ⟨hlater (by decide) (by decide) (by decide), hlater (by decide) (by decide) (by decide)⟩
    event.key
  have hvalue := readBytes_entry hdecodes (show valueField.text ≠ valueField.base64 by decide)
    _ (headersEntry encode64 event.headers)
    ⟨hearlier rfl (by decide) (by decide), hearlier rfl (by decide) (by decide)⟩
    ⟨lookup_headersEntry (by decide) _, lookup_headersEntry (by decide) _⟩ event.value
  have hnone : ((positionEntries event ++ entry encode64 keyField event.key) ++
      entry encode64 valueField event.value).lookup "headers" = none := by
    rw [List.lookup_append, hearlier rfl (by decide) (by decide),
      lookup_entry_other (by decide) (by decide)]
    rfl
  have hheaders := readHeaders_headersEntry hdecodes hnone event.headers
  simp only [List.append_assoc] at hvalue hheaders
  simp only [readEvent, eventJson, hkey, hvalue, hheaders]
  rw [hposition "topic" rfl, hposition "partition" rfl, hposition "offset" rfl,
    hposition "timestamp" rfl]
  rfl

/-- What the encoder writes determines the event. -/
theorem eventJson_lossless (decode64 : String → Option Bytes)
    (hdecodes : ∀ bytes, decode64 (encode64 bytes) = some bytes) :
    (∀ event, readEvent decode64 (eventJson encode64 event) = some event) ∧
      Function.Injective (eventJson encode64) := by
  refine ⟨readEvent_eventJson hdecodes, fun event event' h => ?_⟩
  have hread := readEvent_eventJson hdecodes event
  rw [h, readEvent_eventJson hdecodes event'] at hread
  exact (Option.some.inj hread).symm

/-- `general_purpose::STANDARD`. -/
def standard64 (bytes : Bytes) : String := String.ofList (Library.Base64.encode bytes)

theorem eventJson_lossless_base64 :
    eventJson standard64 { Event.at "t" 0 7 1 with value := some [0xff, 0xfe] } ≠
      eventJson standard64 { Event.at "t" 0 7 1 with value := some [0x2f, 0x2f, 0x34, 0x3d] } := by
  have hdecodes (bytes : Bytes) : Library.Base64.decode (standard64 bytes).toList = some bytes := by
    rw [standard64, String.toList_ofList, Library.Base64.decode_encode]
  have hlossless := eventJson_lossless (fun s => Library.Base64.decode s.toList) hdecodes
  exact fun h => absurd (hlossless.2 h) (by decide)

end RoundTrip

end Odradek.Web
