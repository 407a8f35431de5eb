import Odradek.Protocol.Flexible
import Odradek.Protocol.Records

/-!
The two ApiVersions messages, versions 0 to 4 (`api_versions_request.rs`,
`api_versions_response.rs`). From version 3 on they are flexible; a response
carries its features in known tagged fields, each absent when it is `None`.
-/

namespace Odradek.Protocol

open Library Library.Decoder

/-- `is_flexible` of both messages. -/
def apiVersionsFlexible (version : Int16) : Bool := version ≥ 3

def apiVersionSize : Nat := 32
def featureKeySize : Nat := 56

structure ApiVersionsRequest where
  clientSoftwareName : String := ""
  clientSoftwareVersion : String := ""
  unknownTaggedFields : List RawTaggedField := []
  deriving DecidableEq

def ApiVersionsRequest.minVersion : Int16 := 0
def ApiVersionsRequest.maxVersion : Int16 := 4

def ApiVersionsRequest.encode (request : ApiVersionsRequest) (version : Int16) :
    Except EncodeError Bytes := do
  let flexible := apiVersionsFlexible version
  let name ← if version ≥ 3 then putFlexString flexible request.clientSoftwareName else .ok []
  let software ←
    if version ≥ 3 then putFlexString flexible request.clientSoftwareVersion else .ok []
  pure (name ++ (software ++
    if flexible then putTaggedFields request.unknownTaggedFields else []))

structure ApiVersion where
  apiKey : Int16 := 0
  minVersion : Int16 := 0
  maxVersion : Int16 := 0
  unknownTaggedFields : List RawTaggedField := []
  deriving DecidableEq

structure SupportedFeatureKey where
  name : String := ""
  minVersion : Int16 := 0
  maxVersion : Int16 := 0
  unknownTaggedFields : List RawTaggedField := []
  deriving DecidableEq

structure FinalizedFeatureKey where
  name : String := ""
  maxVersionLevel : Int16 := 0
  minVersionLevel : Int16 := 0
  unknownTaggedFields : List RawTaggedField := []
  deriving DecidableEq

structure ApiVersionsResponse where
  errorCode : Int16 := 0
  apiKeys : List ApiVersion := []
  throttleTimeMs : Int32 := 0
  supportedFeatures : Option (List SupportedFeatureKey) := none
  finalizedFeaturesEpoch : Option Int64 := none
  finalizedFeatures : Option (List FinalizedFeatureKey) := none
  zkMigrationReady : Option Bool := none
  unknownTaggedFields : List RawTaggedField := []
  deriving DecidableEq

section Encode

variable (version : Int16)

def putUnknown (fields : List RawTaggedField) : Bytes :=
  if apiVersionsFlexible version then putTaggedFields fields else []

def ApiVersion.encode (item : ApiVersion) : Except EncodeError Bytes :=
  .ok (putI16 item.apiKey ++ (putI16 item.minVersion ++ (putI16 item.maxVersion ++
    putUnknown version item.unknownTaggedFields)))

/-- A name and two versions, in the order they are written. -/
def putFeature (name : String) (first second : Int16) (unknown : List RawTaggedField) :
    Except EncodeError Bytes := do
  let name ←
    if version ≥ 3 then putFlexString (apiVersionsFlexible version) name else .ok []
  pure (name ++ ((if version ≥ 3 then putI16 first else []) ++
    ((if version ≥ 3 then putI16 second else []) ++ putUnknown version unknown)))

def SupportedFeatureKey.encode (item : SupportedFeatureKey) : Except EncodeError Bytes :=
  putFeature version item.name item.minVersion item.maxVersion item.unknownTaggedFields

def FinalizedFeatureKey.encode (item : FinalizedFeatureKey) : Except EncodeError Bytes :=
  putFeature version item.name item.maxVersionLevel item.minVersionLevel item.unknownTaggedFields

def ApiVersionsResponse.taggedFields (response : ApiVersionsResponse) :
    Except EncodeError (List RawTaggedField) := do
  let flexible := apiVersionsFlexible version
  let supported ←
    if version ≥ 3 then
      putKnown 0 (putFlexArray flexible (SupportedFeatureKey.encode version))
        response.supportedFeatures
    else .ok []
  let epoch ←
    if version ≥ 3 then
      putKnown 1 (fun epoch => .ok (putI64 epoch)) response.finalizedFeaturesEpoch
    else .ok []
  let finalized ←
    if version ≥ 3 then
      putKnown 2 (putFlexArray flexible (FinalizedFeatureKey.encode version))
        response.finalizedFeatures
    else .ok []
  let ready ←
    if version ≥ 3 then
      putKnown 3 (fun ready => .ok (putBool ready)) response.zkMigrationReady
    else .ok []
  pure (response.unknownTaggedFields ++ (supported ++ (epoch ++ (finalized ++ ready))))

def ApiVersionsResponse.putTagged (response : ApiVersionsResponse) : Except EncodeError Bytes :=
  if apiVersionsFlexible version then do
    let tagged ← response.taggedFields version
    pure (putTaggedFields (sortByTag tagged))
  else .ok []

def ApiVersionsResponse.encode (response : ApiVersionsResponse) : Except EncodeError Bytes := do
  let keys ←
    putFlexArray (apiVersionsFlexible version) (ApiVersion.encode version) response.apiKeys
  let tagged ← response.putTagged version
  pure (putI16 response.errorCode ++ (keys ++
    ((if version ≥ 1 then putI32 response.throttleTimeMs else []) ++ tagged)))

end Encode

section Decode

variable (version : Int16)

def getUnknown : Decode (List RawTaggedField) :=
  if apiVersionsFlexible version then getTaggedFields else pure []

def ApiVersion.decode : Decode ApiVersion := do
  let apiKey ← getI16
  let minVersion ← getI16
  let maxVersion ← getI16
  let unknownTaggedFields ← getUnknown version
  pure { apiKey, minVersion, maxVersion, unknownTaggedFields }

def getFeature {α : Type} (make : String → Int16 → Int16 → List RawTaggedField → α) :
    Decode α := do
  let name ←
    if version ≥ 3 then getFlexString (apiVersionsFlexible version) else pure ""
  let first ← if version ≥ 3 then getI16 else pure 0
  let second ← if version ≥ 3 then getI16 else pure 0
  let unknown ← getUnknown version
  pure (make name first second unknown)

def SupportedFeatureKey.decode : Decode SupportedFeatureKey := getFeature version .mk

def FinalizedFeatureKey.decode : Decode FinalizedFeatureKey := getFeature version .mk

/-- One turn of the loop over a response's tagged fields, with the `Vec` of the
unknown ones. -/
def ApiVersionsResponse.takeTagged (response : ApiVersionsResponse)
    (unknown : Vec RawTaggedField) (raw : RawTaggedField) :
    Decode (ApiVersionsResponse × Vec RawTaggedField) := do
  let flexible := apiVersionsFlexible version
  if raw.tag = 0 ∧ version ≥ 3 then
    let features ← getKnown (getFlexArray flexible featureKeySize
      (progressing (SupportedFeatureKey.decode version))) raw.data
    pure ({ response with supportedFeatures := some features }, unknown)
  else if raw.tag = 1 ∧ version ≥ 3 then
    let epoch ← getKnown getI64 raw.data
    pure ({ response with finalizedFeaturesEpoch := some epoch }, unknown)
  else if raw.tag = 2 ∧ version ≥ 3 then
    let features ← getKnown (getFlexArray flexible featureKeySize
      (progressing (FinalizedFeatureKey.decode version))) raw.data
    pure ({ response with finalizedFeatures := some features }, unknown)
  else if raw.tag = 3 ∧ version ≥ 3 then
    let ready ← getKnown getBool raw.data
    pure ({ response with zkMigrationReady := some ready }, unknown)
  else
    let unknown ← push rawTaggedFieldSize unknown raw
    pure (response, unknown)

def ApiVersionsResponse.takeAllTagged (response : ApiVersionsResponse)
    (unknown : Vec RawTaggedField) : List RawTaggedField → Decode ApiVersionsResponse
  | [] => pure { response with unknownTaggedFields := unknown.items }
  | raw :: rest => do
    let (response, unknown) ← response.takeTagged version unknown raw
    response.takeAllTagged unknown rest

def ApiVersionsResponse.decode : Decode ApiVersionsResponse := do
  let errorCode ← getI16
  let apiKeys ← getFlexArray (apiVersionsFlexible version) apiVersionSize
    (progressing (ApiVersion.decode version))
  let throttleTimeMs ← (if version ≥ 1 then getI32 else pure 0)
  let response : ApiVersionsResponse := { errorCode, apiKeys, throttleTimeMs }
  if apiVersionsFlexible version then
    let fields ← getTaggedFields
    response.takeAllTagged version (Vec.new rawTaggedFieldSize) fields
  else pure response

end Decode

end Odradek.Protocol
