import Cogrouping.Schema
import Cogrouping.Text.Quoted
import Cogrouping.Text.Utf8

/-!
What can go wrong, by cause. The wording of a cause is the business of `message` alone. Where text is not
JSON, or not that of a description, the message does not say where and why.
-/

namespace Cogrouping

inductive ConfigFault
  | unreadable
  | unknownDirection (word : String)
  | emptyEntry (text : String)
  | extraWord (word entry : String)
  | noSources
  | repeatedSourceId (id : SourceId)
  | repeatedSourceName (name : String)
  | noOrder
  | repeatedInOrder (name : String)
  | comparatorsDiffer (field : String)
  | noGroupBy
  | rollupOutsideGroupBy (field : String) (groupBy : List String)
  | repeatedInSecondary (field source : String)
  | constantsDiffer (enumType : String)
  | noObjectCodec (name : String)
  | noComparator (name : String)
  /-- Values that a comparator holds equal may be written differently and so hash differently. -/
  | unhashable (field comparator : String)
  deriving DecidableEq, Repr

def ConfigFault.message : ConfigFault → String
  | unreadable => "malformed description"
  | unknownDirection word => s!"unknown sort order '{word}'"
  | emptyEntry text => s!"empty sort entry in '{text}'"
  | extraWord word entry => s!"unexpected '{word}' in sort entry '{entry}'"
  | noSources => "at least one source schema is required"
  | repeatedSourceId id => s!"duplicate source id {id.text}"
  | repeatedSourceName name => s!"duplicate source schema name '{name}'"
  | noOrder => "no sort order and no group-by fields"
  | repeatedInOrder name => s!"'{name}' appears twice in the sort order"
  | comparatorsDiffer field => s!"field '{field}' declares different comparators across sources"
  | noGroupBy => "at least one group-by field is required"
  | rollupOutsideGroupBy field groupBy =>
      s!"rollup-from field '{field}' is not a group-by field {Quoted.list groupBy}"
  | repeatedInSecondary field source =>
      s!"'{field}' appears twice in the secondary sort of '{source}'"
  | constantsDiffer enumType => s!"enum '{enumType}' is declared with different constants"
  | noObjectCodec name => s!"no object codec registered as '{name}'"
  | noComparator name => s!"no comparator registered as '{name}'"
  | unhashable field comparator =>
      s!"can't hash-partition on '{field}': it uses custom comparator '{comparator}'"

inductive SchemaFault
  | unknownConstant (symbol enumType : String)
  | unknownType (text : String)
  | missingType (entry : String)
  | emptyName
  | emptyFieldName (schema : String)
  | reservedName (schema : String)
  | repeatedField (field schema : String)
  | valueCount (schema : String) (fields values : Nat)
  | tupleSize (values : Nat) (source : String) (fields : Nat)
  deriving DecidableEq, Repr

def SchemaFault.message : SchemaFault → String
  | unknownConstant symbol enumType => s!"'{symbol}' is not a constant of enum '{enumType}'"
  | unknownType text => s!"unknown type '{text}'"
  | missingType entry => s!"expected 'name:type', got '{entry}'"
  | emptyName => "schema name must not be empty"
  | emptyFieldName schema => s!"schema '{schema}' has a field with an empty name"
  | reservedName schema => s!"field name '{sourceIdName}' is reserved (schema '{schema}')"
  | repeatedField field schema => s!"duplicate field '{field}' in schema '{schema}'"
  | valueCount schema fields values =>
      s!"schema '{schema}' has {fields} fields but {values} values were given"
  | tupleSize values source fields =>
      s!"tuple has {values} values but source '{source}' declares {fields} fields"

inductive SourceIdFault
  | tooFewSources (count : Nat)
  | inGroupBy
  | inSecondary (source : String)
  deriving DecidableEq, Repr

def SourceIdFault.message : SourceIdFault → String
  | tooFewSources count => s!"sorting by '{sourceIdName}' needs at least 2 sources, got {count}"
  | inGroupBy => "the source id can't be a group-by field"
  | inSecondary source => s!"'{sourceIdName}' can't appear in the secondary sort of '{source}'"

inductive FieldReference
  | named (field : String)
  | ofSchema (schema field : String)
  | atPosition (position : Nat) (schema : String)
  deriving DecidableEq, Repr

def FieldReference.text : FieldReference → String
  | named field => field
  | ofSchema schema field => s!"{schema}.{field}"
  | atPosition position schema => s!"position {position} of schema '{schema}'"

inductive SourceReference
  | named (schema : String)
  | numbered (id : SourceId)
  deriving DecidableEq, Repr

def SourceReference.text : SourceReference → String
  | named schema => schema
  | numbered id => id.text

/-- Why bytes cannot be written or read. Offsets count from the start of the buffer. -/
inductive CodecFault
  | varintHeader (header : UInt8)
  | varintMissing (offset : Nat)
  | varintShort (offset needed available : Nat)
  | varintOverflow (offset : Nat)
  | varintTooWide (value : Int64) (offset : Nat)
  | lengthOutside (value : Int64) (offset limit : Nat)
  | bytesMissing (needed offset size : Nat)
  | textTooLong (field : String) (size limit : Nat)
  | notBoolean (byte : UInt8) (offset : Nat)
  | notText (offset : Nat) (fault : Utf8.Fault)
  | unknownEnum (enumType : String)
  | ordinalOutside (ordinal : Nat) (enumType : String) (count : Nat)
  | sourceIdOutside (value : Int64) (offset : Nat)
  | trailingBytes (count : Nat) (source : String)
  | notJson
  | object (reason : String)
  deriving DecidableEq, Repr

def CodecFault.message : CodecFault → String
  | varintHeader header => s!"invalid varint header 0x{Bytes.toHex [header]}"
  | varintMissing offset => s!"varint truncated at offset {offset}"
  | varintShort offset needed available =>
      s!"varint at offset {offset} needs {needed} bytes, {available} available"
  | varintOverflow offset => s!"varint at offset {offset} overflows i64"
  | varintTooWide value offset => s!"varint {value.toInt} at offset {offset} overflows i32"
  | lengthOutside value offset limit =>
      s!"length {value.toInt} at offset {offset} outside 0..={limit}"
  | bytesMissing needed offset size =>
      s!"need {needed} bytes at offset {offset}, buffer has {size}"
  | textTooLong field size limit => s!"field '{field}' holds {size} bytes, limit is {limit}"
  | notBoolean byte offset => s!"invalid boolean byte {byte.toNat} at offset {offset}"
  | notText offset fault => s!"invalid UTF-8 at offset {offset}: {fault.message}"
  | unknownEnum enumType => s!"enum '{enumType}' is not part of the plan"
  | ordinalOutside ordinal enumType count =>
      s!"ordinal {ordinal} out of range for enum '{enumType}' ({count} constants)"
  | sourceIdOutside value offset =>
      s!"source id {value.toInt} at offset {offset} is out of range"
  | trailingBytes count source => s!"{count} trailing bytes after record of '{source}'"
  | notJson => "json decode"
  | object reason => reason

/-- What a correct caller never sees, or what an input breaks that was promised to be sorted. -/
inductive InvariantFault
  | noSpecificSchema (id : SourceId)
  | slotCount (schema : String) (slots fields : Nat)
  | noPosition (position : Nat) (schema : String)
  | noEncoding (kind field : String)
  | noSources
  | sourceIdInOne (position : Nat)
  | notSpecific (field source : String)
  | depthOutside (depth : Nat)
  | keyLacksDepth (depth : Nat)
  | sourceIdInKey
  | sourceIdInRollup
  | notDrained
  /-- The text of a group's key tuple, and that of the key before it. -/
  | unsorted (next previous : String)
  deriving DecidableEq, Repr

def InvariantFault.message : InvariantFault → String
  | noSpecificSchema id => s!"no specific schema projected for {id.text}"
  | slotCount schema slots fields =>
      s!"translation for '{schema}' has {slots} slots, schema has {fields} fields"
  | noPosition position schema => s!"tuple of '{schema}' has no position {position}"
  | noEncoding kind field =>
      s!"value {kind} passed the type check for field '{field}' but has no encoding"
  | noSources => "plan has no sources"
  | sourceIdInOne position =>
      s!"common position {position} maps to the source id in only one source"
  | notSpecific field source => s!"'{field}' is not specific to '{source}'"
  | depthOutside depth => s!"group depth {depth} out of range"
  | keyLacksDepth depth => s!"group key lacks depth {depth}"
  | sourceIdInKey => "group-by prefix contains the source id"
  | sourceIdInRollup => "source id inside the group-by prefix"
  | notDrained => "next_key called before the current group was drained"
  | unsorted next previous => s!"input is not sorted: group {next} follows {previous}"

inductive Error
  | config (fault : ConfigFault)
  | schema (fault : SchemaFault)
  | typeMismatch (field : String) (first second : DataType)
  | missingCommonField (field source : String)
  | sourceIdUsage (fault : SourceIdFault)
  | groupByNotLeading (groupBy common : List String)
  | secondaryOnCommonField (field source : String)
  | unknownField (field : FieldReference)
  | unorderableField (field : String)
  | fieldTypeMismatch (field : String) (expected : DataType) (found : String)
  | nullNotAllowed (field : String)
  | unknownSource (source : SourceReference)
  | codec (fault : CodecFault)
  | invariant (fault : InvariantFault)
  deriving DecidableEq, Repr

namespace Error

def message : Error → String
  | config fault => s!"Invalid configuration: {fault.message}"
  | schema fault => s!"Schema error: {fault.message}"
  | typeMismatch field first second =>
      s!"field '{field}' is sorted in common scope with inconsistent types: " ++
        s!"'{first.display}' vs '{second.display}'"
  | missingCommonField field source =>
      s!"field '{field}' is sorted in common scope but missing from source '{source}'"
  | sourceIdUsage fault => s!"invalid source id usage: {fault.message}"
  | groupByNotLeading groupBy common =>
      s!"group-by fields {Quoted.list groupBy} are not a prefix of the common order " ++
        Quoted.list common
  | secondaryOnCommonField field source =>
      s!"secondary sort of source '{source}' names field '{field}' " ++
        "which is already sorted in common scope"
  | unknownField field => s!"unknown field '{field.text}'"
  | unorderableField field => s!"field '{field}' has no intrinsic order and no custom comparator"
  | fieldTypeMismatch field expected found =>
      s!"field '{field}' with type {expected.display} can't contain {found}"
  | nullNotAllowed field => s!"field '{field}' can't contain a null value"
  | unknownSource source => s!"schema '{source.text}' is not a configured source"
  | codec fault => s!"codec error: {fault.message}"
  | invariant fault => s!"Internal invariant failed: {fault.message}"

def isConfig : Error → Bool
  | config _ | schema _ | typeMismatch .. | missingCommonField .. | sourceIdUsage _
  | groupByNotLeading .. | secondaryOnCommonField .. | unknownField _ | unorderableField _ => true
  | _ => false

end Error

/-- Why something comes to no result. Only what has failed says so itself. -/
inductive Stop (ε : Type)
  | failed (cause : ε)
  /-- More has been pulled from an input than its bound allows. What comes of going on is left open. -/
  | overrun
  /-- A sort has found its comparison to be no order, and breaks off. -/
  | panicked
  deriving DecidableEq, Repr

def Stop.map {ε δ : Type} (change : ε → δ) : Stop ε → Stop δ
  | failed cause => failed (change cause)
  | overrun => overrun
  | panicked => panicked

end Cogrouping
