import Tablespace.Page.Slot
import Tablespace.Record.Schema
import Tablespace.Text.Utf8

/-!
# Failures of records
-/

namespace Tablespace

inductive TupleFault where
  | valueCount (expected actual : Nat)
  | textTooLong (actual : Nat) (declared : Attribute)
  | truncatedValue (type : AttributeType)
  | invalidText (fault : Utf8Fault)
  | nullKey
  | truncatedBitmap
  | trailing (count : Nat)
  | notAKey (size : Nat) (type : AttributeType)
  | truncatedField (name : String)
  | fieldTooLong (name : String) (actual : Nat) (declared : UInt32)
  | noSuchField (index count : Nat)
  | missingComparand (comparison name : String)
deriving DecidableEq, Repr

inductive PackedFault where
  | outside (index : Nat)
  | reversed (index : Nat) (stop start : UInt16)
  | wrongWidth (index actual : Nat)
deriving DecidableEq, Repr

inductive RecordError where
  | file (error : FileError)
  | recordNotFound (id : RecordId)
  | attributeNotFound (name : String)
  | recordTooLarge (size capacity : Nat)
  | malformedTuple (fault : TupleFault)
  | unknownType (code : UInt32)
  | typeMismatch (expected actual : AttributeType)
  | corruptRecord (fault : PackedFault)
  | corruption (page : PageNum) (fault : PageFault)
deriving DecidableEq, Repr

def TupleFault.message : TupleFault → String
  | .valueCount expected actual => s!"Expected {expected} values, got {actual}"
  | .textTooLong actual declared =>
    s!"String length {actual} exceeds max length {declared.length} of '{declared.name}'"
  | .truncatedValue type => s!"Truncated {type.name} field"
  | .invalidText fault => s!"Invalid UTF-8: {fault.message}"
  | .nullKey => "NULL has no key encoding"
  | .truncatedBitmap => "Truncated null bitmap"
  | .trailing count => s!"{count} trailing bytes after last field"
  | .notAKey size type => s!"{size} byte key is not a valid {type.name}"
  | .truncatedField name => s!"Field '{name}' is truncated"
  | .fieldTooLong name actual declared =>
    s!"Field '{name}' has {actual} bytes, declared length is {declared}"
  | .noSuchField index count => s!"Field {index} of {count} does not exist"
  | .missingComparand comparison name =>
    s!"{comparison} on '{name}' needs a comparison value"

def PackedFault.message : PackedFault → String
  | .outside index => s!"Field {index} lies outside the record"
  | .reversed index stop start =>
    s!"Field {index} ends at {stop} before it starts at {start}"
  | .wrongWidth index actual => s!"Field {index} has {actual} bytes, expected 4"

def RecordError.message : RecordError → String
  | .file error => s!"File error: {error.message}"
  | .recordNotFound id => s!"Record not found: {id.display}"
  | .attributeNotFound name => s!"Attribute not found: {name}"
  | .recordTooLarge size capacity =>
    s!"Record of {size} bytes exceeds page capacity of {capacity} bytes"
  | .malformedTuple fault => s!"Malformed tuple: {fault.message}"
  | .unknownType code => s!"Unknown attribute type code: {code}"
  | .typeMismatch expected actual =>
    s!"Type mismatch: expected {expected.name}, got {actual.name}"
  | .corruptRecord fault => s!"Corrupted record: {fault.message}"
  | .corruption page fault => s!"Corrupted page {page}: {fault.message}"

/-- The position of an attribute by name; of equal names the first counts. -/
def Schema.find (schema : Schema) (name : String) : Except RecordError Nat :=
  match schema.findIdx? fun a => a.name = name with
  | some index => .ok index
  | none => .error (.attributeNotFound name)

end Tablespace
