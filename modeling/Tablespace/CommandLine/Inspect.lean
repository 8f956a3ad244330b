import Tablespace.Index.Error
import Tablespace.Text.Quoted

/-!
# Errors by structure

The command line reports an error by its kind and fields rather than as a
sentence.
-/

namespace Tablespace

open Quoted (quote)

def withFields (kind : String) (fields : List (String × String)) : String :=
  let fields := fields.map fun (name, value) => name ++ ": " ++ value
  kind ++ " \x7b " ++ String.intercalate ", " fields ++ " \x7d"

def PathFault.kind : PathFault → String
  | .notFound => "NotFound"
  | .alreadyExists => "AlreadyExists"
  | .notADirectory => "NotADirectory"
  | .isADirectory => "IsADirectory"
  | .nameTooLong => "InvalidFilename"
  | .nulByte => "InvalidInput"

def PathFault.inspect (f : PathFault) : String :=
  let fields := [("kind", f.kind), ("message", quote f.text)]
  match f.code? with
  | some code => withFields "Os" (("code", toString code) :: fields)
  | none => withFields "Error" fields

def OutOfBounds.inspect (a : OutOfBounds) : String :=
  withFields "OutOfBounds"
    [("offset", toString a.offset), ("len", toString a.length), ("size", toString a.size)]

def FileError.inspect : FileError → String
  | .io fault => s!"Io({fault.inspect})"
  | .fileNotFound path => s!"FileNotFound({quote path})"
  | .fileAlreadyExists path => s!"FileAlreadyExists({quote path})"
  | .handleAlreadyOpen path => s!"HandleAlreadyOpen({quote path})"
  | .handleNotOpen => "HandleNotOpen"
  | .pageNotFound page pageCount =>
    withFields "PageNotFound" [("page_num", toString page), ("page_count", toString pageCount)]
  | .invalidPageSize expected actual =>
    withFields "InvalidPageSize" [("expected", toString expected), ("actual", toString actual)]
  | .outOfBounds access => access.inspect

def corruptionRecord (page : PageNum) (reason : String) : String :=
  withFields "Corruption" [("page_num", toString page), ("reason", quote reason)]

def RecordError.inspect : RecordError → String
  | .file error => s!"File({error.inspect})"
  | .recordNotFound id => s!"RecordNotFound({id.inspect})"
  | .attributeNotFound name => s!"AttributeNotFound({quote name})"
  | .recordTooLarge size capacity =>
    withFields "RecordTooLarge" [("size", toString size), ("capacity", toString capacity)]
  | .malformedTuple fault => s!"MalformedTuple({quote fault.message})"
  | .unknownType code => s!"UnknownType({code})"
  | .typeMismatch expected actual =>
    withFields "TypeMismatch" [("expected", quote expected.name), ("actual", quote actual.name)]
  | .corruptRecord fault => s!"CorruptRecord({quote fault.message})"
  | .corruption page fault => corruptionRecord page fault.message

def IndexError.inspect : IndexError → String
  | .file error => s!"File({error.inspect})"
  | .entryNotFound key id => withFields "EntryNotFound" [("key", quote key), ("rid", id.inspect)]
  | .malformedKey fault => s!"MalformedKey({quote fault.message})"
  | .keyTooLarge size limit =>
    withFields "KeyTooLarge" [("size", toString size), ("max", toString limit)]
  | .corruption page fault => corruptionRecord page fault.message

end Tablespace
