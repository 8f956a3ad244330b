/-!
# Schemas

A schema lists the attributes of a record in order. An attribute has a name, a
type and a declared length, which bounds the bytes of a text.
-/

namespace Tablespace

inductive AttributeType where
  | int
  | real
  | varchar
deriving DecidableEq, Repr

namespace AttributeType

def name : AttributeType → String
  | .int => "Int"
  | .real => "Real"
  | .varchar => "VarChar"

def code : AttributeType → UInt32
  | .int => 0
  | .real => 1
  | .varchar => 2

def ofCode? (code : UInt32) : Option AttributeType :=
  [.int, .real, .varchar].find? fun t => t.code = code

end AttributeType

structure Attribute where
  name : String
  type : AttributeType
  length : UInt32
deriving DecidableEq, Repr

namespace Attribute

def int (name : String) : Attribute := ⟨name, .int, 4⟩
def real (name : String) : Attribute := ⟨name, .real, 4⟩
def varchar (name : String) (length : UInt32) : Attribute := ⟨name, .varchar, length⟩

end Attribute

abbrev Schema := List Attribute

end Tablespace
