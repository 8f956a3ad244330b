import Tablespace.Index.Outline
import Tablespace.Text.Json

/-!
# Outlines as JSON

An outline is written as an object with its keys and, unless there are none,
its children, without blanks. It is read from such an object with its members
in any order and others among them, or from an array of the keys and the
children. The children may be left out, a member must not be repeated, and no
more than 63 outlines may lie within one another.
-/

namespace Tablespace

namespace Outline

/-! ## Writing -/

mutual
def toJson : Outline → String
  | .node keys [] => "\x7b\"keys\":" ++ Json.array (keys.map Json.quote) ++ "\x7d"
  | .node keys (child :: rest) =>
    "\x7b\"keys\":" ++ Json.array (keys.map Json.quote) ++ ",\"children\":"
      ++ Json.array (toJson child :: toJsons rest) ++ "\x7d"
def toJsons : List Outline → List String
  | [] => []
  | child :: rest => toJson child :: toJsons rest
end

/-! ## Reading -/

inductive Member where
  | keys (ks : List String)
  | children (cs : List Outline)
  | other

def keyList : Json.Reader (List String) := Json.sequence '[' ']' Json.string

def member (children : Json.Reader (List Outline)) : Json.Reader Member := fun cs => do
  let (name, rest) ← Json.string cs
  let ((), rest) ← Json.punctuation ':' rest
  if name = "keys" then
    let (ks, rest) ← keyList rest
    return (.keys ks, rest)
  else if name = "children" then
    let (cs, rest) ← children rest
    return (.children cs, rest)
  else
    let ((), rest) ← Json.anyValue rest.length rest
    return (.other, rest)

def ofMembers (members : List Member) : Option Outline :=
  let keys := members.filterMap fun
    | .keys ks => some ks
    | _ => none
  let children := members.filterMap fun
    | .children cs => some cs
    | _ => none
  match keys, children with
  | [ks], [] => some (.node ks [])
  | [ks], [cs] => some (.node ks cs)
  | _, _ => none

/-- An outline as an array: the keys, and perhaps the children. -/
def ofArray (children : Json.Reader (List Outline)) : Json.Reader Outline := fun cs => do
  let ((), rest) ← Json.punctuation '[' cs
  let (ks, rest) ← keyList rest
  match Json.punctuation ',' rest with
  | none =>
    let ((), rest) ← Json.punctuation ']' rest
    return (.node ks [], rest)
  | some ((), rest) =>
    let (cs, rest) ← children rest
    let ((), rest) ← Json.punctuation ']' rest
    return (.node ks cs, rest)

/-- Reads an outline of at most `depth` levels. -/
def reader : (depth : Nat) → Json.Reader Outline
  | 0, _ => none
  | depth + 1, cs =>
    let children : Json.Reader (List Outline) := Json.sequence '[' ']' (reader depth)
    match Json.skipBlanks cs with
    | '[' :: _ => ofArray children cs
    | _ => do
      let (members, rest) ← Json.sequence '\x7b' '\x7d' (member children) cs
      return (← ofMembers members, rest)

def maxDepth : Nat := 63

/-- Reads a text that holds one outline and nothing else but blanks. -/
def ofJson? (text : String) : Option Outline := do
  let (outline, rest) ← reader maxDepth text.toList
  if Json.skipBlanks rest = [] then return outline else none

end Outline

end Tablespace
