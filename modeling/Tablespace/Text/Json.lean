/-!
# JSON text

The parts of JSON that need no value type: strings and how they are escaped,
sequences between brackets, and values that are passed over unread. A reader
takes characters off the front and fails without a reason.
-/

namespace Tablespace

namespace Json

abbrev Reader (α : Type) := List Char → Option (α × List Char)

/-! ## Writing -/

def hexDigit (n : Nat) : Char := Char.ofNat (if n < 10 then 48 + n else 87 + n)

def escape (c : Char) : List Char :=
  if c = '"' then ['\\', '"']
  else if c = '\\' then ['\\', '\\']
  else if c = '\n' then ['\\', 'n']
  else if c = '\r' then ['\\', 'r']
  else if c = '\t' then ['\\', 't']
  else if c.toNat = 8 then ['\\', 'b']
  else if c.toNat = 12 then ['\\', 'f']
  else if c.toNat < 32 then
    ['\\', 'u', '0', '0', hexDigit (c.toNat / 16), hexDigit (c.toNat % 16)]
  else [c]

def quote (s : String) : String := String.ofList ('"' :: s.toList.flatMap escape ++ ['"'])

def array (items : List String) : String := "[" ++ String.intercalate "," items ++ "]"

/-! ## Reading -/

def isBlank (c : Char) : Bool := c = ' ' || c = '\n' || c = '\t' || c = '\r'

def skipBlanks (cs : List Char) : List Char := cs.dropWhile isBlank

def punctuation (c : Char) : Reader Unit := fun cs =>
  match skipBlanks cs with
  | d :: rest => if c = d then some ((), rest) else none
  | [] => none

def hexValue? (c : Char) : Option Nat :=
  if '0' ≤ c ∧ c ≤ '9' then some (c.toNat - 48)
  else if 'a' ≤ c ∧ c ≤ 'f' then some (c.toNat - 87)
  else if 'A' ≤ c ∧ c ≤ 'F' then some (c.toNat - 55)
  else none

def codeUnit : Reader Nat
  | a :: b :: c :: d :: rest => do
    let n := 4096 * (← hexValue? a) + 256 * (← hexValue? b) + 16 * (← hexValue? c) + (← hexValue? d)
    return (n, rest)
  | _ => none

def shortEscape? : Char → Option Char
  | '"' => some '"'
  | '\\' => some '\\'
  | '/' => some '/'
  | 'b' => some '\x08'
  | 'f' => some '\x0c'
  | 'n' => some '\n'
  | 'r' => some '\r'
  | 't' => some '\t'
  | _ => none

/-- The character of one or two code units; a surrogate that stands alone is none. -/
def unicodeEscape : Reader Char := fun cs => do
  let (high, rest) ← codeUnit cs
  if 0xDC00 ≤ high ∧ high ≤ 0xDFFF then none
  else if 0xD800 ≤ high ∧ high ≤ 0xDBFF then
    match rest with
    | '\\' :: 'u' :: rest =>
      let (low, rest) ← codeUnit rest
      if 0xDC00 ≤ low ∧ low ≤ 0xDFFF then
        return (Char.ofNat (0x10000 + 1024 * (high - 0xD800) + (low - 0xDC00)), rest)
      else none
    | _ => none
  else return (Char.ofNat high, rest)

def escaped : Reader Char
  | 'u' :: rest => unicodeEscape rest
  | c :: rest => (shortEscape? c).map fun d => (d, rest)
  | [] => none

/-- What stands behind a backslash in a string that is passed over: surrogates may stand alone. -/
def escapedUnread : Reader Char
  | 'u' :: rest => (codeUnit rest).map fun (_, rest) => ('u', rest)
  | c :: rest => (shortEscape? c).map fun d => (d, rest)
  | [] => none

/-- The characters up to the closing quote, with a given reader of escapes. -/
def stringTail (escape : Reader Char) : (fuel : Nat) → Reader (List Char)
  | 0, _ => none
  | _, [] => none
  | fuel + 1, c :: rest =>
    if c = '"' then some ([], rest)
    else if c = '\\' then do
      let (d, rest) ← escape rest
      let (more, rest) ← stringTail escape fuel rest
      return (d :: more, rest)
    else if c.toNat < 32 then none
    else do
      let (more, rest) ← stringTail escape fuel rest
      return (c :: more, rest)

def stringWith (escape : Reader Char) : Reader String := fun cs => do
  let ((), rest) ← punctuation '"' cs
  let (s, rest) ← stringTail escape rest.length rest
  return (String.ofList s, rest)

def string : Reader String := stringWith escaped

/-- Items behind an opening bracket, with commas between them, and the closing bracket. -/
def items {α : Type} (item : Reader α) (close : Char) : (fuel : Nat) → Reader (List α)
  | 0, _ => none
  | fuel + 1, cs => do
    let (first, rest) ← item cs
    match punctuation ',' rest with
    | some ((), rest) =>
      let (more, rest) ← items item close fuel rest
      return (first :: more, rest)
    | none =>
      let ((), rest) ← punctuation close rest
      return ([first], rest)

def sequence {α : Type} (opening close : Char) (item : Reader α) : Reader (List α) := fun cs => do
  let ((), rest) ← punctuation opening cs
  match punctuation close rest with
  | some ((), rest) => return ([], rest)
  | none => items item close rest.length rest

/-! ## Passing over -/

def digits (cs : List Char) : Option (List Char) :=
  match cs with
  | c :: rest => if c.isDigit then some (rest.dropWhile Char.isDigit) else none
  | [] => none

def integer (cs : List Char) : Option (List Char) :=
  match cs with
  | '0' :: rest => if (rest.head?.any Char.isDigit) then none else some rest
  | _ => digits cs

def fraction (cs : List Char) : Option (List Char) :=
  match cs with
  | '.' :: rest => digits rest
  | _ => some cs

def exponent (cs : List Char) : Option (List Char) :=
  match cs with
  | e :: rest =>
    if e = 'e' ∨ e = 'E' then
      match rest with
      | '+' :: rest => digits rest
      | '-' :: rest => digits rest
      | _ => digits rest
    else some cs
  | [] => some cs

def number (cs : List Char) : Option (List Char) := do
  let cs := match cs with
    | '-' :: rest => rest
    | _ => cs
  exponent (← fraction (← integer cs))

def word (w : String) (cs : List Char) : Option (List Char) :=
  if w.toList.isPrefixOf cs then some (cs.drop w.length) else none

/-- A value of any kind, which may nest as deep as it has characters. -/
def anyValue : (fuel : Nat) → Reader Unit
  | 0, _ => none
  | fuel + 1, cs =>
    let unread (rest : Option (List Char)) : Option (Unit × List Char) := rest.map fun r => ((), r)
    let cs := skipBlanks cs
    match cs with
    | '"' :: _ => (stringWith escapedUnread cs).map fun (_, rest) => ((), rest)
    | '[' :: _ => (sequence '[' ']' (anyValue fuel) cs).map fun (_, rest) => ((), rest)
    | '\x7b' :: _ =>
      let member : Reader Unit := fun cs => do
        let (_, rest) ← stringWith escapedUnread cs
        let ((), rest) ← punctuation ':' rest
        anyValue fuel rest
      (sequence '\x7b' '\x7d' member cs).map fun (_, rest) => ((), rest)
    | 'n' :: _ => unread (word "null" cs)
    | 't' :: _ => unread (word "true" cs)
    | 'f' :: _ => unread (word "false" cs)
    | _ => unread (number cs)

end Json

end Tablespace
