import Tablespace.CommandLine.Inspect
import Tablespace.Heap
import Tablespace.Index.OutlineJson

/-!
# Command line

One command prints the slots of every page of a record file, the other the
outline of an index. What was printed before a failure stays printed; the
counts of page accesses go to the error stream at the end.
-/

namespace Tablespace

namespace CommandLine

inductive Command where
  | pages (file : String)
  | tree (file : String) (keyType : AttributeType)
deriving DecidableEq, Repr

inductive Request where
  | command (c : Command)
  | about (text : String)
  | misuse
deriving DecidableEq, Repr

structure Outcome where
  code : Nat
  out : String
  err : String
deriving DecidableEq, Repr

/-! ## Texts -/

def versionText : String := "pagedb 0.1.0\n"

def helpText : String :=
  "Inspect record and index files\n\n"
    ++ "Usage: pagedb <COMMAND>\n\n"
    ++ "Commands:\n"
    ++ "  pages  Print slot statistics for every page of a record file\n"
    ++ "  tree   Print the B+ tree of an index file as JSON\n"
    ++ "  help   Print this message or the help of the given subcommand(s)\n\n"
    ++ "Options:\n"
    ++ "  -h, --help     Print help\n"
    ++ "  -V, --version  Print version\n"

def pagesHelpText : String :=
  "Print slot statistics for every page of a record file\n\n"
    ++ "Usage: pagedb pages <FILE>\n\n"
    ++ "Arguments:\n"
    ++ "  <FILE>  \n\n"
    ++ "Options:\n"
    ++ "  -h, --help  Print help\n"

def treeHelpText : String :=
  "Print the B+ tree of an index file as JSON\n\n"
    ++ "Usage: pagedb tree [OPTIONS] <FILE>\n\n"
    ++ "Arguments:\n"
    ++ "  <FILE>  \n\n"
    ++ "Options:\n"
    ++ "      --key-type <KEY_TYPE>  [default: int] [possible values: int, real, varchar]\n"
    ++ "  -h, --help                 Print help\n"

def helpHelpText : String :=
  "Print this message or the help of the given subcommand(s)\n\n"
    ++ "Usage: pagedb help [COMMAND]...\n\n"
    ++ "Arguments:\n"
    ++ "  [COMMAND]...  Print help for the subcommand(s)\n"

/-! ## Arguments -/

def keyTypes : List (String × AttributeType) :=
  [("int", .int), ("real", .real), ("varchar", .varchar)]

structure Given where
  file : Option String := none
  keyType : Option AttributeType := none

def isOption (arg : String) : Bool := arg.startsWith "-" && arg ≠ "-"

/-- Options of one letter are read letter by letter, and the first letter that asks for a text
answers: what follows it in the argument is not looked at. -/
def asksHelp (arg : String) : Bool := arg = "--help" || arg.startsWith "-h"

def asksVersion (arg : String) : Bool := arg = "--version" || arg.startsWith "-V"

/-- Reads the arguments of a command. Only the command with a key type takes that option, once.
Behind two dashes no argument is an option. -/
def given (takesKeyType : Bool) (help : String) : Given → List String → Except Request Given
  | g, [] => .ok g
  | g, "--" :: rest => rest.foldlM file g
  | g, "--key-type" :: value :: rest =>
    if isOption value then .error .misuse
    else do given takesKeyType help (← keyType g value) rest
  | g, arg :: rest =>
    if asksHelp arg then .error (.about help)
    else if arg.startsWith "--key-type=" then do
      given takesKeyType help (← keyType g (arg.drop "--key-type=".length).toString) rest
    else if isOption arg then .error .misuse
    else do given takesKeyType help (← file g arg) rest
where
  file (g : Given) (arg : String) : Except Request Given :=
    if g.file.isSome ∨ arg = "" then .error .misuse else .ok { g with file := some arg }
  keyType (g : Given) (value : String) : Except Request Given :=
    match takesKeyType, g.keyType, keyTypes.lookup value with
    | true, none, some t => .ok { g with keyType := some t }
    | _, _, _ => .error .misuse

def command (takesKeyType : Bool) (help : String) (make : String → AttributeType → Command)
    (args : List String) : Request :=
  match given takesKeyType help {} args with
  | .ok { file := some file, keyType } => .command (make file (keyType.getD .int))
  | .ok _ => .misuse
  | .error request => request

def request : List String → Request
  | "pages" :: args => command false pagesHelpText (fun file _ => .pages file) args
  | "tree" :: args => command true treeHelpText .tree args
  | ["help"] => .about helpText
  | ["help", "help"] => .about helpHelpText
  | ["help", "pages"] => .about pagesHelpText
  | ["help", "tree"] => .about treeHelpText
  | arg :: _ =>
    if asksHelp arg then .about helpText
    else if asksVersion arg then .about versionText
    else .misuse
  | [] => .misuse

/-! ## Running -/

def countersLine (c : Counters) : String :=
  s!"reads={c.reads} writes={c.writes} appends={c.appends}\n"

def failure (out reason : String) : Outcome := ⟨1, out, s!"Error: {reason}\n"⟩

def padLeft (width : Nat) (s : String) : String :=
  String.ofList (List.replicate (width - s.length) ' ') ++ s

def pageLine (p : SlottedPage) (t : SlotTally) : String :=
  s!"page {padLeft 5 (toString p.number)}: slots={p.trailer.slotCount} occupied={t.occupied} " ++
    s!"deleted={t.deleted} forwarded={t.forwarded} moved={t.moved} free={p.freeSpace}\n"

/-- The lines of pages one after the other. A failure of the file itself is reported as such, and
not as one of its records. -/
def pageLines (out : String) : List PageNum → Access → Outcome
  | [], access => ⟨0, out, countersLine access.counters⟩
  | n :: rest, access =>
    match (Access.readPage n).run access with
    | .error e _ => failure out e.inspect
    | .ok b access =>
      let page : Except RecordError String := do
        let p ← SlottedPage.ofBytes b n
        return pageLine p (← p.tally)
      match page with
      | .error e => failure out e.inspect
      | .ok line => pageLines (out ++ line) rest access

def runPages (opened : Except FileError Access) : Outcome :=
  match opened with
  | .error e => failure "" e.inspect
  | .ok access =>
    match Access.pageCount.run access with
    | .error e _ => failure "" e.inspect
    | .ok count access => pageLines "" ((List.range count.toNat).map UInt32.ofNat) access

def runTree (keyType : AttributeType) (opened : Except FileError Access) : Outcome :=
  match opened with
  | .error e => failure "" (IndexError.file e).inspect
  | .ok access =>
    match (Index.outline ⟨"key", keyType, 1000⟩).run access with
    | .error e _ => failure "" e.inspect
    | .ok outline access => ⟨0, outline.toJson ++ "\n", countersLine access.counters⟩

def Command.file : Command → String
  | .pages file => file
  | .tree file _ => file

def Command.run (c : Command) (opened : Except FileError Access) : Outcome :=
  match c with
  | .pages _ => runPages opened
  | .tree _ keyType => runTree keyType opened

/-- Runs the program on its arguments, with a function that opens files. -/
def run {m : Type → Type} [Monad m] (openFile : String → m (Except FileError Access))
    (args : List String) : m Outcome :=
  match request args with
  | .command c => c.run <$> openFile c.file
  | .about text => pure ⟨0, text, ""⟩
  | .misuse => pure ⟨2, "", helpText⟩

end CommandLine

end Tablespace
