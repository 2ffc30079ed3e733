-- What the program says of itself: its version, and help on the program and on
-- each command. Help has a sentence, a line that shows how to call it, and tables
-- of names with what they mean.
import PageStore.CommandLine.Arguments

namespace PageStore

structure Program where
  /-- The name that stands before the version. -/
  product : String
  /-- The name by which the program is called. -/
  command : String
  version : String
  /-- Where tables are kept if no directory is named. -/
  directory : String
  deriving Repr, DecidableEq

/-! ## Tables -/

/-- A table of names with what they mean, under a heading. -/
structure HelpTable where
  heading : String
  rows : List (String × String)
  deriving Repr, DecidableEq

namespace HelpTable

/-- The columns of a line. -/
def lineWidth : Nat := 100

/-- The length of the longest name. -/
def nameWidth (t : HelpTable) : Nat := (t.rows.map fun row => row.1.length).foldl max 0

/-- Where meanings begin that stand beside the names, and two blanks more. -/
def taken (t : HelpTable) : Nat := t.nameWidth + 4

/-- Whether meanings stand below the names: the names take more than two fifths of a line, and some
meaning does not end in the line if it stands beside them. -/
def isStacked (t : HelpTable) : Bool :=
  2 * lineWidth < 5 * t.taken && t.rows.any fun row => lineWidth < t.taken + row.2.length

/-- A text with blanks up to a width. -/
def padded (width : Nat) (text : String) : String := text.pushn ' ' (width - text.length)

def line (t : HelpTable) (row : String × String) : String :=
  if t.isStacked then "  " ++ row.1 ++ "\n          " ++ row.2
  else "  " ++ padded t.nameWidth row.1 ++ "  " ++ row.2

def text (t : HelpTable) : String := t.heading ++ ":\n" ++ "\n".intercalate (t.rows.map t.line)

end HelpTable

/-! ## Commands -/

namespace Operand

/-- An operand as the line shows it that tells how to call a command. -/
def shown (o : Operand) : String := "<" ++ o.name ++ ">" ++ if o.repeated then "..." else ""

end Operand

namespace CommandName

def purpose : CommandName → String
  | .create => "Create a table from columns written as type:name, e.g. int:id string:name"
  | .insert => "Insert one row; values are given in column order"
  | .scan => "Print every row of a table"
  | .delete => "Delete the row at a page and slot"
  | .aggregate => "Compute count, sum, avg, min or max of a column, optionally per group"
  | .stats => "List tables and buffer pool settings"

/-- An option with the name of its value. -/
def shownOption (option : String) : String :=
  let value := String.ofList (option.toList.map fun c => if c = '-' then '_' else c.toUpper)
  "    --" ++ option ++ " <" ++ value ++ ">"

end CommandName

/-! ## The program -/

namespace Program

def versionLine (p : Program) : String := p.product ++ " " ++ p.version ++ "\n"

def helpOption : String × String := ("-h, --help", "Print help")

def helpPurpose : String := "Print this message or the help of the given subcommand(s)"

/-- The commands, with the one that gives help. -/
def commandTable : HelpTable where
  heading := "Commands"
  rows := CommandName.all.map (fun name => (name.word, name.purpose)) ++ [("help", helpPurpose)]

def optionTable (p : Program) : HelpTable :=
  let standard : Config := {}
  { heading := "Options"
    rows :=
      [("-D, --data-dir <DATA_DIR>", s!"Data directory [default: {p.directory}]"),
       ("-p, --pages <PAGES>", s!"Number of pages the buffer pool holds [default: {standard.capacity}]"),
       ("    --page-size <PAGE_SIZE>", s!"Page size in bytes [default: {standard.pageSize}]"),
       ("    --lock-timeout-ms <LOCK_TIMEOUT_MS>",
        "How long to wait for a page lock before aborting, in milliseconds " ++
          s!"[default: {standard.lockTimeout}]"),
       ("-d, --debug", "Enable debug logging"),
       helpOption,
       ("-V, --version", "Print version")] }

/-- The sentence of a topic, how to call what it is about, and its tables. -/
def page (p : Program) (purpose : String) (call : List String) (tables : List HelpTable) : String :=
  let usage := "Usage: " ++ " ".intercalate (p.command :: call)
  "\n\n".intercalate (purpose :: usage :: tables.map HelpTable.text) ++ "\n"

def commandPage (p : Program) (name : CommandName) : String :=
  let options := name.options.map fun option => (CommandName.shownOption option, "")
  let operands := name.operands.map Operand.shown
  let operandTable : HelpTable := { heading := "Arguments", rows := operands.map fun o => (o, "") }
  let optionTable : HelpTable := { heading := "Options", rows := options ++ [helpOption] }
  p.page name.purpose (name.word :: (if options.isEmpty then [] else ["[OPTIONS]"]) ++ operands)
    (if operands.isEmpty then [optionTable] else [operandTable, optionTable])

def helpOn (p : Program) : Arguments.Topic → String
  | .program =>
    p.page (p.command ++ " - a page-based storage engine with two-phase locking")
      ["[OPTIONS]", "<COMMAND>"] [commandTable, p.optionTable]
  | .command name => p.commandPage name
  | .help =>
    p.page helpPurpose ["help", "[COMMAND]..."]
      [{ heading := "Arguments", rows := [("[COMMAND]...", "Print help for the subcommand(s)")] }]

end Program

end PageStore
