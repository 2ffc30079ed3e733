-- The arguments of the command line. Options of the program stand before the
-- command, those of a command behind it. What does not fit is refused as a
-- whole, without a word on why; a question about the version or for help is
-- answered if all before it fits.
import PageStore.Assoc
import PageStore.Config
import PageStore.CommandLine.Command

namespace PageStore

structure Arguments where
  directory : String
  config : Config
  command : Command
  deriving Repr, DecidableEq

namespace Arguments

/-- What help is about. -/
inductive Topic where
  | program
  | command (name : CommandName)
  | help
  deriving Repr, DecidableEq

/-- Why arguments are not read up to their end. -/
inductive Stop where
  | version
  | help (topic : Topic)
  | misfit
  deriving Repr, DecidableEq

/-! ## Shapes of one argument -/

/-- What an argument is where options may stand. -/
inductive Shape where
  /-- Two dashes alone: no option comes after them. -/
  | divider
  /-- Two dashes and a name, with the value behind `=` if there is one. -/
  | long (name : String) (value : Option String)
  /-- One dash and letters. -/
  | short (letters : List Char)
  | plain
  deriving Repr, DecidableEq

/-- A text cut at the first `=`. -/
def cutAtEquals : List Char → List Char × Option (List Char)
  | [] => ([], none)
  | '=' :: rest => ([], some rest)
  | c :: rest => let (name, value) := cutAtEquals rest; (c :: name, value)

def shape (arg : String) : Shape :=
  match arg.toList with
  | ['-', '-'] => .divider
  | '-' :: '-' :: rest =>
    let (name, value) := cutAtEquals rest
    .long (String.ofList name) (value.map String.ofList)
  | '-' :: c :: rest => .short (c :: rest)
  | _ => .plain

/-- Only such an argument can be the value of the option before it. -/
def canBeValue (arg : String) : Bool := shape arg = .plain

/-! ## Options of the program -/

inductive Setting where
  | directory
  | pages
  | pageSize
  | lockTimeout
  deriving Repr, DecidableEq

namespace Setting

def ofName? : String → Option Setting
  | "data-dir" => some .directory
  | "pages" => some .pages
  | "page-size" => some .pageSize
  | "lock-timeout-ms" => some .lockTimeout
  | _ => none

def ofLetter? : Char → Option Setting
  | 'D' => some .directory
  | 'p' => some .pages
  | _ => none

/-- A number of 64 bits, without a minus. -/
def readNumber (text : String) : Option Nat :=
  match Decimal.read 0 0xffffffffffffffff text with
  | .ok n => some n.toNat
  | .error _ => none

/-- A directory must have a name; all else are numbers. -/
def accepts : Setting → String → Bool
  | .directory, text => text ≠ ""
  | _, text => (readNumber text).isSome

end Setting

/-- The settings that were given; each may be given once. -/
structure Settings where
  values : Assoc Setting String := .empty
  debug : Bool := false
  /-- A setting and its value that nobody has looked at: that waits for the next option or, if none
  comes before the command, for the end. -/
  pending : Option (Setting × String) := none

namespace Settings

def set (s : Settings) (setting : Setting) (value : String) : Except Stop Settings :=
  if s.values.contains setting || !setting.accepts value then .error .misfit
  else .ok { s with values := s.values.insert setting value }

/-- Looks at the setting that nobody has looked at. -/
def settle (s : Settings) : Except Stop Settings :=
  match s.pending with
  | none => .ok s
  | some (setting, value) => { s with pending := none }.set setting value

def setDebug (s : Settings) : Except Stop Settings :=
  if s.debug then .error .misfit else .ok { s with debug := true }

/-- Takes an option of two dashes. A setting that still wants its value is given back. -/
def setLong (s : Settings) (name : String) (value : Option String) :
    Except Stop (Settings × Option Setting) :=
  match name, value with
  | "debug", none => do return (← s.setDebug, none)
  | "help", none => .error (.help .program)
  | "version", none => .error .version
  | name, value =>
    match Setting.ofName? name, value with
    | none, _ => .error .misfit
    | some setting, some value => do return (← s.set setting value, none)
    | some setting, none => .ok (s, some setting)

/-- Takes letters behind one dash. What stands behind a letter that wants a value is its value; if
nothing does, the setting is given back and still wants one. -/
def setLetters (s : Settings) : List Char → Except Stop (Settings × Option Setting)
  | [] => .ok (s, none)
  | 'd' :: rest => do (← s.setDebug).setLetters rest
  | 'h' :: _ => .error (.help .program)
  | 'V' :: _ => .error .version
  | c :: rest =>
    match Setting.ofLetter? c, rest with
    | none, _ => .error .misfit
    | some setting, [] => .ok (s, some setting)
    | some setting, '=' :: value => do return (← s.set setting (String.ofList value), none)
    | some setting, value => do return (← s.set setting (String.ofList value), none)

/-- Reads options up to the command. `waiting` is a setting whose value comes next. -/
def read (s : Settings) (waiting : Option Setting) :
    List String → Except Stop (Settings × String × List String)
  | [] => .error .misfit
  | arg :: rest =>
    match waiting with
    | some setting =>
      if canBeValue arg then { s with pending := some (setting, arg) }.read none rest
      else .error .misfit
    | none =>
      match shape arg with
      | .plain => .ok (s, arg, rest)
      | .divider => .error .misfit
      | .long name value => do
        let (s, waiting) ← (← s.settle).setLong name value
        s.read waiting rest
      | .short letters => do
        let (s, waiting) ← (← s.settle).setLetters letters
        s.read waiting rest

/-- The value of a setting that is a number. -/
def number (s : Settings) (setting : Setting) (default : Nat) : Nat :=
  ((s.values.get? setting).bind Setting.readNumber).getD default

def config (s : Settings) : Config :=
  let standard : Config := {}
  { capacity := s.number .pages standard.capacity
    pageSize := s.number .pageSize standard.pageSize
    lockTimeout := s.number .lockTimeout standard.lockTimeout }

def directory (s : Settings) (default : String) : String := (s.values.get? .directory).getD default

end Settings

/-! ## Commands -/

/-- The arguments of a command: those that are no options, and the values of options. -/
structure Operands where
  plain : List String := []
  options : Assoc String String := .empty

namespace Operands

def add (o : Operands) (arg : String) : Operands := { o with plain := o.plain ++ [arg] }

def set (o : Operands) (name value : String) : Except Stop Operands :=
  if o.options.contains name then .error .misfit
  else .ok { o with options := o.options.insert name value }

/-- Help on the command, if all fits that stands before the wish for it. -/
def help (o : Operands) (name : CommandName) : Stop :=
  if Operand.canBegin name.operands o.plain then .help (.command name) else .misfit

/-- Reads the arguments of a command. `waiting` is an option whose value comes next. -/
def read (name : CommandName) (o : Operands) (waiting : Option String) :
    List String → Except Stop Operands
  | [] => if waiting.isSome then .error .misfit else .ok o
  | arg :: rest =>
    match waiting with
    | some option => do
      if canBeValue arg then read name (← o.set option arg) none rest else .error .misfit
    | none =>
      match shape arg with
      | .plain => read name (o.add arg) none rest
      | .divider => .ok { o with plain := o.plain ++ rest }
      | .short ('h' :: _) => .error (o.help name)
      | .short _ => .error .misfit
      | .long "help" none => .error (o.help name)
      | .long option value =>
        if option ∈ name.options then
          match value with
          | some value => do read name (← o.set option value) none rest
          | none => read name o (some option) rest
        else .error .misfit

end Operands

def commandOf (name : CommandName) (args : List String) : Except Stop Command := do
  let operands ← ({} : Operands).read name none args
  match name, operands.plain with
  | .create, table :: column :: columns => return .create table (column :: columns)
  | .insert, table :: value :: values => return .insert table (value :: values)
  | .scan, [table] => return .scan table
  | .delete, [table, page, slot] =>
    match Operand.readNumber CommandName.pageLimit page,
        Operand.readNumber CommandName.slotLimit slot with
    | some page, some slot => return .delete table page slot
    | _, _ => throw .misfit
  | .aggregate, [table, function, column] =>
    return .aggregate table function column (operands.options.get? CommandName.groupBy)
  | .stats, [] => return .stats
  | _, _ => throw .misfit

/-- What the command `help` is asked for. -/
def helpOn : List String → Stop
  | [] => .help .program
  | ["help"] => .help .help
  | [word] => (CommandName.ofWord? word).elim .misfit fun name => .help (.command name)
  | _ => .misfit

/-- Reads all arguments. -/
def ofList (defaultDirectory : String) (args : List String) : Except Stop Arguments := do
  let (settings, word, rest) ← ({} : Settings).read none args
  if word = "help" then throw (helpOn rest)
  match CommandName.ofWord? word with
  | none => throw .misfit
  | some name =>
    let command ← commandOf name rest
    let settings ← settings.settle
    return { directory := settings.directory defaultDirectory, config := settings.config, command }

end Arguments

end PageStore
