-- What the command line says when a command fails.
import PageStore.Error

namespace PageStore

/-- Why a command fails. -/
inductive Complaint where
  | error (e : Error)
  | cannotOpen (directory : String) (e : Error)
  | cannotCreate (table : String) (e : Error)
  | notAColumn (arg : String)
  | valueCount (table : String) (columns got : Nat)
  | noColumn (table column : String)
  deriving Repr, DecidableEq

namespace Complaint

def message : Complaint → String
  | .error e => e.message
  | .cannotOpen directory _ => s!"Failed to open database in {directory}"
  | .cannotCreate table _ => s!"Failed to create table '{table}'"
  | .notAColumn arg => s!"column '{arg}' is not of the form type:name"
  | .valueCount table columns got => s!"table '{table}' has {columns} columns, got {got} values"
  | .noColumn table column => s!"table '{table}' has no column '{column}'"

/-- What lies behind, nearest first. -/
def causes : Complaint → List String
  | .error e => e.causes
  | .cannotOpen _ e => e.message :: e.causes
  | .cannotCreate _ e => e.message :: e.causes
  | _ => []

/-- A text whose first line stands behind `head` and whose other lines are indented as far. -/
def indented (head blank : String) (text : String) : String :=
  head ++ ("\n" ++ blank).intercalate (text.splitOn "\n")

/-- A number in front of a cause, five places wide. -/
def numbered (n : Nat) : String :=
  let digits := toString n
  "".pushn ' ' (5 - digits.length) ++ digits ++ ": "

/-- The causes, each on lines of its own; they are numbered if there are several. -/
def causeLines (causes : List String) : List String :=
  match causes with
  | [cause] => [indented "    " "    " cause]
  | causes => causes.mapIdx fun n cause => indented (numbered n) "       " cause

/-- All that is printed. -/
def report (c : Complaint) : String :=
  let behind :=
    if c.causes.isEmpty then ""
    else "\n\nCaused by:" ++ String.join ((causeLines c.causes).map ("\n" ++ ·))
  "Error: " ++ c.message ++ behind ++ "\n"

end Complaint

end PageStore
