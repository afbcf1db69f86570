/-
# Setting up the log

Key definitions: `Log.Level`, `Log.Level.ofName`, `Log.relativePath`, `Log.State`,
`Log.setUp`.
-/
import Formulary.Failure

namespace Formulary
namespace Log

/-- The levels of messages. -/
inductive Level
  | notSet | debug | info | warning | error | critical
deriving DecidableEq, Repr, Inhabited

/-- The number of a level. -/
def Level.number : Level → Nat
  | notSet => 0
  | debug => 10
  | info => 20
  | warning => 30
  | error => 40
  | critical => 50

/-- The names of the levels. -/
def levelNames : List (String × Level) :=
  [("CRITICAL", .critical), ("FATAL", .critical), ("ERROR", .error), ("WARNING", .warning),
   ("WARN", .warning), ("INFO", .info), ("DEBUG", .debug), ("NOTSET", .notSet)]

/-- A letter in upper case, as far as the letters of the level names go: two
letters outside ASCII have capitals in it. -/
def upper (c : Char) : Char :=
  if c = 'ı' then 'I' else if c = 'ſ' then 'S' else c.toUpper

/-- A word of the log's own that stands for the plain form of a message and
not for a level, with that form. -/
def plainForm : Text × Text :=
  ("BASIC_FORMAT".toList, "%(levelname)s:%(name)s:%(message)s".toList)

/-- The level with a name in any case. An unknown name gives `info`. -/
def Level.ofName (name : Text) : Except Failure Level :=
  let name := name.map upper
  if name = plainForm.1 then .error (.unknownLevel plainForm.2)
  else
    match levelNames.find? fun p => p.1.toList == name with
    | some p => .ok p.2
    | none => .ok .info

/-- Where messages go: the console, or a file that is rotated at a size, with
a number of older files kept. -/
inductive Target
  | console
  | file (path : Text) (maxBytes backups : Nat)
deriving DecidableEq, Repr, Inhabited

/-- Something that takes messages from a level on. -/
structure Handler where
  target : Target
  level : Level
deriving DecidableEq, Repr, Inhabited

/-- The form of a message, and of the time in it. -/
def messageForm : Text × Text :=
  ("%(asctime)s | %(levelname)-7s | %(name)s:%(lineno)d | %(message)s".toList,
    "%Y-%m-%d %H:%M:%S".toList)

/-- The state of the log. -/
structure State where
  level : Level
  handlers : List Handler
  configured : Bool
deriving DecidableEq, Repr, Inhabited

/-- The state of a log that nobody has set up, or that counts as set up. -/
def State.initial (configured : Bool) : State := ⟨.critical, [], configured⟩

/-- One step of a path: nothing and a single dot stay in place, and two dots
go back, or out of the directory where the path starts. -/
def step (done : List Text) (part : Text) : List Text :=
  if part = [] ∨ part = ".".toList then done
  else if part = "..".toList then
    if done.getLast?.all (· = part) then done ++ [part] else done.dropLast
  else done ++ [part]

/-- A path without steps that lead nowhere. -/
def relativePath (s : Text) : Text :=
  ['/'].intercalate ((Text.pieces ['/'] s).foldl step [])

/-- The size at which a file is rotated, five mebibytes. -/
def rotationSize : Nat := 5 * 1024 * 1024

/-- Sets up the log, once: later calls change nothing. Without a path there
is no file. -/
def setUp (level path : Text) (s : State) : Except Failure State :=
  if s.configured then .ok s
  else
    (Level.ofName level).map fun l =>
      ⟨l, ⟨.console, l⟩ ::
        (if path = [] then [] else [⟨.file (relativePath path) rotationSize 3, l⟩]), true⟩

/-- The level from which the servers' own messages are shown. -/
def serverLevel : Level := .warning

end Log
end Formulary
