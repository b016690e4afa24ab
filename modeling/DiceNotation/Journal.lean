import DiceNotation.Fault
import DiceNotation.Text.Lines

namespace DiceNotation

/-!
# Journal

What a roll reports on its way: messages, each with a level of gravity.  A
reader sets a threshold and sees the messages from that level up.
-/

/-- How grave a message is. -/
inductive Level where
  | trace
  | debug
  | info
  | success
  | warning
  | error
  | critical
  deriving DecidableEq, Repr

namespace Level

def all : List Level := [.trace, .debug, .info, .success, .warning, .error, .critical]

def name : Level → String
  | .trace => "TRACE"
  | .debug => "DEBUG"
  | .info => "INFO"
  | .success => "SUCCESS"
  | .warning => "WARNING"
  | .error => "ERROR"
  | .critical => "CRITICAL"

def gravity : Level → Nat
  | .trace => 5
  | .debug => 10
  | .info => 20
  | .success => 25
  | .warning => 30
  | .error => 40
  | .critical => 50

/-- The level of a name. -/
def ofName (name : String) : Except Fault Level :=
  match all.find? (·.name == name) with
  | some level => .ok level
  | none => .error .unknownLevel

/-- A name with its letters as capitals, where a letter that has no capital of
its own becomes the plain letters that stand for it. -/
def capitals (name : String) : String :=
  String.ofList (name.toList.flatMap fun c =>
    if c == 'ß' then ['S', 'S']
    else if c == 'ı' then ['I']
    else if c == 'ſ' then ['S']
    else [c.toUpper])

/-- The level of a name in small letters or capitals. -/
def ofAnyCase (name : String) : Except Fault Level := ofName (capitals name)

end Level

/-- One reported message. -/
structure Message where
  level : Level
  text : String
  deriving DecidableEq, Repr

/-- The messages from a level up, in the order of reporting. -/
def Message.atLeast (threshold : Level) (messages : List Message) : List Message :=
  messages.filter fun message => threshold.gravity ≤ message.level.gravity

/-- The lines in which a console shows a message, the name of its level in front. -/
def Message.lines (message : Message) : List String :=
  (Text.lines (message.level.name ++ "|" ++ message.text ++ "\n").toList).map String.ofList

end DiceNotation
