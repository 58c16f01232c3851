import FeedIntake.Decimal.Digits

/-! # Severities

How grave a log entry is. Entries bear a number; five of the numbers have names of their own.
-/

namespace FeedIntake

inductive Severity where
  | debug
  | info
  | warning
  | error
  | critical
  deriving DecidableEq, Repr, Inhabited

namespace Severity

def name : Severity → String
  | debug => "DEBUG"
  | info => "INFO"
  | warning => "WARNING"
  | error => "ERROR"
  | critical => "CRITICAL"

def number : Severity → Int
  | debug => 10
  | info => 20
  | warning => 30
  | error => 40
  | critical => 50

def all : List Severity := [debug, info, warning, error, critical]

def ofName? (s : String) : Option Severity := all.find? fun l => l.name == s

def nameOf (number : Int) : String :=
  match all.find? fun l => l.number == number with
  | some l => l.name
  | none => if number = 0 then "NOTSET" else s!"Level {String.ofList (Decimal.integer number)}"

end Severity

end FeedIntake
