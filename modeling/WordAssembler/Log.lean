namespace WordAssembler

inductive Level
  | debug
  | warning
  | error
  deriving DecidableEq, Repr

def Level.rank : Level → Nat
  | .debug => 0
  | .warning => 1
  | .error => 2

def Level.name : Level → String
  | .debug => "DEBUG"
  | .warning => "WARNING"
  | .error => "ERROR"

/-- A remark made in passing, with the part of the program that makes it. -/
structure LogRecord where
  level : Level
  logger : String
  message : String
  deriving DecidableEq, Repr

def LogRecord.text (r : LogRecord) : String :=
  s!"{r.level.name} {r.logger}: {r.message}"

/-- The records that matter at least as much as a level, a line for each. -/
def logText (threshold : Level) (records : List LogRecord) : String :=
  String.join ((records.filter fun r => threshold.rank ≤ r.level.rank).map (·.text ++ "\n"))

end WordAssembler
