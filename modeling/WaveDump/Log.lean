/-!
# Log entries

The converter tells what it does in log entries of five severities. Operations hand out the entries
they cause, in order, and whoever runs them decides which are shown.
-/

namespace WaveDump

inductive Severity where
  | error
  | warning
  | info
  | debug
  | trace
deriving DecidableEq, Repr

namespace Severity

def rank : Severity → Nat
  | .error => 0
  | .warning => 1
  | .info => 2
  | .debug => 3
  | .trace => 4

def label : Severity → String
  | .error => "ERROR"
  | .warning => "WARN"
  | .info => "INFO"
  | .debug => "DEBUG"
  | .trace => "TRACE"

end Severity

structure LogEntry where
  severity : Severity
  text : String
deriving DecidableEq, Repr

abbrev Log := List LogEntry

namespace Log

/-- The entries that are shown when `limit` is the least grave severity on show. -/
def upTo (limit : Severity) (log : Log) : Log :=
  log.filter fun entry => entry.severity.rank ≤ limit.rank

end Log

end WaveDump
