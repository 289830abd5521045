import SqlLayout.Lexer.Sql
import SqlLayout.Log.Loggers
import SqlLayout.Text.Basic

/-!
# Debug records

Parts of the program report what they do as records under a logger's name. The names of all loggers
begin with that of one root. A logger hands its records up to the one above it, and the handlers of
the root write those that come to it as lines, each on its stream. Debugging goes through a handler
of a fixed name: it is put in place of the one that was there before, so that a record is written on
the stream that was enabled last. Before any is enabled records go nowhere, and so do those of
loggers that have not found the root above them.
-/

namespace SqlLayout

/-- A message under the name of a logger. -/
structure LogRecord where
  logger : Text
  message : Text
deriving DecidableEq, Repr

namespace LogRecord

/-- The name of the root. -/
def rootLogger : Text := "sqlscribe".toList

/-- The name is that of the root, or begins with it and a dot. -/
def isWithin (name : Text) : Bool :=
  name == rootLogger || (rootLogger ++ ['.']).isPrefixOf name

/-- The name of a logger. All names but those that begin with the root's are put behind it. -/
def loggerName (name : Text) : Text :=
  if isWithin name then name else rootLogger ++ '.' :: name

/-- The logger of scans. -/
def scanLogger : Text := loggerName "lexer.core".toList

/-- A record as a line of a stream. -/
def line (r : LogRecord) : Text :=
  "DEBUG ".toList ++ r.logger ++ ": ".toList ++ r.message ++ ['\n']

/-- What a scan reports: where it stopped, if it stopped before the end of the text. -/
def ofScan (s : Lexer.Scan) : List LogRecord :=
  match s.ending with
  | .noMatch offset =>
    [⟨scanLogger,
      "No pattern matches at offset ".toList ++ Text.ofNat offset ++ "; stopping".toList⟩]
  | _ => []

end LogRecord

/-- Writes the records that it gets on a stream. -/
structure Handler where
  name : Text
  stream : Text
deriving DecidableEq, Repr

/-- Streams with what is written on them, and the loggers. That of scans is there from the start. -/
structure Log where
  streams : List (Text × Text) := []
  /-- The handlers of the root, in the order in which they get a record. -/
  handlers : List Handler := []
  /-- The root's level lets records for debugging through. -/
  debugging : Bool := false
  loggers : Loggers := Loggers.make {} LogRecord.scanLogger
deriving DecidableEq, Repr

namespace Log

/-- The name of the handler that is for debugging. -/
def debugHandler : Text := LogRecord.rootLogger ++ "-debug".toList

/-- Sends all further records to a stream: a handler for it takes the place of the handler that is
for debugging, and the root's level is set. -/
def enable (log : Log) (stream : Text) : Log where
  streams := if log.streams.any (·.1 == stream) then log.streams else log.streams ++ [(stream, [])]
  handlers := log.handlers.filter (·.name != debugHandler) ++ [⟨debugHandler, stream⟩]
  debugging := true
  loggers := (log.loggers.make LogRecord.rootLogger).forget

/-- Adds a text to what is written on a stream. -/
def write (log : Log) (stream text : Text) : Log :=
  { log with streams := log.streams.map fun (name, content) =>
      (name, if name = stream then content ++ text else content) }

/-- The logger lets records for debugging through. Unless it knows, it asks for the level of the
first logger above it that has one: that is the root, or the top of all loggers, whose level lets no
such records through. -/
def passes (log : Log) (name : Text) : Bool :=
  (log.loggers.passes? name).getD
    (log.debugging && log.loggers.reaches LogRecord.rootLogger name)

/-- A record of the logger comes to the handlers of the root. -/
def hears (log : Log) (name : Text) : Bool :=
  log.passes name && log.loggers.reaches LogRecord.rootLogger name

/-- Gives a record to its logger. -/
def emit (log : Log) (r : LogRecord) : Log :=
  let noted := { log with loggers := log.loggers.note r.logger (log.passes r.logger) }
  if log.hears r.logger then
    log.handlers.foldl (fun log h => log.write h.stream r.line) noted
  else noted

/-- Makes sure that there is a logger. -/
def ask (log : Log) (name : Text) : Log := { log with loggers := log.loggers.make name }

/-- Writes a message under the name of a logger. -/
def debug (log : Log) (name message : Text) : Log :=
  let name := LogRecord.loggerName name
  (log.ask name).emit ⟨name, message⟩

/-- Writes what the scan of a query reports. -/
def scanned (log : Log) (query : Text) : Log := (LogRecord.ofScan (Sql.scan query)).foldl emit log

/-- A use of the log. -/
inductive Command where
  | enable (stream : Text)
  /-- A message under the name of a logger. -/
  | debug (name message : Text)
  /-- A scan by the rules of SQL. -/
  | scan (query : Text)
deriving DecidableEq, Repr

/-- Runs a command. -/
def exec (log : Log) : Command → Log
  | .enable stream => log.enable stream
  | .debug name message => log.debug name message
  | .scan query => log.scanned query

/-- Runs commands one after another. -/
def execAll (log : Log) (cs : List Command) : Log := cs.foldl exec log

/-- The streams and what is written on them, by name. -/
def contents (log : Log) : List (Text × Text) :=
  log.streams.mergeSort fun a b => Text.precedes a.1 b.1

end Log

end SqlLayout
