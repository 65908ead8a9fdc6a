/-
  The loggers of the package. Level, format and stream are settings of the package: changing them
  reaches every logger that was ever handed out, and a logger that is asked for later starts with
  them. A capture diverts everything to a stream of its own and puts the settings back at its end.
  Settings with a format that is refused come into force all the same, but reach no logger: the
  first one is left without a handler, and no new one can be made.
-/
import CentralPath.Fault
import CentralPath.Journal.Event
import CentralPath.Journal.Format

namespace CentralPath.Journal

/-- Where records go. -/
inductive Stream where
  /-- The stream of a reader who did not ask for one. -/
  | standard
  | named (name : String)
  /-- The stream of a capture. -/
  | captured (number : Nat)
  deriving Repr, DecidableEq

/-- What writes the records of one logger. -/
structure Handler where
  level : Int
  format : String
  stream : Stream
  deriving Repr, DecidableEq

/-- A logger. -/
structure Logger where
  name : String
  level : Int
  handlers : List Handler
  /-- Whether records go on to other loggers. -/
  propagates : Bool
  deriving Repr, DecidableEq

/-- The settings of the package; no stream means the standard one. -/
structure Settings where
  level : Int
  format : String
  stream : Option Stream
  deriving Repr, DecidableEq

/-- The settings before anyone changes them. -/
def Settings.standard : Settings := ⟨warningLevel, defaultFormat, none⟩

/-- Whether a handler can be made from settings. -/
def Settings.areAcceptable (s : Settings) : Bool := isAcceptable s.format

/-- The handler that settings ask for. -/
def Settings.handler (s : Settings) : Handler := ⟨s.level, s.format, s.stream.getD .standard⟩

namespace Logger

/-- Gives a logger the one handler that settings ask for. -/
def install (s : Settings) (l : Logger) : Logger :=
  { l with level := s.level, handlers := [s.handler], propagates := false }

/-- A new logger under settings. -/
def create (s : Settings) (name : String) : Logger := install s ⟨name, 0, [], true⟩

/-- Takes the handlers from a logger. -/
def mute (l : Logger) : Logger := { l with handlers := [] }

/-- Changes the level of a logger and of its handlers. -/
def setLevel (level : Int) (l : Logger) : Logger :=
  { l with level, handlers := l.handlers.map fun h => { h with level } }

/-- The level that records are measured against: level zero leaves it to the standard one. -/
def effectiveLevel (l : Logger) : Int := if l.level = 0 then warningLevel else l.level

/-- Whether the logger takes records of a level. Levels up to zero are never taken. -/
def takes (l : Logger) (level : Int) : Bool :=
  decide (0 < level) && decide (l.effectiveLevel ≤ level)

/-- The name of the package and of its own logger. -/
def packageName : String := "contactqp"

/-- The full name of a logger: names outside the package are put into it. -/
def fullName : Option String → String
  | none => packageName
  | some s =>
    if s.isEmpty || s == packageName then packageName
    else if (packageName ++ ".").toList.isPrefixOf s.toList then s
    else packageName ++ "." ++ s

end Logger

/-- All loggers, the settings in force, and what the streams received. -/
structure Registry where
  settings : Settings
  /-- Loggers in the order in which they were first asked for. -/
  loggers : List Logger
  /-- Everything written, oldest first. -/
  written : List (Stream × String)
  /-- Number of captures begun. -/
  captures : Nat

namespace Registry

/-- A package that nobody configured. Its own loggers are there from the start. -/
def initial : Registry :=
  ⟨.standard, Event.sources.map (Logger.create .standard), [], 0⟩

/-- The logger of a full name, if it was handed out. -/
def find? (r : Registry) (name : String) : Option Logger := r.loggers.find? (·.name == name)

/-- Hands out a logger. A new one takes settings that a handler can be made from. -/
def get (r : Registry) (name : Option String) : Except (Fault Float) (Logger × Registry) :=
  let full := Logger.fullName name
  match r.find? full with
  | some l => .ok (l, r)
  | none =>
    if r.settings.areAcceptable then
      let l := Logger.create r.settings full
      .ok (l, { r with loggers := r.loggers ++ [l] })
    else .error .formatUnfit

/-- Changes the level of all loggers. -/
def setLevel (r : Registry) (level : Int) : Registry :=
  { r with
    settings := { r.settings with level }
    loggers := r.loggers.map (Logger.setLevel level) }

/-- Puts settings in force and brings the loggers in line with them, up to the first that cannot
be. -/
def adopt (r : Registry) (s : Settings) : Option (Fault Float) × Registry :=
  if s.areAcceptable then
    (none, { r with settings := s, loggers := r.loggers.map (Logger.install s) })
  else
    match r.loggers with
    | [] => (none, { r with settings := s })
    | l :: ls => (some .formatUnfit, { r with settings := s, loggers := l.mute :: ls })

/-- Sets level, format and stream of all loggers. -/
def configure (r : Registry) (level : Int) (format : Option String) (stream : Option Stream) :
    Option (Fault Float) × Registry :=
  r.adopt ⟨level, format.getD defaultFormat, stream⟩

/-- The stream of the next capture. -/
def nextCapture (r : Registry) : Stream := .captured r.captures

/-- Diverts all records to a new stream. -/
def beginCapture (r : Registry) (level : Int) (format : Option String) :
    Option (Fault Float) × Registry :=
  { r with captures := r.captures + 1 }.configure level format (some r.nextCapture)

/-- Ends a capture that began under the given settings. -/
def endCapture (r : Registry) (before : Settings) : Option (Fault Float) × Registry :=
  r.adopt before

/-- Writes a record through the handlers of a logger that let it pass. A handler whose format the
record cannot fill writes nothing. -/
def writeThrough (l : Logger) (e : Entry) : List (Stream × String) :=
  (l.handlers.filter fun h => decide (h.level ≤ e.level)).filterMap fun h =>
    (e.format? h.format).map fun text => (h.stream, text ++ "\n")

/-- The registry after a logger was given a text at a level. -/
def record (r : Registry) (l : Logger) (level : Int) (text : String) : Registry :=
  if l.takes level then { r with written := r.written ++ writeThrough l ⟨level, l.name, text⟩ }
  else r

/-- Logs a text at a level, unless there is no logger to be had. -/
def log (r : Registry) (name : Option String) (level : Int) (text : String) :
    Option (Fault Float) × Registry :=
  match r.get name with
  | .ok (l, r) => (none, r.record l level text)
  | .error e => (some e, r)

/-- Logs an event. -/
def logEvent (r : Registry) (e : Event Float) : Registry :=
  (r.log (some e.source) e.severity e.text).2

/-- What a stream received. -/
def textOf (r : Registry) (stream : Stream) : String :=
  String.join ((r.written.filter (·.1 == stream)).map (·.2))

end Registry

end CentralPath.Journal
