/-
  A workspace with its reader: whatever happens at the workspace goes through the loggers before the
  next piece of work. The debug switch can be thrown for a while, and the log can be captured for a
  while; both are put back at the end.
-/
import CentralPath.Journal.Registry
import CentralPath.Scalar.Double
import CentralPath.Text.Blank
import CentralPath.Text.Lines
import CentralPath.Workspace.Solvers

namespace CentralPath

open Journal (Logger Registry Stream)

/-- A workspace and the loggers. -/
structure Console where
  workspace : Workspace Float
  registry : Registry

/-- Words that switch debug mode on. -/
def affirmatives : List String := ["1", "true", "yes", "on"]

/-- Whether a text switches debug mode on: one of the words, in any case, with blanks around it or
without. -/
def affirms (s : String) : Bool :=
  affirmatives.contains (String.ofList ((Text.trimBlanks s.toList).map Char.toLower))

namespace Console

/-- A console at which nothing has happened, logging to a stream of a given name. -/
def start (stream : String) : Console where
  workspace := .empty
  registry := (Registry.initial.configure Journal.warningLevel none (some (.named stream))).2

/-- Lets the loggers have all events that nobody has read yet. -/
def flush (c : Console) : Console :=
  { c with
    registry := c.workspace.events.foldl Registry.logEvent c.registry
    workspace := { c.workspace with events := [] } }

/-- Does a piece of work at the workspace. -/
def work {β : Type} (c : Console) (d : Desk Float β) : Except (Fault Float) β × Console :=
  let (answer, workspace) := d.run.run c.workspace
  (answer, { c with workspace }.flush)

/-- Throws the debug switch. -/
def setDebug (c : Console) (on : Bool) : Console :=
  { c with workspace := { c.workspace with debug := on } }

/-- Sets the debug switch as the environment says, which may say nothing. -/
def reloadDebug (c : Console) (setting : Option String) : Console :=
  c.setDebug (setting.any affirms)

/-- Runs something with the debug switch thrown, and puts the switch back. -/
def withDebug {β : Type} (c : Console) (on : Bool) (body : Console → β × Console) : β × Console :=
  let (answer, after) := body (c.setDebug on)
  (answer, after.setDebug c.workspace.debug)

/-- Runs something with the log captured, and puts the settings back. Returns the lines too. Nothing
is run when the capture cannot begin, and nothing returned when the settings cannot be put back. -/
def capture {β : Type} (c : Console) (level : Int) (format : Option String)
    (body : Console → β × Console) : Except (Fault Float) (β × List String) × Console :=
  match c.registry.beginCapture level format with
  | (some e, registry) => (.error e, { c with registry })
  | (none, registry) =>
    let (answer, after) := body { c with registry }
    match after.registry.endCapture c.registry.settings with
    | (some e, registry) => (.error e, { after with registry })
    | (none, registry) =>
      let lines := Text.lines (registry.textOf c.registry.nextCapture)
      (.ok (answer, lines), { after with registry })

/-- Changes the loggers, up to what stops the change. -/
def changeRegistry (c : Console) (f : Registry → Option (Fault Float) × Registry) :
    Except (Fault Float) Unit × Console :=
  match f c.registry with
  | (some e, registry) => (.error e, { c with registry })
  | (none, registry) => (.ok (), { c with registry })

/-- Hands out a logger. -/
def logger (c : Console) (name : Option String) : Except (Fault Float) Logger × Console :=
  match c.registry.get name with
  | .ok (l, registry) => (.ok l, { c with registry })
  | .error e => (.error e, c)

/-- The lines that a named stream received. -/
def linesOf (c : Console) (stream : String) : List String :=
  Text.lines (c.registry.textOf (.named stream))

end Console

end CentralPath
