/-
  Single options, as a caller who knows them by name sets them. A list of settings turns into
  options on top of the standard ones; changing options of a solver at work skips the check.
-/
import CentralPath.InteriorPoint.State

namespace CentralPath.InteriorPoint

/-- One option and its value. -/
inductive Setting (α : Type) where
  | formulation (c : Newton.Choice)
  | maxIterations (k : Int)
  | rpTolerance (t : α)
  | rdTolerance (t : α)
  | muTolerance (t : α)
  | equalStepLength (on : Bool)
  | adaptiveEta (on : Bool)
  | secondOrderCorrection (on : Bool)
  | onlyPredict (on : Bool)
  | startingPoint (c : StartChoice)
  | warmStart (on : Bool)
  | skipTangential (on : Bool)
  | useCompliance (on : Bool)
  | maxShifts (bound : Option Int)
  | lockPattern (on : Bool)
  | learnPattern (on : Bool)
  | fullness (share : α)
  | recordHistory (on : Bool)
  /-- A name that belongs to no option. -/
  | unknown (name : String)

variable {α : Type}

/-- The name of a setting that is none. -/
def Setting.unknown? : Setting α → Option String
  | unknown name => some name
  | _ => none

namespace Options

/-- The options with one of them set. A setting that is none changes nothing. -/
def set (o : Options α) : Setting α → Options α
  | .formulation c => { o with formulation := c }
  | .maxIterations k => { o with maxIterations := k }
  | .rpTolerance t => { o with rpTolerance := t }
  | .rdTolerance t => { o with rdTolerance := t }
  | .muTolerance t => { o with muTolerance := t }
  | .equalStepLength b => { o with equalStepLength := b }
  | .adaptiveEta b => { o with adaptiveEta := b }
  | .secondOrderCorrection b => { o with secondOrderCorrection := b }
  | .onlyPredict b => { o with onlyPredict := b }
  | .startingPoint c => { o with startingPoint := c }
  | .warmStart b => { o with warmStart := b }
  | .skipTangential b => { o with skipTangential := b }
  | .useCompliance b => { o with useCompliance := b }
  | .maxShifts s => { o with maxShifts := s }
  | .lockPattern b => { o with lockPattern := b }
  | .learnPattern b => { o with learnPattern := b }
  | .fullness s => { o with fullness := s }
  | .recordHistory b => { o with recordHistory := b }
  | .unknown _ => o

/-- The options with several of them set. -/
def setAll (o : Options α) (settings : List (Setting α)) : Options α := settings.foldl set o

variable [Elementary α]

/-- The standard options with some of them set, if all of them can be honoured. -/
def ofSettings (settings : List (Setting α)) : Except (Fault α) (Options α) :=
  match settings.findSome? Setting.unknown? with
  | some name => .error (.optionUnknown name)
  | none => (standard.setAll settings).check

end Options

end CentralPath.InteriorPoint
