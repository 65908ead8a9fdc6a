/-
  Severity levels. A level is a number; the usual ones have names, which are read in any case.
-/

namespace CentralPath.Journal

/-- The level of a reader who did not ask for one. -/
def warningLevel : Int := 30

/-- Names of levels. Where a level has two names, the one that reports use comes first. -/
def levelNames : List (String × Int) :=
  [("NOTSET", 0), ("DEBUG", 10), ("INFO", 20), ("WARNING", 30), ("WARN", 30), ("ERROR", 40),
   ("CRITICAL", 50), ("FATAL", 50)]

/-- The capital of a letter, as far as it is a letter of level names: two letters outside ASCII have
an ASCII capital. -/
def capital (c : Char) : Char :=
  if c = 'ı' then 'I' else if c = 'ſ' then 'S' else c.toUpper

/-- The level of a name; a name that is none counts as a warning. -/
def levelOfName (s : String) : Int :=
  let name := String.ofList (s.toList.map capital)
  ((levelNames.find? (·.1 == name)).map (·.2)).getD warningLevel

/-- The name of a level. -/
def levelName (level : Int) : String :=
  ((levelNames.find? (·.2 == level)).map (·.1)).getD s!"Level {level}"

/-- A level as it is asked for. -/
inductive LevelChoice where
  | number (level : Int)
  | named (name : String)
  deriving Repr, DecidableEq

/-- The level asked for. -/
def LevelChoice.level : LevelChoice → Int
  | number k => k
  | named s => levelOfName s

end CentralPath.Journal
