import PinnedBench.Files.Store
import PinnedBench.Machine.Host

/-!
# Machines held in memory

A `Workbench` is a machine as a value: its files, what has been printed on it, and what it answers
when it is asked for the time that has passed, for samples, and for a stamp. Commands run on it as
they do on the machine itself, and its files are told about by `PinnedBench.Store`.
-/

namespace PinnedBench

/-- A machine held in memory. -/
structure Workbench where
  /-- The files. -/
  store : Store
  /-- What has been printed as an outcome. -/
  printed : String
  /-- What has been printed about the way there. -/
  remarks : String
  /-- The seconds that pass in so many milliseconds. -/
  passing : Nat → Double
  /-- The samples taken while something is computed. -/
  samples : List (Sample Double)
  /-- The time and the place. -/
  stamp : Stamp

namespace Workbench

/-- Runs a step that concerns the files alone. -/
def onStore {α : Type} (step : StateM Store α) : StateM Workbench α := fun s =>
  let (a, store) := step s.store
  (a, { s with store := store })

instance : Files (StateM Workbench) where
  present p := onStore (Files.present p)
  read p := onStore (Files.read p)
  write p content := onStore (Files.write p content)
  makeDirectories p := onStore (Files.makeDirectories p)

instance : Host (StateM Workbench) where
  settle milliseconds s := (s.passing milliseconds, s)
  observe work s := ((work (), s.samples), s)
  stamp s := (s.stamp, s)

instance : Console (StateM Workbench) where
  print text s := ((), { s with printed := s.printed ++ text })
  remark text s := ((), { s with remarks := s.remarks ++ text })

end Workbench

end PinnedBench
