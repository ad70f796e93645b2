import SnapshotDeque.Session.Deliver

/-!
Whole sessions: commands given from outside, one after the other, each with its answer and with what
observers logged since the command before.
-/

namespace SnapshotDeque.Session

/-- Outside of any batch and of any delivery. -/
def Mode.outermost : Mode := { batch := false, deliver := Session.deliver }

structure Step where
  answer : Answer
  /-- What observers heard since the command before. -/
  heard : List Heard
  /-- The state after the command. -/
  report : Report

/-- What observers logged since the command before. -/
def Step.log (x : Step) : List LogEntry := x.heard.filterMap (·.logged? x.report.stats.name)

def step (s : Session) (c : Command) : Step × Session :=
  let (answer, s) := execute .outermost c s
  ({ answer, heard := s.heard, report := s.report }, { s with heard := [] })

def run (s : Session) : List Command → List Step × Session
  | [] => ([], s)
  | c :: cs =>
    let (x, s) := s.step c
    let (xs, s) := s.run cs
    (x :: xs, s)

/-- A session on a deque with a configuration that is accepted. -/
def start (config : Config) : Except Error Session := do
  config.validate
  return .init config

end SnapshotDeque.Session
