import SeismicHazard.Results

/-!
# Schedules

Tasks are worked off in segments. Each segment is folded from empty results, and the results of the
segments are combined pairwise. One segment with all tasks is the sequential schedule.
-/

namespace SeismicHazard

/-- How tasks are divided into segments, and how those are combined. -/
inductive Schedule (τ : Type) where
  | segment (tasks : List τ)
  | join (left right : Schedule τ)

namespace Schedule

variable {τ : Type}

/-- All tasks in order. -/
def tasks : Schedule τ → List τ
  | segment tasks => tasks
  | join left right => left.tasks ++ right.tasks

/-- Tasks divided once in the middle. -/
def halves (tasks : List τ) : Schedule τ :=
  if tasks.length < 2 then segment tasks
  else
    join (segment (tasks.take (tasks.length / 2))) (segment (tasks.drop (tasks.length / 2)))

variable {R : Type} [Scalar R]

/-- Runs a worker on the tasks of one segment and merges what it returns. -/
def runSegment (worker : τ → Except (Error R) (Results R)) (tasks : List τ) :
    Except (Error R) (Results R) :=
  tasks.foldlM (fun acc task => do acc.merge (← worker task)) SortedMap.empty

/-- Runs a worker on all tasks as the schedule says. -/
def run (worker : τ → Except (Error R) (Results R)) : Schedule τ → Except (Error R) (Results R)
  | segment tasks => runSegment worker tasks
  | join left right => do
      let a ← left.run worker
      let b ← right.run worker
      a.merge b

end Schedule

/-- The ways to work off the tasks of a job. -/
inductive Executor where
  | sequential
  | parallel
deriving DecidableEq, Repr

/-- The schedule of an executor. -/
def Executor.schedule {τ : Type} (executor : Executor) (tasks : List τ) : Schedule τ :=
  match executor with
  | .sequential => .segment tasks
  | .parallel => .halves tasks

end SeismicHazard
