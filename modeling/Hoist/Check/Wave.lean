import Hoist.Check.Equations
import Hoist.Check.Work

/-!
Waves of deferrals. The outermost change that hands back work performs it and all that follows
from it, first come first served; changes made meanwhile only add to the end of the queue. After a
failure nothing is left in the queue.

Main statement: while a wave is going on, a further wave only adds to the queue
(`runWave_of_firing`), which is why `perform` need not start one.
-/
namespace Hoist

namespace Check

variable {κ σ : Type} (client : κ → Check κ σ Unit)

/-- Only functions can be used before their declaration. -/
def checkHoisted (root : ScopeId) (name : String) (position : Position) : Check κ σ Unit := do
  match ← ofFault position ((← scopes).lookupLocal root name) with
  | some binding =>
    if !binding.type.isFunction then reject (.invalidForwardReference name) position
  | none => reject (.invalidForwardReference name) position

def perform : Deferral κ → Check κ σ Unit
  | .resume draft awaited => resume enqueue draft awaited
  | .conclude signature => conclude enqueue signature
  | .hoisted root name position rest => do
    checkHoisted root name position
    perform rest
  | .client task => client task

/-- Performs what is in the queue until it is empty. Every deferral costs a step, so the budget is
fuel enough. -/
def drain : Nat → Check κ σ Unit
  | 0 => do
    if !(← get).queue.isEmpty then throw .exhausted
  | fuel + 1 => do
    match (← get).queue with
    | [] => pure ()
    | work :: rest =>
      tick
      modify fun state => { state with queue := rest }
      perform client work
      drain fuel

/-- The state after a wave has ended. One that was cut short by the budget has not ended. -/
def endWave (state : Checker κ σ) : Option Halt → Checker κ σ
  | none => { state with firing := false }
  | some .exhausted => state
  | some _ => { state with firing := false, queue := [] }

/-- Queues work, and performs it unless that is going on already. -/
def runWave (work : List (Deferral κ)) : Check κ σ Unit := do
  enqueue work
  if (← get).firing then return
  modify fun state => { state with firing := true }
  try drain client (← get).budget
  catch halt =>
    modify fun state => endWave state (some halt)
    throw halt
  modify fun state => endWave state none

theorem runWave_of_firing (work : List (Deferral κ)) (state : Checker κ σ)
    (firing : state.firing = true) :
    (runWave client work).run state = (enqueue work).run state := by
  cases work <;> simp [runWave, enqueue, note, firing]

end Check

end Hoist
