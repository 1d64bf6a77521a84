/-
Telling listeners of events. Those registered when an event is fired hear of it, whatever they do to
the registrations meanwhile; a listener that fails is noted and does not keep the others from
hearing.
-/
import ProjectLint.Run.Engine

namespace ProjectLint
namespace Engine

open Run

def notify (e : Engine σ) (event : Event) (context : Option Context) (listener : Listener) :
    Run σ Unit := do
  match ← attempt (e.invoke (.listener listener event context)) with
  | .ok () => pure ()
  | .error fault =>
      note .warn ("[EventNotifier] Listener failed on " ++ event.name ++ ": " ++ fault.text)

def notifyAll (e : Engine σ) (listeners : List Listener) (event : Event)
    (context : Option Context) : Run σ Unit :=
  each listeners (e.notify event context)

/-- Sends an event to all listeners. -/
def fire (e : Engine σ) (event : Event) (context : Option Context := none) : Run σ Unit := do
  let s ← get
  record (.fired event context s.moment)
  e.notifyAll s.listeners event context

end Engine
end ProjectLint
