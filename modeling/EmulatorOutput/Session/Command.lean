/-!
# Commands

What a controller may ask of a running session, and the states a session goes through.
-/

namespace EmulatorOutput.Session

/-- What is chosen in the menu. -/
inductive MenuChoice where
  | resume
  | restart
  | shutdown
  deriving DecidableEq, Repr

/-- A request to a running session. -/
inductive Command where
  | pause
  | resume
  /-- Stop cycling and wait for a choice. -/
  | openMenu
  | choose (choice : MenuChoice)
  | shutdown
  deriving DecidableEq, Repr

/-- The state of a session. -/
inductive Phase where
  | running
  | paused
  | menu
  | shuttingDown
  deriving DecidableEq, Repr

namespace Phase

def title : Phase → String
  | .running => "Running"
  | .paused => "Paused"
  | .menu => "Menu"
  | .shuttingDown => "ShuttingDown"

/-- The state after a command. A session that is shutting down heeds none. -/
def after : Phase → Command → Phase
  | .shuttingDown, _ => .shuttingDown
  | _, .shutdown | _, .choose .shutdown => .shuttingDown
  | _, .pause => .paused
  | _, .openMenu => .menu
  | _, .resume | _, .choose .resume | _, .choose .restart => .running

def restarts (p : Phase) (c : Command) : Bool :=
  p != .shuttingDown && c == .choose .restart

end Phase

end EmulatorOutput.Session
