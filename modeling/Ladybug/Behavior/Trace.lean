import Ladybug.Agent
import Ladybug.Behavior.Kind

/-!
# Traces

A trace records, in order, what happened to the nodes of a tree while its ladybug had its
turn: a composite was entered, or a node ended with success or failure.
-/

namespace Ladybug

/-- What happened to a node. -/
inductive TraceEvent where
  /-- A composite was entered that had not been entered before. -/
  | entry
  | success
  | failure
deriving DecidableEq

namespace TraceEvent

/-- The event of a node ending. -/
def ofOutcome (succeeded : Bool) : TraceEvent := if succeeded then success else failure

/-- The name of the event. -/
def name : TraceEvent → String
  | entry => "ENTRY"
  | success => "SUCCESS"
  | failure => "FAILURE"

end TraceEvent

/-- One event, with the ladybug and the node it happened to. -/
structure TraceEntry where
  agent : AgentId
  nodeId : String
  kind : NodeKind
  event : TraceEvent
deriving DecidableEq

/-- The entry as a line of text, with positions written as `shown` says. -/
def TraceEntry.textWith (shown : Position → String) (e : TraceEntry) : String :=
  " ".intercalate [e.agent.text, e.nodeId, e.kind.captionWith shown, e.event.name]

/-- The entry as a line of text, with positions as they are stored. -/
def TraceEntry.text (e : TraceEntry) : String := e.textWith Position.text

/-- What happened during a turn, in order. -/
abbrev Trace := List TraceEntry

end Ladybug
