import Keiko.EventHubRetention
import Mathlib.Data.List.DropRight

/-! Resuming behind a cursor. The sequences of the accepted events number them, so what a replay
leaves out is told by the sequences alone: a replay is complete when it is refused because the
oldest retained event is newer than the cursor, or when nothing newer than the cursor is missing. -/
namespace Keiko.EventHub
open Keiko.Library Keiko.Runtime List Bool

section Cursors

end Cursors

section Resume

variable {limits : EventHubLimits} {hub : Hub} {runId : Text}
  {accepted : List CodingWorkbenchRuntimeSseEvent} {event : CodingWorkbenchRuntimeSseEvent}

end Resume

end Keiko.EventHub
