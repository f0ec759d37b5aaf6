import QueryReplay.Database
import QueryReplay.Service.Routes

/-!
# The service on the small database
-/

namespace QueryReplay.Service

/-- The service at its start on a database of its own. -/
def start (d : Dataset) : Service Database := ⟨.ofDataset d, d⟩

end QueryReplay.Service
