import Flowgraph.Error

namespace Flowgraph

/-- A call that changes a state and may fail. What it has changed by then stays changed. -/
abbrev Update (σ : Type) := ExceptT Error (StateM σ)

/-- What a call answers and the state it leaves. -/
def Update.run {σ α : Type} (call : Update σ α) (s : σ) : Except Error α × σ :=
  StateT.run (ExceptT.run call) s

end Flowgraph
