import KeyLayout.Files.Reading
import KeyLayout.Note

namespace KeyLayout

/-! Computations over files that take notes and may fail. -/

/-- A computation that looks at files, takes notes and may fail.  The notes outlast a
failure. -/
abbrev Session (m : Type → Type) (ε : Type) :=
  ExceptT ε (StateT (List Note) m)

namespace Session

variable {m : Type → Type} [Monad m] {ε α : Type}

def note (note : Note) : Session m ε Unit :=
  modify (· ++ [note])

def ofExcept (outcome : Except ε α) : Session m ε α :=
  match outcome with
  | .ok value => pure value
  | .error error => throw error

def ofReport (report : Report ε α) : Session m ε α := do
  modify (· ++ report.notes)
  ofExcept report.outcome

def mapError {δ : Type} (wrap : ε → δ) (session : Session m ε α) : Session m δ α :=
  ExceptT.mk (Functor.map (Except.mapError wrap) session.run)

def status (files : Files m) (path : Path) : Session m ε PathStatus :=
  ExceptT.lift (StateT.lift (files.status path))

def readText (files : Files m) (path : Path) : Session m ReadError Text := do
  ofExcept ((← status files path).readText path)

/-- The outcome and all notes. -/
def report (session : Session m ε α) : m (Report ε α) := do
  let (outcome, notes) ← session.run.run []
  return ⟨notes, outcome⟩

end Session

end KeyLayout
