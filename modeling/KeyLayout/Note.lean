import KeyLayout.KeyboardType
import KeyLayout.Modifier.Combination

namespace KeyLayout

/-! Notes that are taken while layouts are read and texts are typed. -/

inductive NoteLevel where
  | debug
  | warning
  deriving DecidableEq

inductive Note where
  | keyboardType (layout : Text) (type : KeyboardType)
  | finishedKey (layout : Text) (code : KeyCode)
  | undeclaredType (layout : Text)
  | loaded (layout : Text) (count : Nat)
  | combined (overlay base : Text)
  | cleared (layout : Text)
  | reading (name path : Text)
  | shadowed (character : CodePoint) (mask : MetaState) (code : KeyCode)
  | chosen (character : CodePoint) (code : KeyCode) (target : List KeyCode)
  deriving DecidableEq

namespace Note

def level : Note → NoteLevel
  | .undeclaredType _ => .warning
  | _ => .debug

def channel : Note → Text
  | .keyboardType .. | .finishedKey .. | .undeclaredType .. => "keycharmap.parser"
  | .loaded .. | .combined .. | .cleared .. => "keycharmap.keymap"
  | .reading .. => "keycharmap.sources"
  | .shadowed .. | .chosen .. => "keycharmap.synthesis"

def message : Note → Text
  | .keyboardType layout type => Text.join [layout, ": keyboard type ", type.name]
  | .finishedKey layout code => Text.join [layout, ": finished key ", code.label]
  | .undeclaredType layout =>
      Text.join [layout, ": no keyboard type declared, assuming UNKNOWN"]
  | .loaded layout count =>
      Text.join ["Loaded ", Text.ofNat count, " keys from ", layout]
  | .combined overlay base => Text.join ["Combined overlay ", overlay, " into ", base]
  | .cleared layout => Text.join ["Cleared layout overlay from ", layout]
  | .reading name path => Text.join ["Reading key map ", name, " from ", path]
  | .shadowed character mask code =>
      Text.join [Text.quote [character], ": ", mask.format, " on ", code.label,
        " is shadowed"]
  | .chosen character code target =>
      Text.join [Text.quote [character], ": ", code.label, " with ",
        Text.bracket (target.map fun key => Text.quote key.label)]

/-- The line that a log shows for the note. -/
def line (note : Note) : Text :=
  let severity : Text := match note.level with
    | .debug => "DEBUG"
    | .warning => "WARNING"
  Text.join [severity, ":", note.channel, ":", note.message, "\n"]

end Note

/-- A computation that may fail, with the notes it took up to its end. -/
structure Report (ε α : Type) where
  notes : List Note
  outcome : Except ε α

namespace Report

variable {ε α β : Type}

def ofExcept (outcome : Except ε α) : Report ε α := ⟨[], outcome⟩

def fail (error : ε) : Report ε α := ⟨[], .error error⟩

def tell (notes : List Note) : Report ε Unit := ⟨notes, .ok ()⟩

def bind (report : Report ε α) (next : α → Report ε β) : Report ε β :=
  match report.outcome with
  | .error error => ⟨report.notes, .error error⟩
  | .ok value => ⟨report.notes ++ (next value).notes, (next value).outcome⟩

instance : Monad (Report ε) where
  pure value := ⟨[], .ok value⟩
  bind := bind

def mapError {δ : Type} (wrap : ε → δ) (report : Report ε α) : Report δ α :=
  ⟨report.notes, report.outcome.mapError wrap⟩

end Report

end KeyLayout
