import KeyLayout.Tool.Dispatch

/-! The command line: the first argument names the tool, the others are for it. -/

namespace KeyLayout.Console

/-- What refused the path, if it is one of the faults that layouts may have. -/
def faultOf? : IO.Error → Option FileFault
  | .noFileOrDirectory .. => some .missing
  | .inappropriateType _ code _ | .invalidArgument _ code _ | .otherError code _ =>
      [FileFault.notDirectory, .isDirectory, .longName].find? fun fault =>
        fault.number = code.toNat
  | _ => none

def readBytes (name : String) : IO ByteArray := do
  (← IO.FS.Handle.mk name .read).readBinToEnd

def statusOf (path : Path) : IO PathStatus := do
  match path.encode, Text.toString? path.toText with
  | .error error, _ => return .unnamable (.surrogates error)
  -- a name of other bytes than those of a text cannot be asked for here
  | .ok _, none => return .absent .missing
  | .ok _, some name =>
      if name.contains '\x00' then
        return .unnamable .nullByte
      else
        match ← (readBytes name).toBaseIO with
        | .ok bytes => return .file bytes.toList
        | .error error =>
            match faultOf? error with
            | some .isDirectory => return .directory
            | some fault => return .absent fault
            | none => throw error

def workingFiles : Files IO where
  status := statusOf

/-- Lone surrogates cannot be printed; they show as replacement characters. -/
def printed (text : Text) : String :=
  String.ofList (text.map fun
    | .scalar character => character
    | .surrogate _ => '\ufffd')

def usageLine : String :=
  "usage: keylayout (check | type | lookup) ARGUMENTS"

def conclude : Ending → IO UInt32
  | .dismissed dismissal => do
      (if dismissal = .help then IO.println else IO.eprintln) usageLine
      return UInt32.ofNat dismissal.status
  | .finished transcript => do
      IO.print (printed transcript.output)
      IO.eprint (printed transcript.complaints)
      return UInt32.ofNat transcript.status
  | .failed error => do
      IO.eprintln (printed error.message)
      return 1

def run (arguments : List String) : IO UInt32 := do
  match arguments with
  | [] => conclude (.dismissed .misuse)
  | name :: rest =>
      match Tool.ofName? (Text.ofString name) with
      | none => conclude (.dismissed .misuse)
      | some tool => conclude (← tool.run workingFiles (rest.map Text.ofString))

end KeyLayout.Console

def main (arguments : List String) : IO UInt32 :=
  KeyLayout.Console.run arguments
