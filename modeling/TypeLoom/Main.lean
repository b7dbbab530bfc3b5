import TypeLoom.CommandLine

/-!
# The program

Carries out the command line on the files of the machine.
-/

namespace TypeLoom.Files

/-- The number of an error. Some calls give it with a negative sign, in 32 bits. -/
def errorNumber (code : UInt32) : Nat :=
  if code < 0x80000000 then code.toNat else (0 - code).toNat

/-- The number and text of an error of the system. -/
def OsError.ofIOError : IO.Error → OsError
  | .alreadyExists _ code text | .otherError code text | .resourceBusy code text
  | .resourceVanished code text | .unsupportedOperation code text | .hardwareFault code text
  | .unsatisfiedConstraints code text | .illegalOperation code text | .protocolError code text
  | .timeExpired code text | .interrupted _ code text | .noFileOrDirectory _ code text
  | .invalidArgument _ code text | .permissionDenied _ code text
  | .resourceExhausted _ code text | .inappropriateType _ code text | .noSuchThing _ code text =>
    .ofCode (errorNumber code) text
  | .unexpectedEof => ⟨0, "unexpected end of file"⟩
  | .userError text => ⟨0, text⟩

/-- Answers with an error of the system instead of ending the program. -/
def answering {α : Type} (action : IO α) : IO (Except OsError α) :=
  try return .ok (← action) catch e => return .error (.ofIOError e)

def kindOf : IO.FS.FileType → Kind
  | .file => .file
  | .dir => .directory
  | _ => .other

instance : FileAccess IO where
  kind p := answering do
    let place ← IO.FS.realPath ⟨p.raw⟩
    return kindOf (← place.metadata).type
  canonical p := answering do return ⟨(← IO.FS.realPath ⟨p.raw⟩).toString⟩
  names p := answering do
    let place ← IO.FS.realPath ⟨p.raw⟩
    return (← place.readDir).toList.map (·.fileName)
  read p := answering do return (← IO.FS.readBinFile ⟨p.raw⟩).toList
  createDirectory p := answering (IO.FS.createDir ⟨p.raw⟩)
  write p content := answering (IO.FS.writeBinFile ⟨p.raw⟩ content.toByteArray)

end TypeLoom.Files

def main (args : List String) : IO UInt32 := do
  let outcome ← TypeLoom.CommandLine.run (m := IO) args
  IO.print outcome.output
  IO.eprint outcome.errors
  return UInt32.ofNat outcome.exit
