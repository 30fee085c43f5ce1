import StackVM.CommandLine

/-!
# The program

The command line over the files of the system.
-/

set_option autoImplicit false

namespace StackVM

open CommandLine

def CommandLine.FileError.ofCode (code : UInt32) (description : String) : FileError :=
  match code.toNat with
  | 2 => .notFound
  | 20 => .notDirectory
  | 21 => .isDirectory
  | 36 => .nameTooLong
  | n => .system description n

def CommandLine.FileError.ofSystem : IO.Error → FileError
  | .alreadyExists _ code details | .otherError code details | .resourceBusy code details
  | .resourceVanished code details | .unsupportedOperation code details
  | .hardwareFault code details | .unsatisfiedConstraints code details
  | .illegalOperation code details | .protocolError code details | .timeExpired code details
  | .interrupted _ code details | .noFileOrDirectory _ code details
  | .invalidArgument _ code details | .permissionDenied _ code details
  | .resourceExhausted _ code details | .inappropriateType _ code details
  | .noSuchThing _ code details => .ofCode code details
  | .unexpectedEof => .system "unexpected end of file" 0
  | .userError details => .system details 0

instance : MonadFiles IO where
  readFile path := do
    try return .ok (← IO.FS.withFile path .read fun file => file.readBinToEnd).toList
    catch e => return .error (.ofSystem e)
  writeFile path bytes := do
    try IO.FS.writeBinFile path ⟨bytes.toArray⟩; return .ok ()
    catch e => return .error (.ofSystem e)

end StackVM

def main (arguments : List String) : IO UInt32 := do
  let report ← StackVM.CommandLine.invoke (m := IO) arguments
  IO.print report.stdout
  IO.eprint report.stderr
  return report.code.toUInt32
