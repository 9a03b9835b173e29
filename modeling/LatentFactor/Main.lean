import LatentFactor.CommandLine

set_option autoImplicit false

namespace LatentFactor

def fileFault : IO.Error → FileFault
  | .noFileOrDirectory .. => .missing
  | .permissionDenied .. => .denied
  | .inappropriateType _ _ "not a directory" => .notDirectory
  | .inappropriateType .. => .isDirectory
  | .invalidArgument _ _ "name too long" => .nameTooLong
  | error => .stated (toString error)

def contentOf (path : String) : IO (Except FileFault (List UInt8)) := do
  try return .ok (← IO.FS.readBinFile path).toList
  catch error => return .error (fileFault error)

def countWorkers : IO Nat := do
  try
    let lines := (← IO.FS.readFile "/proc/cpuinfo").splitOn "\n"
    return max 1 (lines.countP fun line => line.startsWith "processor")
  catch _ => return 1

def machine : IO (CommandLine.Host IO) := do
  let workers ← countWorkers
  return {
    contentOf
    log := fun line => IO.println s!"{line.level.name} {line.text}"
    complain := IO.eprintln
    now := IO.monoNanosNow
    workers
    view := Presentation.full }

end LatentFactor

def main (arguments : List String) : IO UInt32 := do
  LatentFactor.CommandLine.session (← LatentFactor.machine) arguments
