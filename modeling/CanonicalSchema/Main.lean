import CanonicalSchema.CommandLine

namespace CanonicalSchema

def fileContent? (path : Path) : IO (Option (List UInt8)) := do
  try
    let bytes ← IO.FS.readBinFile path.text
    return some bytes.toList
  catch _ =>
    return none

def Command.execute (args : List String) : IO UInt32 := do
  let stdout ← IO.getStdout
  let stderr ← IO.getStderr
  match Command.parse args with
  | .error fault =>
    stderr.putStrLn fault.message
    return 2
  | .ok command =>
    let contents ← command.paths.mapM fun p => do return (p, ← fileContent? p)
    match command.run .standard fun p => .ok (contents.lookup p).join with
    | .ok output =>
      stdout.putStr output.stdout
      stderr.putStr output.stderr
      return UInt32.ofNat output.exitCode
    | .error fault =>
      stderr.putStrLn fault.message
      return 1

end CanonicalSchema

def main (args : List String) : IO UInt32 := CanonicalSchema.Command.execute args
