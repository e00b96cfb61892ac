import PatternCompiler.CommandLine.Run

/-! The command line: reads what a run needs, and prints what it leaves behind. -/

set_option autoImplicit false
set_option relaxedAutoImplicit false

namespace PatternCompiler.CommandLine

def readEntry (name : String) : IO FileEntry := do
  try
    return .file (← IO.FS.readBinFile name).toList
  catch
    | .inappropriateType .. => return .directory
    | _ => return .missing

def readEntries (names : List String) : IO (List (String × FileEntry)) :=
  names.mapM fun name => return (name, ← readEntry name)

end PatternCompiler.CommandLine

open PatternCompiler.CommandLine in
def main (arguments : List String) : IO UInt32 := do
  let entries ← readEntries (namesToRead arguments)
  let input ←
    if readsInput arguments then (← IO.getStdin).readBinToEnd else pure ByteArray.empty
  let files := fun name => (entries.lookup name).getD .missing
  match run ⟨files, input.toList⟩ arguments with
  | .misuse =>
      IO.eprintln "error: invalid arguments\n\nUsage: strling [OPTIONS] [path]"
      return 1
  | .misconfigured =>
      IO.eprintln "Configuration error: the settings cannot be loaded"
      return 1
  | .finished outcome =>
      IO.print outcome.output
      IO.eprint outcome.errors
      return outcome.code.toUInt32
