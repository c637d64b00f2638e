import FormulaSearch.Command.Session

/-!
# The program

Reads the files that the arguments name, carries out the invocation and prints what it leaves.
-/

namespace FormulaSearch.Command

/-- The error of a code, which some calls give negated. -/
def systemError (code : UInt32) : SystemError := ⟨min code.toNat (0 - code).toNat⟩

def openPath (path : String) : IO Opened := do
  try
    let bytes ← IO.FS.readBinFile path
    return .content bytes.toList
  catch
    | .noFileOrDirectory _ code _ => return .cannotOpen (systemError code)
    | .permissionDenied _ code _ => return .cannotOpen (systemError code)
    | .invalidArgument _ code _ => return .cannotOpen (systemError code)
    | .inappropriateType _ code _ =>
      let e := systemError code
      return if e.number = 21 then .cannotRead e else .cannotOpen e
    | _ => return .cannotOpen ⟨5⟩

def freshSeed : IO UInt64 := do
  let bytes ← IO.getRandomBytes 8
  return bytes.toList.foldl (fun n b => (n <<< 8) ||| b.toUInt64) 0

end FormulaSearch.Command

open FormulaSearch in
def main (args : List String) : IO UInt32 := do
  let paths := ((Command.parse? args).map Command.Request.paths).getD []
  let files ← paths.mapM fun path => return (path, ← Command.openPath path)
  let folder (path : String) : Command.Opened := (files.lookup path).getD (.cannotOpen ⟨2⟩)
  let exit := Command.run folder (← Command.freshSeed) args
  exit.output.forM fun line => IO.println line
  exit.errors.forM fun line => IO.eprintln line
  return UInt32.ofNat exit.code
