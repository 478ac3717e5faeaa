import Chip8.Headless

/-!
The command line program: runs a program file in real time, without keys and without a screen.
-/

namespace Chip8.Headless

/-- The bytes of a file, or why they cannot be read. -/
def readFile (path : String) : IO (Except String (List UInt8)) := do
  try
    let bytes ← IO.FS.readBinFile path
    return .ok bytes.toList
  catch error =>
    match error with
    | .noFileOrDirectory _ _ _ => return .error missingFile
    | other => return .error (toString other)

/-- A seed that differs from run to run. -/
def freshSeed : IO UInt64 := do
  let bytes ← IO.getRandomBytes 8
  return bytes.toList.foldl (fun seed byte => 256 * seed + byte.toUInt64) 0

/-- Run in real time: catch up with the clock, then sleep until the next tick falls due. -/
partial def playInRealTime (limit : Option Nat) (origin : Nat) (console : Console) :
    IO (Outcome Console) := do
  let now := (← IO.monoNanosNow) - origin
  if before limit now then
    match console.catchUp now with
    | ⟨after, some fault⟩ => return .stopped after fault
    | ⟨after, none⟩ =>
        let wait := after.clock.deadline - now
        if wait > 0 then
          IO.sleep (UInt32.ofNat ((wait + 999999) / 1000000))
        playInRealTime limit origin after
  else
    return .done console

/-- Print a report and give its exit code. -/
def Report.print (report : Report) : IO UInt32 := do
  IO.print report.output
  if let some line := report.errorLine then
    IO.eprintln line
  return UInt32.ofNat report.exitCode

/-- Run the program that the words of a command line name. -/
def runInRealTime (words : List String) : IO UInt32 := do
  match CommandLine.read words with
  | .error refusal => (Report.ofRefusal refusal).print
  | .ok options =>
      let program ← readFile options.input
      match start options program (← freshSeed) with
      | .error report => report.print
      | .ok console =>
          let origin ← IO.monoNanosNow
          let ended ← playInRealTime options.limit? origin console
          (Report.ofOutcome ended).print

end Chip8.Headless

def main (words : List String) : IO UInt32 :=
  Chip8.Headless.runInRealTime words
