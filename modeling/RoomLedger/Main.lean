import RoomLedger.CommandLine.Run

open RoomLedger.CommandLine

instance : Files IO where
  read path := do
    try return some (← IO.FS.readBinFile path).toList
    catch _ => return none
  write path bytes := do
    try
      IO.FS.writeBinFile path ⟨bytes.toArray⟩
      return true
    catch _ => return false

def main (arguments : List String) : IO UInt32 := do
  let report ← program arguments
  IO.print report.output
  match report.failure with
  | some reason => IO.eprintln reason
  | none => pure ()
  return report.code.toUInt32
