/-
The demonstration as a program: it prints the report, writes the drawing, and
tells on the error stream what was asked for or went wrong.
-/
import LoopBounds.Demo.Report

/-- Runs the demonstration. -/
def main (arguments : List String) : IO UInt32 := do
  let start ← IO.monoMsNow
  let report := LoopBounds.Demo.report arguments
  for event in report.events do
    IO.eprintln ("[" ++ event.level.text ++ "] " ++ event.message)
  if let some (path, text) := report.drawing then
    IO.FS.writeFile path text
  for line in report.lines do
    IO.println line
  if let some complaint := report.complaint then
    IO.eprintln ("error: " ++ complaint)
  else
    let millis := (← IO.monoMsNow) - start
    let fraction := toString (millis % 1000)
    IO.println ("All done in " ++ toString (millis / 1000) ++ "." ++
      "".pushn '0' (3 - fraction.length) ++ fraction ++ " s")
  return report.exit.toUInt32
