import Sentential.CommandLine

/-!
# The program

Does what the command line says and ends with its code. The account of a run is written without the
time of day.
-/

def main (args : List String) : IO UInt32 := do
  let run := Sentential.CommandLine.run args
  IO.print (run.output fun _ e => e.line ++ "\n")
  if let some complaint := run.report.complaint? then IO.eprint complaint
  return run.report.code
