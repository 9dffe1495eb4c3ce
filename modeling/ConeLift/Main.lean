import ConeLift.Instance.Benchmark
import ConeLift.Instance.CommandLine
import ConeLift.Solver.Basic

namespace ConeLift

def faultLines (fs : List Fault) : String :=
  "\n".intercalate (fs.map fun f => (f.kind.text?).getD f.kind.code)

def perform (e : Instance.Effect) : IO UInt32 := do
  IO.print e.stdout
  IO.eprint e.stderr
  match e.file with
  | some (path, text) => IO.FS.writeFile path text
  | none => pure ()
  return UInt32.ofNat e.exit

def runGenerate (args : List String) : IO UInt32 := do
  match Instance.command "conelift generate" args with
  | .ok e => perform e
  | .error fs =>
    IO.eprintln (faultLines fs)
    return 1

def runBenchmark : IO UInt32 := do
  match Instance.benchmark solve with
  | .ok rows =>
    IO.println (Instance.benchmarkText rows)
    return 0
  | .error e =>
    IO.eprintln ((e.text?).getD "the benchmark could not be run")
    return 1

end ConeLift

def main (args : List String) : IO UInt32 := do
  match args with
  | "generate" :: rest => ConeLift.runGenerate rest
  | ["bench"] => ConeLift.runBenchmark
  | _ =>
    IO.eprintln "usage: conelift generate [options] | conelift bench"
    return 2
