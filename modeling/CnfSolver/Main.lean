import CnfSolver.CommandLine

/-!
# The program

Reads what the command line asks for, runs it, and writes the output and the log.
-/

namespace CnfSolver.Main

def usage : List String := [
  "usage: watchsat [-h] [-i INPUT | -c CLAUSE | -b BENCH] [-f \x7bstring,json\x7d]",
  "                [--check] [-l \x7bDEBUG,INFO,WARNING,ERROR,CRITICAL\x7d]"]

def help : List String := usage ++ [
  "",
  "Find a satisfying assignment for a CNF formula.",
  "",
  "options:",
  "  -h, --help            show this help message and exit",
  "  -i INPUT, --input INPUT",
  "                        DIMACS CNF file, may be repeated",
  "  -c CLAUSE, --clause CLAUSE",
  "                        clause such as \"A ~B C\", may be repeated",
  "  -b BENCH, --bench BENCH",
  "                        directory of uf*/uuf* benchmark folders of DIMACS",
  "                        files",
  "  -f \x7bstring,json\x7d, --format \x7bstring,json\x7d",
  "  --check               cross-check the verdict against brute force",
  "  -l \x7bDEBUG,INFO,WARNING,ERROR,CRITICAL\x7d, --log-level " ++
    "\x7bDEBUG,INFO,WARNING,ERROR,CRITICAL\x7d"]

def errorAt (path : String) (e : IO.Error) : Error :=
  match e with
  | .noFileOrDirectory .. => .file .notFound path
  | .inappropriateType _ code _ =>
      .file (if code = 21 then .isDirectory else .notDirectory) path
  | e => .general (toString e)

def readFile (path : String) : IO (String × Except Error ByteArray) := do
  if path.toList.contains '\x00' then return (path, .error .nulInPath)
  match ← (IO.FS.readBinFile path).toBaseIO with
  | .ok bytes => return (path, .ok bytes)
  | .error e => return (path, .error (errorAt path e))

def listDirectory (path : String) : IO (String × Except Error (List String)) := do
  if path.toList.contains '\x00' then return (path, .error .nulInPath)
  let read : IO (List String) := do
    let directory ← IO.FS.realPath path
    return (← directory.readDir).toList.map (·.fileName)
  match ← read.toBaseIO with
  | .ok names => return (path, .ok names)
  | .error e => return (path, .error (errorAt path e))

def folders (names : List String) : List String :=
  names.filter fun name => (Benchmark.expected? name).isSome

/-- All that the options can make the program read. -/
def snapshot (o : Options) : IO Files := do
  let mut reads ← (o.input.filterMap id).mapM readFile
  let mut lists : List (String × Except Error (List String)) := []
  if let some root := o.bench.join then
    let top ← listDirectory root
    lists := [top]
    for folder in folders (top.2.toOption.getD []) do
      let path := joinPath root folder
      let listed ← listDirectory path
      lists := listed :: lists
      for name in (listed.2.toOption.getD []).filter Benchmark.isInstance do
        reads := (← readFile (joinPath path name)) :: reads
  let unread {α : Type} (path : String) : Except Error α := .error (.file .notFound path)
  let (files, directories) := (reads, lists)
  return {
    read := fun path => (files.lookup path).getD (unread path)
    list := fun path => (directories.lookup path).getD (unread path) }

def seconds (nanos : Nat) : String :=
  let millis := (nanos + 500000) / 1000000
  let decimals := toString (millis % 1000)
  let zeros := "".pushn '0' (3 - decimals.length)
  s!"{millis / 1000}.{zeros}{decimals}s"

def timings (files : Files) (root : String) : IO (List (String × String × String)) := do
  let mut times : List (String × String × String) := []
  for folder in folders ((files.list root).toOption.getD []) do
    let start ← IO.monoNanosNow
    let solved ← IO.lazyPure fun _ =>
      Benchmark.solveFolder files ((Benchmark.expected? folder).getD true) root folder
    let nanos := (← IO.monoNanosNow) - start
    for piece in solved.output do
      if let .benchmark directory instances := piece then
        times := (directory, seconds nanos, seconds (nanos / instances)) :: times
  return times

def run (argv : List String) : IO UInt32 := do
  match Options.parse argv with
  | .error stop =>
      match stop with
      | .help => help.forM IO.println
      | .usage complaint =>
          usage.forM IO.eprintln
          IO.eprintln s!"watchsat: error: {complaint.message}"
      return UInt32.ofNat stop.status
  | .ok o =>
      let files ← snapshot o
      let times ← timings files (o.bench.join.getD "")
      let outcome := CommandLine.execute files (← IO.getEnv "LOGLEVEL") o
      for piece in outcome.output do
        IO.print (piece.render fun directory => (times.lookup directory).getD ("", ""))
      IO.eprint outcome.log
      match outcome.status with
      | .ok status => return UInt32.ofNat status
      | .error e =>
          IO.eprintln e.message
          return 1

end CnfSolver.Main

def main (argv : List String) : IO UInt32 := CnfSolver.Main.run argv
