import FileSearch.CommandLine.Arguments
import FileSearch.CommandLine.Options
import FileSearch.Ignore.File

/-!
The command line as a whole: it reads its arguments, searches the roots (the current directory if
none is given), reports faults, and tells with which status it ends. A reader that has gone is no
failure.
-/

namespace FileSearch

namespace CommandLine

def usage : Text := "usage: findlite [--option...] [path...] [expression...]".toList

def helpText : Text :=
  "usage: ".toList ++ usage ++
  ("\n\nfind-like filesystem search with a small expression language\n\n" ++
    "options:\n" ++
    "  -h, --help   show this help message and exit\n" ++
    "  --gitignore  Skip entries ignored by each root's .gitignore\n" ++
    "  --verbose    Log traversal details to stderr\n" ++
    "  --version    show program's version number and exit\n").toList

def versionText : Text := "findlite 0.1.0\n".toList

/-- A line on the error output. -/
def errorLine (text : Text) : Text := "findlite: ".toList ++ text ++ ['\n']

/-- A record of the log as it is shown. -/
def logLine : LogRecord → Text
  | .loaded path => errorLine ("findlite.gitignore: Loaded ".toList ++ path)
  | .pruned path => errorLine ("findlite.walker: Pruned below max depth: ".toList ++ path)
  | .excluded path => errorLine ("findlite.walker: Excluded: ".toList ++ path)
  | .deleting path => errorLine ("findlite.walker: Deleting: ".toList ++ path)

/-- Searches the roots up to the first whose path has no bytes: the first request for that path
fails, before anything is known of the root. The other paths of a search are made of the path of a
root and of names that the system lists. -/
def searchRoots (s : Setting) (q : Query) (source : Option FilterSource) (roots : List Text) :
    Search Nat := do
  let count ← find s q source (roots.takeWhile s.paths.encodes)
  if roots.all s.paths.encodes then return count else throw .unencodable

/-- Compiles the expression and searches the roots. -/
def search (s : Setting) (options : Options) (paths tokens : List Text) : Search Nat := do
  let q ← Search.ofExcept ((compile tokens).mapError .expression)
  searchRoots s q (if options.gitignore then some (IgnoreFile.source s.ignoring s.cwd) else none)
    (if paths.isEmpty then [['.']] else paths)

/-- How the command line ends. -/
inductive Ending where
  /-- with a status of its own -/
  | finished (status : Nat)
  /-- because the options ask for it or are refused -/
  | stopped (status : Nat)
  /-- with a fault it does not report -/
  | escaped (f : Fault)
  deriving DecidableEq, Repr

/-- What is left to see after the end. -/
structure Report where
  ending : Ending
  /-- the error output -/
  errors : Text := []
  /-- whether the output was closed because its reader has gone -/
  closed : Bool := false
  world : World

/-- The end after a fault. -/
def afterFault (errors : Text) (f : Fault) (world : World) : Report :=
  if f = .brokenPipe then { ending := .finished 0, errors, closed := true, world }
  else if f.isReported then
    { ending := .finished 1, errors := errors ++ errorLine f.message, world }
  else { ending := .escaped f, errors, world }

/-- Writes a text and stops. -/
def tell (s : Setting) (text : Text) (world : World) : Report :=
  match Search.write s text world with
  | .ok _ world => { ending := .stopped 0, world }
  | .error f world => afterFault [] f world

/-- The log as it is shown, if it is asked for. -/
def logText (options : Options) (world : World) : Text :=
  if options.verbose then world.log.flatMap logLine else []

/-- Runs the command line from a world with an empty log. -/
def execute (s : Setting) (args : List Text) (world : World) : Report :=
  if args.isEmpty then { ending := .finished 1, errors := usage ++ ['\n'], world }
  else
    let cut := Arguments.ofList args
    match Options.read cut.options with
    | .error e => {
        ending := .stopped 2
        errors := "usage: ".toList ++ usage ++ ['\n'] ++ errorLine ("error: ".toList ++ e.message)
        world }
    | .ok .help => tell s helpText world
    | .ok .version => tell s versionText world
    | .ok (.search options) =>
      match search s options cut.paths cut.expression world with
      | .ok _ world => { ending := .finished 0, errors := logText options world, world }
      | .error f world => afterFault (logText options world) f world

end CommandLine

end FileSearch
