import FileSearch.Text.Quoted

/-!
The options of the command line. An option may be shortened as long as only one begins that way, and
none takes a value. An argument that could be several options is refused before anything else; then
the options act in order, and those that nobody knows are refused at the end.
-/

namespace FileSearch

inductive LongOption where
  | help | gitignore | verbose | version
  deriving DecidableEq, Repr

namespace LongOption

def all : List LongOption := [help, gitignore, verbose, version]

def spelling : LongOption → Text
  | help => "--help".toList
  | gitignore => "--gitignore".toList
  | verbose => "--verbose".toList
  | version => "--version".toList

/-- What an option is called in a refusal. -/
def title : LongOption → Text
  | help => "-h/--help".toList
  | o => o.spelling

end LongOption

/-- Why an option list is refused. -/
inductive OptionError where
  | ambiguous (arg : Text) (candidates : List LongOption)
  | unwantedValue (o : LongOption) (value : Text)
  | unrecognized (args : List Text)
  deriving DecidableEq, Repr

/-- Puts texts together with a separator between neighbours. -/
def joinWith (sep : Text) : List Text → Text
  | [] => []
  | [t] => t
  | t :: u :: ts => t ++ sep ++ joinWith sep (u :: ts)

def OptionError.message : OptionError → Text
  | ambiguous arg candidates =>
    "ambiguous option: ".toList ++ arg ++ " could match ".toList ++
      joinWith ", ".toList (candidates.map LongOption.spelling)
  | unwantedValue o value =>
    "argument ".toList ++ o.title ++ ": ignored explicit argument ".toList ++ quoted value
  | unrecognized args => "unrecognized arguments: ".toList ++ joinWith [' '] args

/-- What an argument says: an option, with a value after `=` if there is one, or nothing known. -/
inductive OptionWord where
  | known (o : LongOption) (value : Option Text)
  | unknown (arg : Text)
  deriving DecidableEq, Repr

/-- Splits an argument at its first `=`. -/
def splitValue (arg : Text) : Text × Option Text :=
  match arg.span (· ≠ '=') with
  | (name, []) => (name, none)
  | (name, _ :: value) => (name, some value)

def OptionWord.ofText (arg : Text) : Except OptionError OptionWord :=
  let (name, value) := splitValue arg
  match LongOption.all.find? (·.spelling = name) with
  | some o => .ok (.known o value)
  | none =>
    match LongOption.all.filter (fun o => name.isPrefixOf o.spelling) with
    | [] => .ok (.unknown arg)
    | [o] => .ok (.known o value)
    | candidates => .error (.ambiguous arg candidates)

/-- The switches that the options set. -/
structure Options where
  gitignore : Bool := false
  verbose : Bool := false
  deriving DecidableEq, Repr

/-- What the options ask for. -/
inductive Request where
  | search (options : Options)
  | help
  | version
  deriving DecidableEq, Repr

namespace Options

/-- Lets the options act one after the other; the unknown ones are kept for the end. -/
def act (options : Options) (unknown : List Text) : List OptionWord → Except OptionError Request
  | [] => if unknown.isEmpty then .ok (.search options) else .error (.unrecognized unknown)
  | .unknown arg :: words => act options (unknown ++ [arg]) words
  | .known o (some value) :: _ => .error (.unwantedValue o value)
  | .known .help none :: _ => .ok .help
  | .known .version none :: _ => .ok .version
  | .known .gitignore none :: words => act { options with gitignore := true } unknown words
  | .known .verbose none :: words => act { options with verbose := true } unknown words

/-- Reads every option before any acts. -/
def words : List Text → Except OptionError (List OptionWord)
  | [] => .ok []
  | arg :: args => do
    let word ← OptionWord.ofText arg
    let rest ← words args
    return word :: rest

def read (args : List Text) : Except OptionError Request := do
  act {} [] (← words args)

end Options

end FileSearch
