import GoCalls.Text.Blank

/-!
# Command-line options

`Request.ofArgs` reads the arguments of the command. Options with a value are written
`--name value` or `--name=value`, some also by one letter, as in `-f value`, `-fvalue` or
`-f=value`; letters without a value can stand before another letter. An option with a value can be
given once. After `--` there are no more options.
-/

namespace GoCalls

/-- The options that take a value. -/
inductive Setting
  | included
  | excluded
  | format
  | tags
  | output
  | config
  | jobs
  deriving DecidableEq

/-- What the arguments ask for. -/
structure Options where
  projectDir : Option String := none
  included : Option String := none
  excluded : Option String := none
  format : Option String := none
  tags : Option String := none
  output : Option String := none
  config : Option String := none
  /-- The number of workers. -/
  jobs : Option Nat := none
  /-- How much is logged. -/
  verbosity : Nat := 0

/-- What the command has to do. -/
inductive Request
  | run (options : Options)
  | help
  | version
  /-- The arguments make no sense. -/
  | misuse

/-- The number that a text of digits stands for, if it fits in a machine word. A plus sign may stand
in front. -/
def jobs? (text : String) : Option Nat := do
  let digits := (Text.after? ['+'] text.toList).getD text.toList
  guard (!digits.isEmpty && digits.all Char.isDigit)
  let n := digits.foldl (fun n d => 10 * n + (d.toNat - '0'.toNat)) 0
  guard (n < UInt64.size)
  return n

namespace Options

/-- Set a value that must not have been set before. -/
def once (old : Option String) (value : String) : Option (Option String) :=
  if old.isSome then none else some (some value)

/-- Set a path, which must not be empty. -/
def path (old : Option String) (value : String) : Option (Option String) :=
  if value = "" then none else once old value

/-- The options with the value of one more. -/
def set? (options : Options) (setting : Setting) (value : String) : Option Options :=
  match setting with
  | .included => (once options.included value).map fun v => { options with included := v }
  | .excluded => (once options.excluded value).map fun v => { options with excluded := v }
  | .format => (once options.format value).map fun v => { options with format := v }
  | .tags => (once options.tags value).map fun v => { options with tags := v }
  | .output => (path options.output value).map fun v => { options with output := v }
  | .config => (path options.config value).map fun v => { options with config := v }
  | .jobs => do
    guard options.jobs.isNone
    return { options with jobs := some (← jobs? value) }

/-- The options with a project directory, of which there is at most one. -/
def setProject? (options : Options) (dir : String) : Option Options :=
  (path options.projectDir dir).map fun v => { options with projectDir := v }

end Options

/-- The option with a value that a long name stands for. -/
def Setting.ofName? : String → Option Setting
  | "include" => some .included
  | "exclude" => some .excluded
  | "format" => some .format
  | "tags" => some .tags
  | "output" => some .output
  | "config" => some .config
  | "jobs" => some .jobs
  | _ => none

/-- The option with a value that a letter stands for. -/
def Setting.ofLetter? : Char → Option Setting
  | 'f' => some .format
  | 'o' => some .output
  | 'j' => some .jobs
  | _ => none

/-- An argument with one dash and the long name of an option gets a second dash. -/
def normalizeArg (arg : String) : String :=
  match arg.toList with
  | '-' :: rest =>
    let name := String.ofList (rest.takeWhile (· ≠ '='))
    if (Setting.ofName? name).isSome then "-" ++ arg else arg
  | _ => arg

/-- What the letters of an argument come to. -/
inductive Letters
  | done (options : Options)
  /-- The last letter takes the next argument as its value. -/
  | awaiting (options : Options) (setting : Setting)
  | finished (request : Request)

/-- Read the letters of an argument. What follows a letter that takes a value is the value. -/
def readLetters (options : Options) : List Char → Letters
  | [] => .done options
  | 'v' :: rest => readLetters { options with verbosity := options.verbosity + 1 } rest
  | 'h' :: _ => .finished .help
  | 'V' :: _ => .finished .version
  | c :: rest =>
    match Setting.ofLetter? c with
    | none => .finished .misuse
    | some setting =>
      if rest.isEmpty then .awaiting options setting
      else
        match options.set? setting (String.ofList ((Text.after? ['='] rest).getD rest)) with
        | some options => .done options
        | none => .finished .misuse

/-- What an argument is. -/
inductive Arg
  /-- A name after two dashes, with the value after an equals sign. -/
  | long (name : String) (value : Option String)
  | letters (letters : List Char)
  /-- The two dashes that end options. -/
  | stop
  | plain

def Arg.ofString (arg : String) : Arg :=
  match arg.toList with
  | ['-', '-'] => .stop
  | '-' :: '-' :: rest =>
    let name := rest.takeWhile (· ≠ '=')
    .long (String.ofList name) ((rest.drop name.length).tail?.map String.ofList)
  | '-' :: c :: rest => .letters (c :: rest)
  | _ => .plain

/-- Read arguments of which none is an option. -/
def Request.ofPlainArgs (options : Options) : List String → Request
  | [] => .run options
  | arg :: rest =>
    match options.setProject? arg with
    | some options => ofPlainArgs options rest
    | none => .misuse

/-- Read arguments from the left; the first that makes no sense, or asks for help or the version,
decides. -/
def Request.ofArgsFrom (options : Options) : List String → Request
  | [] => .run options
  | arg :: rest =>
    match Arg.ofString arg with
    | .stop => ofPlainArgs options rest
    | .plain =>
      match options.setProject? arg with
      | some options => ofArgsFrom options rest
      | none => .misuse
    | .long "help" none => .help
    | .long "version" none => .version
    | .long "verbose" none => ofArgsFrom { options with verbosity := options.verbosity + 1 } rest
    | .long name value =>
      match Setting.ofName? name, value with
      | none, _ => .misuse
      | some setting, some value =>
        match options.set? setting value with
        | some options => ofArgsFrom options rest
        | none => .misuse
      | some setting, none => ofValue options setting rest
    | .letters letters =>
      match readLetters options letters with
      | .done options => ofArgsFrom options rest
      | .finished request => request
      | .awaiting options setting => ofValue options setting rest
where
  /-- Read arguments of which the first is the value of an option. -/
  ofValue (options : Options) (setting : Setting) : List String → Request
    | [] => .misuse
    | value :: rest =>
      match Arg.ofString value, options.set? setting value with
      | .plain, some options => Request.ofArgsFrom options rest
      | _, _ => .misuse

/-- What the arguments of the command ask for. -/
def Request.ofArgs (args : List String) : Request := ofArgsFrom {} (args.map normalizeArg)

end GoCalls
