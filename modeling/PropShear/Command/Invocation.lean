import PropShear.Command.Layout
import PropShear.Command.Usage

/-! What a command line asks for. -/
namespace PropShear.Command

/-! ### Flags -/

def helpFlag : Flag := ⟨["-h", "--help"], .help⟩
def versionFlag : Flag := ⟨["-V", "--version"], .nothing⟩
def logLevelFlag : Flag := ⟨["--log-level"], .text⟩
def includeFlag : Flag := ⟨["--include"], .text⟩
def excludeFlag : Flag := ⟨["--exclude"], .text⟩
def moduleFlag : Flag := ⟨["--import"], .text⟩
def configFlag : Flag := ⟨["--config"], .text⟩
def jobsFlag : Flag := ⟨["--jobs", "-j"], .number⟩
def sourceMapFlag : Flag := ⟨["--source-map"], .nothing⟩
def outDirFlag : Flag := ⟨["--out-dir"], .text⟩
def dryRunFlag : Flag := ⟨["--dry-run"], .nothing⟩

def selectionFlags : List Flag :=
  [helpFlag, includeFlag, excludeFlag, moduleFlag, configFlag, jobsFlag]

def layout : Topic → Layout
  | .main => ⟨[helpFlag, versionFlag, logLevelFlag], .command, none⟩
  | .strip => ⟨selectionFlags ++ [sourceMapFlag, outDirFlag, dryRunFlag], .many, some "paths"⟩
  | .check => ⟨selectionFlags, .many, some "paths"⟩

/-- The commands by name. -/
def commands : List (String × Topic) := [("strip", .strip), ("check", .check)]

/-! ### Invocations -/

/-- Which files are meant and what is removed from them. Empty lists say nothing. -/
structure Selection where
  paths : List String
  included : List String
  excluded : List String
  modules : List String
  config : Option String
  /-- How many files may be worked on at once; no outcome depends on it, unless a file is the
  log. -/
  jobs : Int

inductive Action where
  | strip (files : Selection) (sourceMap : Bool) (outDir : Option String) (dryRun : Bool)
  | check (files : Selection)

structure Invocation where
  version : Bool
  logLevel : Option String
  action : Option Action

/-- The command line is not followed; the topic says whose help or usage is shown. -/
structure Refusal where
  topic : Topic
  stop : Stop

def Selection.ofArguments (a : Arguments) : Selection where
  paths := a.operands.getD []
  included := a.values includeFlag
  excluded := a.values excludeFlag
  modules := a.values moduleFlag
  config := a.last? configFlag
  jobs := ((a.last? jobsFlag).bind fun s => Text.readDecimal? s.toList).getD 1

def Action.ofArguments (t : Topic) (a : Arguments) : Option Action :=
  match t with
  | .main => none
  | .strip =>
    some (.strip (.ofArguments a) (a.has sourceMapFlag) (a.last? outDirFlag) (a.has dryRunFlag))
  | .check => some (.check (.ofArguments a))

/-- Follows the layout of a topic. -/
def parseTopic (t : Topic) (words : List String) : Except Refusal Arguments :=
  match (layout t).parse words with
  | .ok a => .ok a
  | .error stop => .error ⟨t, stop⟩

/-- The command among the operands, with the words that have no place in it. -/
def parseCommand : List String → Except Refusal (Option Action × List String)
  | [] => .ok (none, [])
  | name :: words =>
    match commands.lookup name with
    | none => .error ⟨.main, .wrong (.unknownCommand name (commands.map (·.1)))⟩
    | some t => do
      let a ← parseTopic t words
      return (Action.ofArguments t a, a.extras)

def Invocation.parse (words : List String) : Except Refusal Invocation := do
  let a ← parseTopic .main words
  let (action, extras) ← parseCommand (a.operands.getD [])
  unless (a.extras ++ extras).isEmpty do
    throw ⟨.main, .wrong (.unrecognized (a.extras ++ extras))⟩
  return ⟨a.has versionFlag, a.last? logLevelFlag, action⟩

end PropShear.Command
