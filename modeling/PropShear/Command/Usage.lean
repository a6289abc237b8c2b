/-! The texts that explain the command line, for a terminal of eighty columns. -/
namespace PropShear.Command

/-- The parts of the command line that have help of their own. -/
inductive Topic where
  | main
  | strip
  | check
deriving DecidableEq, Repr

namespace Topic

def program : Topic → String
  | main => "propstrip"
  | strip => "propstrip strip"
  | check => "propstrip check"

def usage : Topic → String
  | main => "usage: propstrip [-h] [-V] [--log-level LOG_LEVEL] \x7bstrip,check\x7d ...\n"
  | strip =>
    "usage: propstrip strip [-h] [--include GLOB] [--exclude GLOB]\n" ++
    "                       [--import MODULE] [--config FILE] [--jobs JOBS]\n" ++
    "                       [--source-map] [--out-dir DIR] [--dry-run]\n" ++
    "                       paths [paths ...]\n"
  | check =>
    "usage: propstrip check [-h] [--include GLOB] [--exclude GLOB]\n" ++
    "                       [--import MODULE] [--config FILE] [--jobs JOBS]\n" ++
    "                       paths [paths ...]\n"

/-- The explanation of the arguments that select files. -/
def selection : String :=
  "positional arguments:\n" ++
  "  paths                 files or directories to process\n\n" ++
  "options:\n" ++
  "  -h, --help            show this help message and exit\n" ++
  "  --include GLOB        include pattern (repeatable; default **/*.jsx,\n" ++
  "                        **/*.tsx)\n" ++
  "  --exclude GLOB        exclude pattern (repeatable; default node_modules/**)\n" ++
  "  --import MODULE       extra module to strip besides prop-types (repeatable)\n" ++
  "  --config FILE         YAML config file (default: .propstrip.yaml /\n" ++
  "                        propstrip.yaml)\n" ++
  "  --jobs JOBS, -j JOBS  transform files on N threads\n"

def explanation : Topic → String
  | main =>
    "Strip prop-types from JS/TS sources\n\n" ++
    "positional arguments:\n" ++
    "  \x7bstrip,check\x7d\n" ++
    "    strip               remove prop-types code and write the results\n" ++
    "    check               list files that would change; exit 1 if any\n\n" ++
    "options:\n" ++
    "  -h, --help            show this help message and exit\n" ++
    "  -V, --version         print version and exit\n" ++
    "  --log-level LOG_LEVEL\n" ++
    "                        DEBUG | INFO | WARNING | ERROR\n"
  | strip =>
    selection ++
    "  --source-map          write .map files next to outputs\n" ++
    "  --out-dir DIR         write outputs under DIR instead of in place\n" ++
    "  --dry-run             report without writing (also PROPSTRIP_DRYRUN=1)\n"
  | check => selection

def help (t : Topic) : String := t.usage ++ "\n" ++ t.explanation

/-- What is said about a wrong command line. -/
def complaint (t : Topic) (message : String) : String :=
  t.usage ++ t.program ++ ": error: " ++ message ++ "\n"

end Topic
end PropShear.Command
