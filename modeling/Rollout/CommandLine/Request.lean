import Rollout.Archive.Stream
import Rollout.CommandLine.Match
import Rollout.Version

namespace Rollout.CommandLine

open Text

inductive Request
  | run (scripts : List Text) (resources : Option Text) (presets : List Text) (elevated : Bool)
  | pack (archive : Text) (paths : List Text) (base : Option Text) (codec : Codec)
  | unpack (archive directory : Text) (codec : Codec)
  | list (archive : Text) (codec : Codec)
  deriving DecidableEq, Repr

inductive Command
  | run
  | pack
  | unpack
  | list
  deriving DecidableEq, Repr

namespace Command

def all : List Command := [run, pack, unpack, list]

def name : Command → Text
  | run => "run".toList
  | pack => "pack".toList
  | unpack => "unpack".toList
  | list => "list".toList

def ofName? (t : Text) : Option Command := all.find? fun c => c.name = t

end Command

def lines (ls : List String) : Text := ls.flatMap fun l => l.toList ++ ['\n']

def helpSwitch : Switch := ⟨["-h".toList, "--help".toList], .help⟩

def plainSwitch : Switch := ⟨["--plain".toList], .mark⟩

def programName : Text := "deployex".toList

def mainGrammar : Grammar where
  program := programName
  usage := lines
    ["usage: deployex [-h] [--version] [-v] \x7brun,pack,unpack,list\x7d ..."]
  details := lines
    ["Deployment script interpreter and archiver.",
     "",
     "positional arguments:",
     "  \x7brun,pack,unpack,list\x7d",
     "    run                 Run one or more scripts",
     "    pack                Create an archive",
     "    unpack              Extract an archive",
     "    list                List archive contents",
     "",
     "options:",
     "  -h, --help            show this help message and exit",
     "  --version             show program's version number and exit",
     "  -v, --verbose         Log every executed line (same as setting",
     "                        DEPLOYEX_DEBUG)"]
  abbreviates := false
  switches :=
    [helpSwitch, ⟨["--version".toList], .version⟩, ⟨["-v".toList, "--verbose".toList], .mark⟩]
  parameters := [⟨"command".toList, .rest⟩]

def runGrammar : Grammar where
  program := "deployex run".toList
  usage := lines
    ["usage: deployex run [-h] [--resources RESOURCES] [--set NAME=VALUE]",
     "                    [--require-admin]",
     "                    scripts [scripts ...]"]
  details := lines
    ["positional arguments:",
     "  scripts               Script resource names",
     "",
     "options:",
     "  -h, --help            show this help message and exit",
     "  --resources RESOURCES",
     "                        Directory holding scripts, file lists and archives",
     "                        (default: current directory)",
     "  --set NAME=VALUE      Preset a script variable, e.g. --set IgnoreErrors=yes",
     "  --require-admin       Refuse to run without administrative rights"]
  abbreviates := true
  switches :=
    [helpSwitch, ⟨["--resources".toList], .value⟩, ⟨["--set".toList], .value⟩,
     ⟨["--require-admin".toList], .mark⟩]
  parameters := [⟨"scripts".toList, .some⟩]

def packGrammar : Grammar where
  program := "deployex pack".toList
  usage := lines
    ["usage: deployex pack [-h] [--base BASE] [--plain] archive paths [paths ...]"]
  details := lines
    ["positional arguments:",
     "  archive      Archive file to create",
     "  paths        Files or directories to add",
     "",
     "options:",
     "  -h, --help   show this help message and exit",
     "  --base BASE  Base directory of stored paths",
     "  --plain      Do not compress"]
  abbreviates := true
  switches := [helpSwitch, ⟨["--base".toList], .value⟩, plainSwitch]
  parameters := [⟨"archive".toList, .one⟩, ⟨"paths".toList, .some⟩]

def unpackGrammar : Grammar where
  program := "deployex unpack".toList
  usage := lines ["usage: deployex unpack [-h] [--plain] archive dest"]
  details := lines
    ["positional arguments:",
     "  archive     Archive file to extract",
     "  dest        Target directory",
     "",
     "options:",
     "  -h, --help  show this help message and exit",
     "  --plain     Archive is not compressed"]
  abbreviates := true
  switches := [helpSwitch, plainSwitch]
  parameters := [⟨"archive".toList, .one⟩, ⟨"dest".toList, .one⟩]

def listGrammar : Grammar where
  program := "deployex list".toList
  usage := lines ["usage: deployex list [-h] [--plain] archive"]
  details := lines
    ["positional arguments:",
     "  archive     Archive file to list",
     "",
     "options:",
     "  -h, --help  show this help message and exit",
     "  --plain     Archive is not compressed"]
  abbreviates := true
  switches := [helpSwitch, plainSwitch]
  parameters := [⟨"archive".toList, .one⟩]

def Command.grammar : Command → Grammar
  | run => runGrammar
  | pack => packGrammar
  | unpack => unpackGrammar
  | list => listGrammar

/-- A stop, and the grammar whose texts tell of it. -/
structure Halt where
  grammar : Grammar
  stop : Stop
  deriving DecidableEq, Repr

structure Order where
  verbose : Bool
  request : Request
  deriving DecidableEq, Repr

def codecOf (f : Findings) : Codec := if f.has "--plain" then .plain else .deflate

def Findings.argument (f : Findings) (name : String) : Text := (f.arguments name).headD []

def Command.request (f : Findings) : Command → Request
  | run =>
    .run (f.arguments "scripts") (f.valuesFor "--resources").getLast? (f.valuesFor "--set")
      (f.has "--require-admin")
  | pack =>
    .pack (f.argument "archive") (f.arguments "paths") (f.valuesFor "--base").getLast? (codecOf f)
  | unpack => .unpack (f.argument "archive") (f.argument "dest") (codecOf f)
  | list => .list (f.argument "archive") (codecOf f)

/-- Reads the arguments of the program. What the command cannot place is reported together with
what stands before the command and fits nowhere. -/
def Order.ofArguments (arguments : List Text) : Except Halt Order :=
  match mainGrammar.parse arguments with
  | .error stop => .error ⟨mainGrammar, stop⟩
  | .ok before =>
    let words := before.arguments "command"
    let name := words.headD []
    match Command.ofName? name with
    | none =>
      .error ⟨mainGrammar, .misuse (.unknownCommand name (Command.all.map Command.name))⟩
    | some command =>
      match command.grammar.parse words.tail with
      | .error stop => .error ⟨command.grammar, stop⟩
      | .ok findings =>
        let extras := before.extras ++ findings.extras
        if extras.isEmpty then .ok ⟨before.has "-v", command.request findings⟩
        else .error ⟨mainGrammar, .misuse (.unrecognized extras)⟩

end Rollout.CommandLine
