import FlatExports.Command.Basic

/-!
The texts about the program itself.
-/

namespace FlatExports

def programName : String := "barrel-file-utils"

def versionLine : String := programName ++ ", version 1.0.0\n"

namespace Topic

def usage : Topic → String
  | program => "Usage: " ++ programName ++ " [OPTIONS] COMMAND [ARGS]..."
  | flatten => "Usage: " ++ programName ++ " unbarrel [OPTIONS] ROOT_FILE"
  | issues => "Usage: " ++ programName ++ " issues [OPTIONS] FILE"
  | references => "Usage: " ++ programName ++ " references [OPTIONS] FILE"

def body : Topic → List String
  | program =>
      ["  " ++ programName ++ ": Flatten JavaScript/TypeScript barrel files.",
       "",
       "  Quick Start:",
       "    " ++ programName ++ " unbarrel src/index.ts",
       "    " ++ programName ++ " unbarrel src/index.ts --dry-run",
       "    " ++ programName ++ " issues src/index.ts",
       "",
       "Options:",
       "  --version      Show the version and exit.",
       "  -v, --verbose  Enable debug logging",
       "  --help         Show this message and exit.",
       "",
       "Commands:",
       "  issues      List `export *` statements and re-exports that go through...",
       "  references  List internal barrel files that FILE re-exports from.",
       "  unbarrel    Rewrite ROOT_FILE so every export points at its defining..."]
  | flatten =>
      ["  Rewrite ROOT_FILE so every export points at its defining module.",
       "",
       "Options:",
       "  --dry-run                Print the rewritten file instead of writing it",
       "  --config FILE            Path to a YAML config file",
       "  --quote [single|double]  Quote style of generated module specifiers",
       "  --help                   Show this message and exit."]
  | issues =>
      ["  List `export *` statements and re-exports that go through other barrel",
       "  files.",
       "",
       "Options:",
       "  --json  Output as JSON",
       "  --help  Show this message and exit."]
  | references =>
      ["  List internal barrel files that FILE re-exports from.",
       "",
       "Options:",
       "  --json  Output as JSON",
       "  --help  Show this message and exit."]

def text (topic : Topic) : String :=
  String.join ((topic.usage :: "" :: topic.body).map (· ++ "\n"))

end Topic

end FlatExports
