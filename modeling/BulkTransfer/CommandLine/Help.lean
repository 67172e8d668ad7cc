import BulkTransfer.Command.Spec
import BulkTransfer.Text.Segment

/-!
# Help on the command line

The help text shows the two forms of the command line, every setting with its
meaning, and the usage of every command.
-/

namespace BulkTransfer
namespace CommandLine

/-- The settings and what they mean. -/
def settingTexts : List (String × String) :=
  [("-f <FILE>", "Read job descriptions from FILE, one per line (`-` for stdin)"),
    ("    --numworkers <N>",
      "Worker count; negative means that many per CPU [env: XF_NUMWORKERS]"),
    ("-r, --retries <N>", "Retries for retryable failures [default: 10]"),
    ("    --queue-capacity <N>",
      "Jobs queued ahead of the workers before input blocks [default: 1024]"),
    ("    --storage-root <DIR>",
      "Directory holding one sub-directory per bucket [env: XF_STORAGE_ROOT]"),
    ("    --stats", "Print statistics when done"),
    ("-o, --output <OUTPUT>", "Output format [default: text] [possible values: text, json]"),
    ("-v, --verbose", "Debug logging, and report cancelled jobs"),
    ("-h, --help", "Print help"),
    ("-V, --version", "Print version")]

/-- One line on a setting. -/
def settingLine (entry : String × String) : String :=
  "  " ++ Text.padRight 24 ' ' entry.1 ++ "  " ++ entry.2

/-- The usage of all commands, line by line. -/
def commandLines : List String :=
  (CommandTable.standard.helpGroups none).flatMap fun group =>
    ("  " ++ group.1) :: group.2.map fun line => "        " ++ line

/-- The lines of the help text. -/
def helpLines : List String :=
  ["Parallel bulk transfers between local files and object storage", "",
    "Usage: xf [OPTIONS] -f <FILE>", "       xf [OPTIONS] <COMMAND>...", "",
    "Arguments:",
    "  [COMMAND]...  A single job description, e.g. `cp s3://bucket/key ./`", "",
    "Options:"] ++ settingTexts.map settingLine ++ ["", "Commands:"] ++ commandLines

/-- The line that names the version. -/
def versionLine : String :=
  "xf 0.1.0"

end CommandLine
end BulkTransfer
