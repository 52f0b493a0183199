/-
# CommandLine.Help -- what is printed instead of a command's output

A command line that is not carried out ends with a word for the reason, or with
the help or version text when it asked for that.
-/
import TagTemplate.CommandLine.Arguments

namespace TagTemplate.CommandLine

set_option autoImplicit false

def versionText : Text := "tagtpl_cli 0.1.0\n".toList

def helpText : Text :=
  ("Compile tag templates into cached templates.\n\n"
    ++ "Usage: tagtpl [OPTIONS] [COMMAND]\n\n"
    ++ "Commands:\n"
    ++ "  compile     Print the compiled form of a template\n"
    ++ "  render      Render a template against JSON data\n"
    ++ "  check       Compile templates and report structural errors\n"
    ++ "  cache-path  Print the path of the compiled template, compiling it if needed\n"
    ++ "  help        Print this message or the help of the given subcommand(s)\n\n"
    ++ "Options:\n"
    ++ "  -p, --path <PATH>                   Path to the project root directory\n"
    ++ "  -t, --template-dir <TEMPLATE_DIRS>  Template directory to search, in priority order\n"
    ++ "      --cache-dir <CACHE_DIR>         Directory holding compiled templates\n"
    ++ "      --no-cache                      Recompile templates even when a fresh compiled copy exists\n"
    ++ "      --strip-host-snippets           Remove host snippets before compiling\n"
    ++ "  -v, --verbose                       Enable verbose output\n"
    ++ "      --no-color                      Disable colored output\n"
    ++ "  -h, --help                          Print help\n"
    ++ "  -V, --version                       Print version\n").toList

namespace Halt

def stdout : Halt → Text
  | .help => helpText
  | .version => versionText
  | _ => []

def exit : Halt → Nat
  | .help | .version => 0
  | _ => 2

def message : Halt → Text
  | .missingRequiredArgument => "a required argument is missing".toList
  | .unknownArgument => "unexpected argument".toList
  | .invalidSubcommand => "unrecognized subcommand".toList
  | .invalidValue => "a value is required".toList
  | .argumentConflict => "an argument cannot be used multiple times".toList
  | .tooManyValues => "unexpected value".toList
  | .help | .version => []

end Halt

end TagTemplate.CommandLine
