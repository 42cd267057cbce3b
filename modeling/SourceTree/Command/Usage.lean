/-!
# What a command says about itself
-/
namespace SourceTree.Command

def programName := "swift-swiftsyntax-test"

/-- The line that follows every diagnostic. -/
def helpHint := "Run " ++ programName ++ " -help for more help."

/-- The text of the action for help. -/
def usage := "Utility to test SwiftSyntax syntax tree deserialization.

Actions (must specify one):
  -deserialize
        Deserialize a full pre-edit syntax tree (-pre-edit-tree) and write
        the source representation of the syntax tree to an out file (-out).
  -deserialize-incremental
        Deserialize a full pre-edit syntax tree (-pre-edit-tree), parse an
        incrementally transferred post-edit syntax tree (-incr-tree) and
        write the source representation of the post-edit syntax tree to an
        out file (-out).
  -classify-syntax
        Parse the given source file (-source-file) and output it with
        tokens classified for syntax colouring.
  -print-source
        Parse the given source file (-source-file) and print its syntax
        tree, wrapping every node in tags naming its kind.
  -help
        Print this help message

Arguments:
  -source-file FILENAME
        The path to a Swift source file to parse
  -pre-edit-tree FILENAME
        The path to a JSON serialized pre-edit syntax tree
  -incr-tree FILENAME
        The path to a JSON serialized incrementally transferred post-edit
        syntax tree
  -serialization-format \x7bjson,byteTree\x7d [default: json]
        The format that shall be used to serialize/deserialize the syntax
        tree. Defaults to json.
  -out FILENAME
        The file to which the source representation of the post-edit syntax
        tree shall be written.
  -swiftc FILENAME
        If specified, the path to the swiftc executable to parse the file.
        If not specified, swiftc will be looked up from PATH.

Environment:
  SWIFTSYNTAX_TEST_LOG_LEVEL
        Log level for diagnostics on stderr (default: WARNING).
  SWIFTSYNTAX_TEST_LOG_FILE
        If set, debug logs are also written to this file.
"

end SourceTree.Command
