import FormWeave.Design.Basic
import FormWeave.Format.Error
import FormWeave.Tag.Parser
import FormWeave.Writer.Emit

/-!
# Errors

What can go wrong, with the code, the message and the advice shown for it.
-/

namespace FormWeave

inductive Error
  | file (fault : FileFault)
  | openOutput (path : String) (fault : FileFault)
  | malformedTag (line : Nat) (text : String) (cause : TagError)
  | designParse (cause : FormatError)
  | designSerialize (reason : String)
  | design (cause : DesignError)
  | configParse (cause : FormatError)
  | missingDesign (path : String)
  deriving DecidableEq, Repr

namespace Error

def code : Error → String
  | file _ => "formgen::io_error"
  | openOutput .. => "formgen::open_output"
  | malformedTag .. => "formgen::malformed_tag"
  | designParse _ => "formgen::design_parse"
  | designSerialize _ => "formgen::design_serialize"
  | design (.duplicateNodeId _) => "formgen::duplicate_node_id"
  | design .tooManyNodes => "formgen::too_many_nodes"
  | configParse _ => "formgen::config_parse"
  | missingDesign _ => "formgen::missing_design"

def message : Error → String
  | file fault => fault.message
  | openOutput path _ => "cannot open `" ++ path ++ "` for writing"
  | malformedTag line text _ =>
    "malformed merge tag in line " ++ toString line ++ ": `" ++ text ++ "`"
  | designParse cause => "failed to parse design file: " ++ cause.message
  | designSerialize reason => "failed to serialize design: " ++ reason
  | design (.duplicateNodeId id) =>
    "node id `" ++ id.render ++ "` is used by more than one design node"
  | design .tooManyNodes => "design has more than " ++ toString Design.maxNodes ++ " nodes"
  | configParse cause => "failed to parse config file: " ++ cause.message
  | missingDesign path => "design file not found: `" ++ path ++ "`"

def help? : Error → Option String
  | openOutput .. => some "check that the directory exists and the file is not read-only"
  | malformedTag .. =>
    some ("tags have the form `//~fl~<kind>~<node id>~<checksum>~~`; regenerate the source " ++
      "file if a tag line was edited by hand")
  | design (.duplicateNodeId _) =>
    some "remove the `id` field from one of the nodes so a fresh id is assigned"
  | configParse _ =>
    some "check that formgen.toml is valid TOML; see `formgen init` for a sample"
  | missingDesign _ => some "run `formgen init` or set `design` in formgen.toml"
  | file _ | designParse _ | designSerialize _ | design .tooManyNodes => none

end Error

end FormWeave
