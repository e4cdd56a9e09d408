import SchemaGraph.Command.Flag
import SchemaGraph.Text.Control

/-! # Help texts

What the command tells about itself: for each topic its purpose, its usage, and a table of
what may stand where.
-/

namespace SchemaGraph.Command

def program : String := "uxdf"

def version : String := "0.1.0"

def versionText : String := program ++ " " ++ version ++ "\n"

namespace Flag

/-- What help says about a flag. -/
def about (environment : Option String) : Flag → String
  | .schema => "Schema document (JSON, or YAML by .yaml/.yml extension) [env: " ++
      schemaVariable ++ "=" ++ environment.getD "" ++ "]"
  | .verbose => "Log at debug level unless RUST_LOG says otherwise"
  | .format => "Output format [default: text] [possible values: text, json]"
  | .count => "[default: 1]"
  | .help => "Print help"
  | .version => "Print version"

/-- How help writes a flag; long names stand below each other. -/
def label (f : Flag) : String :=
  (match f.letter? with
    | some c => String.ofList ['-', c, ',', ' ']
    | none => "    ") ++
  "--" ++ f.long ++ (f.placeholder?.map fun value => " " ++ value).getD ""

end Flag

def blanks (count : Nat) : String := String.ofList (List.replicate count ' ')

/-- Rows of two columns; two blanks stand before each. Further lines of the right column start
    where it starts. -/
def table (rows : List (String × String)) : List String :=
  let width := (rows.map fun row => row.1.length).foldl max 0
  rows.map fun (label, text) =>
    let lines := (Text.withoutControls text).splitOn "\n"
    "  " ++ label ++ blanks (width - label.length) ++ "  " ++
      String.intercalate ("\n" ++ blanks (width + 4)) lines

/-- A table under a heading, set off by a blank line; nothing for no rows. -/
def headed (heading : String) (rows : List (String × String)) : List String :=
  if rows.isEmpty then [] else "" :: (heading ++ ":") :: table rows

/-- The options that may stand before the verb, or behind the given one. -/
def options (environment : Option String) (verb : Option Verb) : List String :=
  headed "Options" ((Flag.allowed verb).map fun f => (f.label, f.about environment))

namespace Topic

def about : Topic → String
  | .overview => "UXDF graph model tools"
  | .verb v => v.about
  | .help => helpAbout

/-- What may follow the name of the program. -/
def usage : Topic → String
  | .overview => "[OPTIONS] <COMMAND>"
  | .verb v => v.name ++ " [OPTIONS]" ++ (v.operand?.map fun (name, _) => " " ++ name).getD ""
  | .help => helpWord ++ " [COMMAND]..."

/-- The tables of a topic. -/
def tables (environment : Option String) : Topic → List String
  | .overview =>
      headed "Commands" (Verb.all.map (fun v => (v.name, v.about)) ++ [(helpWord, helpAbout)]) ++
        options environment none
  | .verb v => headed "Arguments" v.operand?.toList ++ options environment (some v)
  | .help => headed "Arguments" [("[COMMAND]...", "Print help for the subcommand(s)")]

/-- The whole text about a topic. -/
def text (environment : Option String) (t : Topic) : String :=
  String.join <| (· ++ "\n") <$>
    ([t.about, "", "Usage: " ++ program ++ " " ++ t.usage] ++ t.tables environment)

end Topic

end SchemaGraph.Command
