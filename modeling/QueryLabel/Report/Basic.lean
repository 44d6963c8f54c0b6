import QueryLabel.Report.Json
import QueryLabel.Report.Text
import QueryLabel.Report.Yaml
/-!
Reports on a script in the format that was asked for.
-/

namespace QueryLabel

/-- The formats of a report. -/
inductive Format
  | text
  | json
  | yaml
  deriving DecidableEq

/-- The name by which a format is chosen. -/
def Format.name : Format → String
  | text => "text"
  | json => "json"
  | yaml => "yaml"

def Format.all : List Format := [text, json, yaml]

namespace Report

/-- What a report should look like. -/
structure Options where
  format : Format := .text
  /-- Styles are welcome, if the terminal has them. -/
  colored : Bool := true

/-- The report on a script. Only text has styles, and only on a terminal that
takes them. -/
def render (terminal : Bool) (options : Options) (records : List Record) : String :=
  String.ofList <| match options.format with
    | .text => Text.render (options.colored && terminal) records
    | .json => Json.render records
    | .yaml => Yaml.render records

end Report

end QueryLabel
