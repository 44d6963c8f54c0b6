import QueryLabel.Record
import QueryLabel.Yaml.Scalar
/-!
Reports as YAML: a list of mappings.
-/

namespace QueryLabel.Report.Yaml
open QueryLabel.Yaml (scalar)

def item (r : Record) : List Char :=
  "- index: ".toList ++ r.index.repr.toList ++ "\n  summary: ".toList ++ scalar r.summary.toList

def render : List Record → List Char
  | [] => "[]\n".toList
  | records => records.flatMap item

end QueryLabel.Report.Yaml
