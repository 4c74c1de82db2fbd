import Reckon.Table.Csv
import Reckon.Text.Encoding
import Reckon.Yaml.Reader

/-!
Files in formats that others define: settings as YAML, and tables as CSV. Whatever reads and writes
them is a parameter of the library; the readers that it brings along are one choice of many.
-/

namespace Reckon

inductive Yaml.Error where
  | malformed
  /-- A value in it does not exist, such as a day that is in no month. -/
  | value (message : String)

class Formats where
  readSettings : String → Except Yaml.Error Value
  readTable : Text.Bytes → Except Table.ContentError Table.Frame
  writeTable : Table.Frame → String
  /-- A table as it is shown to the reader. -/
  drawTable : Table.Frame → String

namespace Formats

/-- Records have no name twice, and columns are of one length. -/
structure Sound [Formats] : Prop where
  settings : ∀ text value, readSettings text = .ok value → value.IsProper
  table : ∀ bytes frame, readTable bytes = .ok frame → frame.IsShaped

@[reducible]
def standard : Formats where
  readSettings text :=
    match Yaml.read? text with
    | some value => .ok value
    | none => .error .malformed
  readTable bytes :=
    match Text.decode bytes with
    | .ok text => Table.Csv.read text
    | .error _ => .error .malformed
  writeTable := Table.Csv.write
  drawTable frame :=
    s!"shape: ({frame.height}, {frame.length})\n" ++ Table.Csv.write frame

end Formats

end Reckon
