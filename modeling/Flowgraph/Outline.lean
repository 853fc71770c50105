import Flowgraph.Registry
import Flowgraph.Text.Quoted

namespace Flowgraph

/-- A name with named parts. -/
def outlineRecord (name : String) (parts : List (String × String)) : String :=
  name ++ " \x7b " ++ ", ".intercalate (parts.map fun p => p.1 ++ ": " ++ p.2) ++ " \x7d"

def outlineList (items : List String) : String := "[" ++ ", ".intercalate items ++ "]"

def outlineBool (b : Bool) : String := if b then "true" else "false"

def ValueType.outline : ValueType → String
  | .any => "Any"
  | .null => "Null"
  | .bool => "Bool"
  | .int => "Int"
  | .float => "Float"
  | .string => "String"
  | .list => "List"

def Category.outline : Category → String
  | .event => "Event"
  | .value => "Value"
  | .control => "Control"
  | .output => "Output"
  | .graph => "Graph"

def PortKind.outline : PortKind → String
  | .data type => s!"Data({type.outline})"
  | .execution => "Execution"

namespace Value

mutual

/-- The type of a value around its content. -/
def outline : Value → String
  | .null => "Null"
  | .bool b => s!"Bool({outlineBool b})"
  | .int n => s!"Int({n.toInt})"
  | .float x => s!"Float({Layout.outline.text x})"
  | .string s => s!"String({Text.quoted s})"
  | .list items => s!"List({outlineList (outlines items)})"

def outlines : List Value → List String
  | [] => []
  | v :: rest => outline v :: outlines rest

end

end Value

def Port.outline (p : Port) : String :=
  outlineRecord "PortMetadata"
    [("id", Text.quoted p.id), ("label", Text.quoted p.label), ("kind", p.kind.outline)]

def Variadic.outline (v : Variadic) : String :=
  outlineRecord "VariadicInput"
    [("port", v.port.outline), ("default_count", toString v.defaultCount.toNat)]

def Field.outline (f : Field) : String :=
  outlineRecord "FieldMetadata"
    [("id", Text.quoted f.id), ("label", Text.quoted f.label), ("default", f.default.outline)]

def Metadata.outline (m : Metadata) : String :=
  outlineRecord "NodeMetadata"
    [("node_type", Text.quoted m.nodeType), ("category", m.category.outline),
      ("label", Text.quoted m.label), ("description", Text.quoted m.description),
      ("inputs", outlineList (m.inputs.map Port.outline)),
      ("variadic", m.variadic.elim "None" fun v => s!"Some({v.outline})"),
      ("outputs", outlineList (m.outputs.map Port.outline)),
      ("fields", outlineList (m.fields.map Field.outline)),
      ("is_pure", outlineBool m.isPure), ("is_root", outlineBool m.isRoot)]

/-- A definition on one line, for people who look for a mistake. -/
def Definition.outline (d : Definition) : String :=
  outlineRecord "NodeDefinition"
    [("metadata", d.metadata.outline), ("has_evaluation", outlineBool d.hasBody)]

end Flowgraph
