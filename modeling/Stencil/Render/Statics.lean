import Stencil.Template.Basic
import Stencil.Text.Quoted

/-! The canonical text of an attribute list: an array of names and values in turn, sorted by
name. Lists that differ in their order alone have the same text. -/

namespace Stencil.Attribute

/-- Sorted by name, by code points; attributes of one name keep their order. -/
def sorted (attributes : List Attribute) : List Attribute :=
  attributes.mergeSort fun first second => decide (first.name ≤ second.name)

def items (attributes : List Attribute) : List String :=
  attributes.flatMap fun item => [Text.quoted item.name, Text.quoted item.value]

def canonical (attributes : List Attribute) : String :=
  "[" ++ ", ".intercalate (items (sorted attributes)) ++ "]"

end Stencil.Attribute
