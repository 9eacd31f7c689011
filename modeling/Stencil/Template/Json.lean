import Stencil.Json.Basic
import Stencil.Template.Basic

/-! Templates as JSON values. A node is an object with a single field, named for its kind.
Reading ignores fields it does not know and takes a missing field for null where null is
allowed. Every record but a node's may also be the array of its fields, in the order in which
they are written. -/

namespace Stencil

open Text (Span)

def Text.Span.toJson (span : Span) : Json :=
  .object [("start", .ofNat span.start), ("end", .ofNat span.stop), ("line", .ofNat span.line),
    ("column", .ofNat span.column)]

def Text.Span.ofJson? (json : Json) : Option Span := do
  let fields ← json.record? ["start", "end", "line", "column"]
  let start ← (← fields.lookup "start").nat?
  let stop ← (← fields.lookup "end").nat?
  let line ← (← fields.lookup "line").nat?
  let column ← (← fields.lookup "column").nat?
  return { start, stop, line, column }

def Attribute.toJson (item : Attribute) : Json :=
  .object [("name", .string item.name), ("value", .string item.value)]

def Attribute.ofJson? (json : Json) : Option Attribute := do
  let fields ← json.record? ["name", "value"]
  let name ← (← fields.lookup "name").string?
  let value ← (← fields.lookup "value").string?
  return { name, value }

def LoopSpec.toJson (spec : LoopSpec) : Json :=
  .object [("item_var", .string spec.item), ("key_expr", .ofOption .string spec.key),
    ("iterable_expr", .string spec.iterable)]

def LoopSpec.ofJson? (json : Json) : Option LoopSpec := do
  let fields ← json.record? ["item_var", "key_expr", "iterable_expr"]
  let item ← (← fields.lookup "item_var").string?
  let key ← Json.nullable? Json.string? (fields.lookup "key_expr")
  let iterable ← (← fields.lookup "iterable_expr").string?
  return { item, key, iterable }

def Guard.toJson (guard : Guard) : Json :=
  .object [("content", .string guard.condition), ("span", guard.span.toJson)]

def Guard.ofJson? (json : Json) : Option Guard := do
  let fields ← json.record? ["content", "span"]
  let condition ← (← fields.lookup "content").string?
  let span ← Span.ofJson? (← fields.lookup "span")
  return { condition, span }

mutual

def Node.toJson : Node → Json
  | .element tag attributes children loop guard span =>
    .object [("ElementNode", .object [
      ("tag", .string tag), ("attributes", .array (attributes.map Attribute.toJson)),
      ("children", .array (nodesToJson children)), ("each", .ofOption LoopSpec.toJson loop),
      ("condition", .ofOption Guard.toJson guard), ("span", span.toJson)])]
  | .text content => .object [("TextNode", .object [("content", .string content)])]
  | .loop spec children span =>
    .object [("EachBlock", .object [
      ("spec", spec.toJson), ("children", .array (nodesToJson children)),
      ("span", span.toJson)])]
  | .script code hoisted =>
    .object [("ScriptNode", .object [("code", .string code), ("hoisted", .bool hoisted)])]

def nodesToJson : List Node → List Json
  | [] => []
  | node :: rest => node.toJson :: nodesToJson rest

end

theorem sizeOf_of_lookup {fields : List (String × Json)} {name : String} {json : Json}
    (found : fields.lookup name = some json) : sizeOf json < sizeOf fields := by
  induction fields with
  | nil => simp at found
  | cons field rest ih =>
    obtain ⟨key, value⟩ := field
    simp only [List.lookup_cons] at found
    split at found
    · cases found
      simp only [List.cons.sizeOf_spec, Prod.mk.sizeOf_spec]
      omega
    · have smaller := ih found
      simp only [List.cons.sizeOf_spec]
      omega

theorem sizeOf_of_children {fields : List (String × Json)} {name : String} {items : List Json}
    (found : (fields.lookup name).bind Json.items? = some items) : sizeOf items < sizeOf fields := by
  obtain ⟨json, looked, listed⟩ := Option.bind_eq_some_iff.mp found
  have smaller := sizeOf_of_lookup looked
  cases json <;> simp only [Json.items?, reduceCtorEq, Option.some.injEq] at listed
  subst listed
  simp only [Json.array.sizeOf_spec] at smaller
  omega

mutual

def Node.ofJson? : Json → Option Node
  | .object [(kind, .object fields)] =>
    if kind = "ElementNode" then
      match _found : (fields.lookup "children").bind Json.items? with
      | none => none
      | some items => do
        let tag ← (← fields.lookup "tag").string?
        let attributes ← (← fields.lookup "attributes").listOf? Attribute.ofJson?
        let children ← nodesOfJson? items
        let loop ← Json.nullable? LoopSpec.ofJson? (fields.lookup "each")
        let guard ← Json.nullable? Guard.ofJson? (fields.lookup "condition")
        let span ← Span.ofJson? (← fields.lookup "span")
        return .element tag attributes children loop guard span
    else if kind = "TextNode" then do
      return .text (← (← fields.lookup "content").string?)
    else if kind = "EachBlock" then
      match _found : (fields.lookup "children").bind Json.items? with
      | none => none
      | some items => do
        let spec ← LoopSpec.ofJson? (← fields.lookup "spec")
        let children ← nodesOfJson? items
        let span ← Span.ofJson? (← fields.lookup "span")
        return .loop spec children span
    else if kind = "ScriptNode" then do
      let code ← (← fields.lookup "code").string?
      let hoisted ← (← fields.lookup "hoisted").bool?
      return .script code hoisted
    else none
  | _ => none
termination_by json => sizeOf json
decreasing_by
  all_goals
    have smaller := sizeOf_of_children _found
    simp only [Json.object.sizeOf_spec, List.cons.sizeOf_spec, Prod.mk.sizeOf_spec]
    omega

def nodesOfJson? : List Json → Option (List Node)
  | [] => some []
  | json :: rest => do
    let node ← Node.ofJson? json
    let later ← nodesOfJson? rest
    return node :: later
termination_by items => sizeOf items

end

def Template.toJson (template : Template) : Json :=
  .object [("body", .array (nodesToJson template.body)), ("path", .ofOption .string template.path)]

def Template.ofJson? (json : Json) : Option Template := do
  let fields ← json.record? ["body", "path"]
  let body ← nodesOfJson? (← (← fields.lookup "body").items?)
  let path ← Json.nullable? Json.string? (fields.lookup "path")
  return { body, path }

end Stencil
