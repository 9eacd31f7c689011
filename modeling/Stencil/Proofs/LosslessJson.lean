import Stencil.Template.Json

/-! Templates are told apart by their JSON values. The order of the fields of an object does not
count there and null fields may be left out, so a template has many values that it is read from, and
no two templates share one of them. -/

namespace Stencil.Proofs.LosslessJson
open Text (Span)

mutual

/-- The second value is the first one with the fields of its objects in any order, null fields
there or left out. -/
inductive Respells : Json → Json → Prop where
  | null : Respells .null .null
  | bool (value : Bool) : Respells (.bool value) (.bool value)
  | number (digits : Int) (places : Nat) : Respells (.number digits places) (.number digits places)
  | string (text : String) : Respells (.string text) (.string text)
  | array {items others} (each : RespellsAll items others) : Respells (.array items) (.array others)
  | object {fields kept others} (each : RespellsFields fields kept) (order : List.Perm kept others) :
      Respells (.object fields) (.object others)

inductive RespellsAll : List Json → List Json → Prop where
  | nil : RespellsAll [] []
  | cons {item other items others} (first : Respells item other) (rest : RespellsAll items others) :
      RespellsAll (item :: items) (other :: others)

inductive RespellsFields : List (String × Json) → List (String × Json) → Prop where
  | nil : RespellsFields [] []
  | kept {name json other fields kept} (value : Respells json other) (rest : RespellsFields fields kept) :
      RespellsFields ((name, json) :: fields) ((name, other) :: kept)
  | leftOut {name fields kept} (rest : RespellsFields fields kept) : RespellsFields ((name, .null) :: fields) kept

end

mutual

private theorem respells_refl (json : Json) : Respells json json := by
  match json with
  | .null => exact .null
  | .bool value => exact .bool value
  | .number digits places => exact .number digits places
  | .string text => exact .string text
  | .array items => exact .array (respellsAll_refl items)
  | .object fields => exact .object (respellsFields_refl fields) (.refl fields)
termination_by structural json

private theorem respellsAll_refl (items : List Json) : RespellsAll items items := by
  match items with
  | [] => exact .nil
  | item :: rest => exact .cons (respells_refl item) (respellsAll_refl rest)
termination_by structural items

private theorem respellsFields_refl (fields : List (String × Json)) : RespellsFields fields fields := by
  match fields with
  | [] => exact .nil
  | (name, json) :: rest => exact .kept (respells_refl json) (respellsFields_refl rest)
termination_by structural fields

end

private theorem lookup_of_mem {fields : List (String × Json)} (distinct : (fields.map Prod.fst).Nodup)
    {name : String} {json : Json} (member : (name, json) ∈ fields) : fields.lookup name = some json := by
  induction fields with
  | nil => cases member
  | cons field fields ih =>
    obtain ⟨key, value⟩ := field
    obtain ⟨absent, others⟩ := List.nodup_cons.mp distinct
    rcases List.mem_cons.mp member with same | later
    · cases same
      exact List.lookup_cons_self
    · have different : name ≠ key := by
        intro same
        exact absent (List.mem_map.mpr ⟨(name, json), later, same⟩)
      simpa only [List.lookup_cons, beq_eq_false_iff_ne.mpr different] using ih others later

private theorem lookup_of_absent {fields : List (String × Json)} {name : String}
    (absent : name ∉ fields.map Prod.fst) : fields.lookup name = none := by
  apply List.lookup_eq_none_iff.mpr
  intro field member
  have different : name ≠ field.1 := fun same => absent (List.mem_map.mpr ⟨field, member, same.symm⟩)
  simpa using different

private theorem RespellsFields.names {fields kept : List (String × Json)} (each : RespellsFields fields kept) :
    (kept.map Prod.fst).Sublist (fields.map Prod.fst) := by
  induction fields generalizing kept with
  | nil =>
    cases each
    exact .slnil
  | cons field fields ih =>
    cases each with
    | kept _ rest => exact (ih rest).cons_cons _
    | leftOut rest => exact (ih rest).cons _

/-- A field is kept with its value respelled, or null and left out. -/
private theorem RespellsFields.field {fields kept : List (String × Json)} (each : RespellsFields fields kept)
    (distinct : (fields.map Prod.fst).Nodup) {name : String} {json : Json} (member : (name, json) ∈ fields) :
    (∃ other, (name, other) ∈ kept ∧ Respells json other) ∨ json = .null ∧ name ∉ kept.map Prod.fst := by
  induction fields generalizing kept with
  | nil => cases member
  | cons field fields ih =>
    obtain ⟨absent, others⟩ := List.nodup_cons.mp distinct
    have behind {own : Json} (later : (name, own) ∈ fields) : name ≠ field.1 := by
      intro same
      exact absent (List.mem_map.mpr ⟨(name, own), later, same⟩)
    cases each with
    | kept value rest =>
      rcases List.mem_cons.mp member with same | later
      · cases same
        exact .inl ⟨_, List.mem_cons_self .., value⟩
      · rcases ih rest others later with ⟨other, inside, respelled⟩ | ⟨isNull, missing⟩
        · exact .inl ⟨other, List.mem_cons_of_mem _ inside, respelled⟩
        · exact .inr ⟨isNull, by simpa using ⟨behind later, by simpa using missing⟩⟩
    | leftOut rest =>
      rcases List.mem_cons.mp member with same | later
      · cases same
        exact .inr ⟨rfl, fun inside => absent (rest.names.subset inside)⟩
      · exact ih rest others later

/-- Every field of an object is found in what the object is respelled as, unless it is null. -/
private def Held (fields others : List (String × Json)) : Prop :=
  ∀ name json, (name, json) ∈ fields →
    (∃ other, others.lookup name = some other ∧ Respells json other) ∨ json = .null ∧ others.lookup name = none

private theorem respells_object {fields : List (String × Json)} {json : Json} (respelled : Respells (.object fields) json)
    (distinct : (fields.map Prod.fst).Nodup) : ∃ others, json = .object others ∧ Held fields others := by
  cases respelled with
  | @object _ kept others each order =>
    have keptOnce : (kept.map Prod.fst).Nodup := distinct.sublist each.names
    have once : (others.map Prod.fst).Nodup := (order.map Prod.fst).nodup keptOnce
    refine ⟨others, rfl, ?_⟩
    intro name json member
    rcases each.field distinct member with ⟨other, inside, value⟩ | ⟨isNull, missing⟩
    · exact .inl ⟨other, lookup_of_mem once (order.subset inside), value⟩
    · refine .inr ⟨isNull, lookup_of_absent ?_⟩
      intro inside
      exact missing ((order.map Prod.fst).symm.subset inside)

/-- Reading gives this result, however the value is spelled. -/
private def Reads {α : Type} (decode : Json → Option α) (json : Json) (result : α) : Prop :=
  ∀ other, Respells json other → decode other = some result

private theorem reads_string (text : String) : Reads Json.string? (.string text) text := by
  intro other respelled
  cases respelled
  rfl

private theorem reads_bool (value : Bool) : Reads Json.bool? (.bool value) value := by
  intro other respelled
  cases respelled
  rfl

private theorem reads_nat (value : Nat) : Reads Json.nat? (.ofNat value) value := by
  intro other respelled
  cases respelled
  rfl

private theorem Held.required {fields others : List (String × Json)} (held : Held fields others) {α : Type}
    {decode : Json → Option α} (name : String) {json : Json} {result : α}
    (reads : Reads decode json result) (present : json ≠ .null) (member : (name, json) ∈ fields) :
    ∃ other, others.lookup name = some other ∧ decode other = some result := by
  rcases held name json member with ⟨other, found, respelled⟩ | ⟨isNull, _⟩
  · exact ⟨other, found, reads other respelled⟩
  · exact absurd isNull present

private theorem Held.nullable {fields others : List (String × Json)} (held : Held fields others) {α : Type}
    {encode : α → Json} {decode : Json → Option α} (name : String) {value : Option α}
    (reads : ∀ own, Reads decode (encode own) own) (present : ∀ own, encode own ≠ .null)
    (member : (name, .ofOption encode value) ∈ fields) : Json.nullable? decode (others.lookup name) = some value := by
  rcases held name _ member with ⟨other, found, respelled⟩ | ⟨isNull, missing⟩
  · rw [found]
    cases value with
    | none =>
      cases respelled
      rfl
    | some own =>
      have read := reads own other respelled
      change Respells (encode own) other at respelled
      cases other with
      | null =>
        generalize same : encode own = json at respelled
        cases respelled
        exact absurd same (present own)
      | _ => simp [Json.nullable?, read]
  · rw [missing]
    cases value with
    | none => rfl
    | some own => exact absurd isNull (present own)

private theorem reads_list {α : Type} {encode : α → Json} {decode : Json → Option α}
    (reads : ∀ item, Reads decode (encode item) item) (items : List α) :
    Reads (Json.listOf? decode) (.array (items.map encode)) items := by
  intro other respelled
  cases respelled with
  | @array _ others each =>
    change others.mapM decode = some items
    induction items generalizing others with
    | nil =>
      cases each
      rfl
    | cons item items ih =>
      cases each with
      | cons first rest =>
        rw [List.mapM_cons, reads item _ first, ih rest]
        rfl

private theorem reads_span (span : Span) : Reads Span.ofJson? span.toJson span := by
  intro other respelled
  obtain ⟨others, rfl, held⟩ := respells_object respelled (by simp)
  obtain ⟨_, start, readStart⟩ := held.required "start" (reads_nat span.start) nofun (by simp)
  obtain ⟨_, stop, readStop⟩ := held.required "end" (reads_nat span.stop) nofun (by simp)
  obtain ⟨_, line, readLine⟩ := held.required "line" (reads_nat span.line) nofun (by simp)
  obtain ⟨_, column, readColumn⟩ := held.required "column" (reads_nat span.column) nofun (by simp)
  simp [Span.ofJson?, Json.record?, start, readStart, stop, readStop, line, readLine, column, readColumn]

private theorem reads_attribute (item : Attribute) : Reads Attribute.ofJson? item.toJson item := by
  intro other respelled
  obtain ⟨others, rfl, held⟩ := respells_object respelled (by simp)
  obtain ⟨_, name, readName⟩ := held.required "name" (reads_string item.name) nofun (by simp)
  obtain ⟨_, value, readValue⟩ := held.required "value" (reads_string item.value) nofun (by simp)
  simp [Attribute.ofJson?, Json.record?, name, readName, value, readValue]

private theorem reads_loopSpec (spec : LoopSpec) : Reads LoopSpec.ofJson? spec.toJson spec := by
  intro other respelled
  obtain ⟨others, rfl, held⟩ := respells_object respelled (by simp)
  obtain ⟨_, item, readItem⟩ := held.required "item_var" (reads_string spec.item) nofun (by simp)
  have key : Json.nullable? Json.string? (others.lookup "key_expr") = some spec.key :=
    held.nullable "key_expr" reads_string nofun (by simp)
  obtain ⟨_, iterable, readIterable⟩ := held.required "iterable_expr" (reads_string spec.iterable) nofun (by simp)
  simp [LoopSpec.ofJson?, Json.record?, item, readItem, key, iterable, readIterable]

private theorem reads_guard (guard : Guard) : Reads Guard.ofJson? guard.toJson guard := by
  intro other respelled
  obtain ⟨others, rfl, held⟩ := respells_object respelled (by simp)
  obtain ⟨_, condition, readCondition⟩ := held.required "content" (reads_string guard.condition) nofun (by simp)
  obtain ⟨_, span, readSpan⟩ := held.required "span" (reads_span guard.span) nofun (by simp)
  simp [Guard.ofJson?, Json.record?, condition, readCondition, span, readSpan]

/-- A node is an object with one field, which is not left out. -/
private theorem respells_kind {kind : String} {fields : List (String × Json)} {json : Json}
    (respelled : Respells (.object [(kind, .object fields)]) json) (distinct : (fields.map Prod.fst).Nodup) :
    ∃ others, json = .object [(kind, .object others)] ∧ Held fields others := by
  cases respelled with
  | object each order =>
    cases each with
    | kept value rest =>
      cases rest
      obtain ⟨others, rfl, held⟩ := respells_object value distinct
      cases List.singleton_perm.mp order
      exact ⟨others, rfl, held⟩

private theorem Held.array {fields others : List (String × Json)} (held : Held fields others) (name : String)
    {items : List Json} (member : (name, .array items) ∈ fields) :
    ∃ found, others.lookup name = some (.array found) ∧ RespellsAll items found := by
  rcases held name _ member with ⟨other, looked, respelled⟩ | ⟨isNull, _⟩
  · cases respelled with
    | @array _ found each => exact ⟨found, looked, each⟩
  · cases isNull

mutual

private theorem reads_node (node : Node) : Reads Node.ofJson? node.toJson node := by
  intro other respelled
  match node with
  | .text content =>
    obtain ⟨others, rfl, held⟩ := respells_kind respelled (by simp)
    obtain ⟨_, text, readText⟩ := held.required "content" (reads_string content) nofun (by simp)
    simp [Node.ofJson?, text, readText]
  | .script code hoisted =>
    obtain ⟨others, rfl, held⟩ := respells_kind respelled (by simp)
    obtain ⟨_, body, readBody⟩ := held.required "code" (reads_string code) nofun (by simp)
    obtain ⟨_, lifted, readLifted⟩ := held.required "hoisted" (reads_bool hoisted) nofun (by simp)
    simp [Node.ofJson?, body, readBody, lifted, readLifted]
  | .loop spec children span =>
    obtain ⟨others, rfl, held⟩ := respells_kind respelled (by simp)
    obtain ⟨items, found, each⟩ : ∃ items, others.lookup "children" = some (.array items) ∧
        RespellsAll (nodesToJson children) items := held.array "children" (by simp)
    obtain ⟨_, loop, readLoop⟩ := held.required "spec" (reads_loopSpec spec) nofun (by simp)
    obtain ⟨_, place, readPlace⟩ := held.required "span" (reads_span span) nofun (by simp)
    have inside := reads_nodes children items each
    simp only [Node.ofJson?, String.reduceEq, if_false, if_true]
    split
    next missing => simp [found, Json.items?] at missing
    next same =>
      simp only [found, Option.bind_some, Json.items?, Option.some.injEq] at same
      subst same
      simp [loop, readLoop, place, readPlace, inside]
  | .element tag attributes children loop guard span =>
    obtain ⟨others, rfl, held⟩ := respells_kind respelled (by simp)
    obtain ⟨items, found, each⟩ : ∃ items, others.lookup "children" = some (.array items) ∧
        RespellsAll (nodesToJson children) items := held.array "children" (by simp)
    obtain ⟨_, name, readName⟩ := held.required "tag" (reads_string tag) nofun (by simp)
    obtain ⟨_, list, readList⟩ := held.required "attributes" (reads_list reads_attribute attributes) nofun (by simp)
    have spec : Json.nullable? LoopSpec.ofJson? (others.lookup "each") = some loop :=
      held.nullable "each" reads_loopSpec nofun (by simp)
    have condition : Json.nullable? Guard.ofJson? (others.lookup "condition") = some guard :=
      held.nullable "condition" reads_guard nofun (by simp)
    obtain ⟨_, place, readPlace⟩ := held.required "span" (reads_span span) nofun (by simp)
    have inside := reads_nodes children items each
    simp only [Node.ofJson?, if_true]
    split
    next missing => simp [found, Json.items?] at missing
    next same =>
      simp only [found, Option.bind_some, Json.items?, Option.some.injEq] at same
      subst same
      simp [name, readName, list, readList, spec, condition, place, readPlace, inside]
termination_by structural node

private theorem reads_nodes (nodes : List Node) (items : List Json) (each : RespellsAll (nodesToJson nodes) items) :
    nodesOfJson? items = some nodes := by
  match nodes with
  | [] =>
    cases each
    rw [nodesOfJson?]
  | node :: rest =>
    cases each with
    | cons first later =>
      rw [nodesOfJson?, reads_node node _ first, reads_nodes rest _ later]
      rfl
termination_by structural nodes

end

private theorem reads_template (template : Template) : Reads Template.ofJson? template.toJson template := by
  intro other respelled
  obtain ⟨others, rfl, held⟩ := respells_object respelled (by simp)
  have path : Json.nullable? Json.string? (others.lookup "path") = some template.path :=
    held.nullable "path" reads_string nofun (by simp)
  obtain ⟨items, found, each⟩ : ∃ items, others.lookup "body" = some (.array items) ∧
      RespellsAll (nodesToJson template.body) items := held.array "body" (by simp)
  simp [Template.ofJson?, Json.record?, found, Json.items?, reads_nodes template.body items each, path]

/-- A template is read from the value that it is written as, and no other template is written as that value.
Both hold of every spelling of the value. -/
theorem toJson_lossless (template : Template) :
    Template.ofJson? template.toJson = some template ∧
      (∀ other, template.toJson = Template.toJson other → template = other) ∧
      (∀ json, Respells template.toJson json → Template.ofJson? json = some template) ∧
      ∀ other json, Respells template.toJson json → Respells (Template.toJson other) json → template = other := by
  have shared (other : Template) (json : Json) (one : Respells template.toJson json)
      (second : Respells other.toJson json) : template = other := by
    have read := (reads_template template json one).symm.trans (reads_template other json second)
    exact Option.some.inj read
  refine ⟨reads_template template _ (respells_refl _), ?_, reads_template template, shared⟩
  intro other same
  exact shared other _ (respells_refl _) (same ▸ respells_refl _)

def greetingLoop : Node := .loop ⟨"x", none, "xs"⟩ [.text "hi"] ⟨0, 9, 1, 1⟩

/-- The loop without its null field, and with other fields in another order. -/
def greetingLoopJson : Json :=
  .object [("EachBlock", .object [
    ("children", .array [.object [("TextNode", .object [("content", .string "hi")])]]),
    ("spec", .object [("iterable_expr", .string "xs"), ("item_var", .string "x")]),
    ("span", .object [("start", .ofNat 0), ("end", .ofNat 9), ("line", .ofNat 1), ("column", .ofNat 1)])])]

theorem toJson_lossless_greeting :
    Respells (Template.toJson ⟨[greetingLoop], none⟩) (.object [("body", .array [greetingLoopJson])]) ∧
      Template.ofJson? (.object [("body", .array [greetingLoopJson])]) = some ⟨[greetingLoop], none⟩ ∧
      ∀ other, Respells (Template.toJson other) (.object [("body", .array [greetingLoopJson])]) →
        ⟨[greetingLoop], none⟩ = other := by
  have spec : Respells (LoopSpec.toJson ⟨"x", none, "xs"⟩)
      (.object [("iterable_expr", .string "xs"), ("item_var", .string "x")]) :=
    .object (.kept (.string "x") (.leftOut (.kept (.string "xs") .nil))) (.swap ..)
  have loop : Respells greetingLoop.toJson greetingLoopJson :=
    .object (.kept (.object (.kept spec (respellsFields_refl _)) (.swap ..)) .nil) (.refl _)
  have respelled : Respells (Template.toJson ⟨[greetingLoop], none⟩) (.object [("body", .array [greetingLoopJson])]) :=
    .object (.kept (.array (.cons loop .nil)) (.leftOut .nil)) (.refl _)
  obtain ⟨_, _, reads, shared⟩ := toJson_lossless ⟨[greetingLoop], none⟩
  exact ⟨respelled, reads _ respelled, fun other second => shared other _ respelled second⟩

end Stencil.Proofs.LosslessJson
