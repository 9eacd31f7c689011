import Mathlib
import Stencil.Proofs.IndentedLines
import Stencil.Session

/-! The hoist table through a session. Declarations are only ever added, each under a number of
its own, so an identifier stands for one text in a table and in all that grow out of it. -/

namespace Stencil.Proofs.HoistInvariant
open HoistTable IndentedLines

/-- A text keeps its identifier if it has one, and is declared behind the others if not. -/
theorem addStatics_cases (table : HoistTable) (text : String) :
    (∃ declared ∈ table.statics, declared.text = text ∧ table.addStatics text = (declared.identifier, table)) ∨
    text ∉ table.statics.map Hoisted.text ∧
      table.addStatics text = (identifierAt (table.count + 1),
        { table with
          statics := table.statics ++ [⟨identifierAt (table.count + 1), text⟩]
          count := table.count + 1 }) := by
  unfold addStatics
  split
  next declared found =>
    have same : declared.text = text := by simpa using List.find?_some found
    exact Or.inl ⟨declared, List.mem_of_find?_eq_some found, same, rfl⟩
  next missing =>
    refine Or.inr ⟨?_, rfl⟩
    intro member
    obtain ⟨declared, inside, same⟩ := List.mem_map.mp member
    have differs := List.find?_eq_none.mp missing declared inside
    simp [same] at differs

theorem addStatics_declared (table : HoistTable) (text : String) :
    ⟨(table.addStatics text).1, text⟩ ∈ (table.addStatics text).2.statics := by
  rcases addStatics_cases table text with ⟨declared, member, same, result⟩ | ⟨_, result⟩
  · rw [result, ← same]
    exact member
  · rw [result]
    simp

/-- What holds of a table and stays true while something is added holds after any generation. -/
structure Kept (holds : HoistTable → Prop) : Prop where
  statics : ∀ table text, holds table → holds (table.addStatics text).2
  literal : ∀ table text, holds table → holds (table.addLiteral text)

namespace Kept

variable {holds : HoistTable → Prop}

theorem attributes (kept : Kept holds) {table : HoistTable} (attributes : List Attribute) (before : holds table) :
    holds (hoistAttributes table attributes).2 := by
  unfold hoistAttributes
  split
  · exact before
  · exact kept.statics _ _ before

mutual

theorem lines (kept : Kept holds) (node : Node) {token : String} {depth : Nat} {key : Option Key}
    {table : HoistTable} (before : holds table) : holds (node.lines token depth key table).2 := by
  match node with
  | .text content => exact before
  | .script code hoisted =>
    unfold Node.lines
    split
    · exact kept.literal _ _ before
    · exact before
  | .loop spec children span =>
    unfold Node.lines
    exact kept.children children before
  | .element tag attributes children loop guard span =>
    have hoisted := kept.attributes attributes before
    unfold Node.lines
    cases loop with
    | none => exact kept.forest children hoisted
    | some spec => exact kept.forest children hoisted
termination_by structural node

theorem forest (kept : Kept holds) (nodes : List Node) {token : String} {depth : Nat} {table : HoistTable}
    (before : holds table) : holds (forestLines token depth table nodes).2 := by
  match nodes with
  | [] => exact before
  | node :: rest => exact kept.forest rest (kept.lines node before)
termination_by structural nodes

theorem children (kept : Kept holds) (nodes : List Node) {token : String} {depth count ordinal : Nat}
    {table : HoistTable} (before : holds table) : holds (childLines token depth count ordinal table nodes).2 := by
  match nodes with
  | [] => exact before
  | node :: rest => exact kept.children rest (kept.lines node before)
termination_by structural nodes

end

theorem generate (kept : Kept holds) (token : String) {table : HoistTable} (forest : List Node) (before : holds table) :
    holds (Stencil.generate token table forest).2 := by
  rw [generate_lines]
  exact kept.forest forest before

theorem compileForest (kept : Kept holds) (token : String) {table : HoistTable} (forest : List Node)
    (functionName dataParam : String) (before : holds table) :
    holds (Stencil.compileForest token table forest functionName dataParam).2 :=
  kept.literal _ _ (kept.generate token forest before)

end Kept

theorem grows (base : HoistTable) : Kept fun table => base.statics <+: table.statics := by
  constructor
  · intro table text before
    rcases addStatics_cases table text with ⟨declared, _, _, result⟩ | ⟨_, result⟩
    · rw [result]
      exact before
    · rw [result]
      exact before.trans (List.prefix_append _ _)
  · exact fun table text before => before

theorem literals_grow (base : HoistTable) : Kept fun table => base.literals <+: table.literals := by
  constructor
  · intro table text before
    rcases addStatics_cases table text with ⟨declared, _, _, result⟩ | ⟨_, result⟩
    · rw [result]
      exact before
    · rw [result]
      exact before
  · exact fun table text before => before.trans (List.prefix_append _ _)

theorem forestLines_grows {token : String} {depth : Nat} {table : HoistTable} (nodes : List Node) :
    table.statics <+: (forestLines token depth table nodes).2.statics :=
  (grows table).forest nodes (List.prefix_refl _)

theorem childLines_grows {token : String} {depth count ordinal : Nat} {table : HoistTable} (nodes : List Node) :
    table.statics <+: (childLines token depth count ordinal table nodes).2.statics :=
  (grows table).children nodes (List.prefix_refl _)

/-- An element finds what it has declared in the table behind it. -/
theorem hoistAttributes_grows {token tag : String} {depth : Nat} {key : Option Key} {table : HoistTable}
    {attributes : List Attribute} {children : List Node} {loop : Option LoopSpec} {guard : Option Guard}
    {span : Text.Span} :
    (hoistAttributes table attributes).2.statics <+:
      ((Node.element tag attributes children loop guard span).lines token depth key table).2.statics := by
  cases loop with
  | none => exact forestLines_grows children
  | some spec => exact forestLines_grows children

theorem hoistAttributes_declared {table : HoistTable} {attributes : List Attribute} {identifier : String}
    (hoisted : identifier ∈ (hoistAttributes table attributes).1) :
    ⟨identifier, Attribute.canonical attributes⟩ ∈ (hoistAttributes table attributes).2.statics := by
  cases attributes with
  | nil => cases hoisted
  | cons item rest =>
    cases hoisted
    exact addStatics_declared table _

/-- The counter has counted the declarations, these are numbered in order, and no text is declared twice. -/
structure Numbered (table : HoistTable) : Prop where
  counted : table.count = table.size
  identifiers : table.statics.map Hoisted.identifier =
    (List.range table.size).map fun index => identifierAt (index + 1)
  texts : (table.statics.map Hoisted.text).Nodup

theorem numbered_empty : Numbered .empty := ⟨rfl, rfl, .nil⟩

theorem numbered_clear (table : HoistTable) : Numbered table.clear := ⟨rfl, rfl, .nil⟩

theorem numbered_kept : Kept Numbered := by
  constructor
  · intro table text before
    rcases addStatics_cases table text with ⟨declared, _, _, result⟩ | ⟨fresh, result⟩
    · rw [result]
      exact before
    · rw [result]
      constructor
      · simp [size, before.counted]
      · simp [size, List.range_succ, before.identifiers, before.counted]
      · simp only [List.map_append, List.map_cons, List.map_nil, List.nodup_append]
        refine ⟨before.texts, by simp, ?_⟩
        intro known member other singleton same
        rw [List.mem_singleton.mp singleton] at same
        exact fresh (same ▸ member)
  · exact fun table text before => ⟨before.counted, before.identifiers, before.texts⟩

theorem identifierAt_injective {first second : Nat} (same : identifierAt first = identifierAt second) :
    first = second := by
  have digits : Nat.toDigits 10 first = Nat.toDigits 10 second := by
    simpa [identifierAt, Nat.repr] using congrArg String.toList same
  rw [← @Nat.ofDigitChars_ten_toDigits first, ← @Nat.ofDigitChars_ten_toDigits second, digits]

theorem Numbered.distinct {table : HoistTable} (numbered : Numbered table) :
    (table.statics.map Hoisted.identifier).Nodup := by
  rw [numbered.identifiers]
  refine List.Pairwise.map _ ?_ List.nodup_range
  intro index later differs same
  have equal := identifierAt_injective same
  omega

/-- One identifier stands for one text. -/
theorem Numbered.text_unique {table : HoistTable} (numbered : Numbered table) {identifier first second : String}
    (one : ⟨identifier, first⟩ ∈ table.statics) (other : ⟨identifier, second⟩ ∈ table.statics) : first = second := by
  have injective := List.inj_on_of_nodup_map numbered.distinct one other rfl
  exact congrArg Hoisted.text injective

theorem Numbered.number_exists {table : HoistTable} (numbered : Numbered table) {hoisted : Hoisted}
    (member : hoisted ∈ table.statics) : ∃ number, hoisted.identifier = identifierAt number := by
  have named : hoisted.identifier ∈ table.statics.map Hoisted.identifier := List.mem_map_of_mem member
  rw [numbered.identifiers] at named
  obtain ⟨index, _, same⟩ := List.mem_map.mp named
  exact ⟨index + 1, same.symm⟩

/-- Only a step that clears the table takes anything away. -/
theorem Kept.run {holds : HoistTable → Prop} (kept : Kept holds) {session : Session} {step : Step}
    (uncleared : step ≠ .clear) (before : holds session.table) : holds (session.run step).2.table := by
  cases step with
  | addStatics text => exact kept.statics _ _ before
  | addLiteral text => exact kept.literal _ _ before
  | clear => exact absurd rfl uncleared
  | generate forest => exact kept.generate _ forest before
  | compile forest functionName dataParam => exact kept.compileForest _ forest functionName dataParam before
  | assemble statements functionName dataParam => exact before

theorem run_numbered {session : Session} (numbered : Numbered session.table) (step : Step) :
    Numbered (session.run step).2.table := by
  by_cases cleared : step = .clear
  · subst cleared
    exact numbered_clear session.table
  · exact numbered_kept.run cleared numbered

/-- The session after these steps. -/
def after (session : Session) (steps : List Step) : Session :=
  steps.foldl (fun session step => (session.run step).2) session

/-- Tables that a session can have, whatever has been done in it. -/
def Reachable (table : HoistTable) : Prop := ∃ token steps, (after (.start token) steps).table = table

theorem after_numbered {session : Session} (numbered : Numbered session.table) (steps : List Step) :
    Numbered (after session steps).table := by
  induction steps generalizing session with
  | nil => exact numbered
  | cons step steps ih => exact ih (run_numbered numbered step)

theorem Reachable.numbered {table : HoistTable} (reachable : Reachable table) : Numbered table := by
  obtain ⟨token, steps, rfl⟩ := reachable
  exact after_numbered numbered_empty steps

end Stencil.Proofs.HoistInvariant
