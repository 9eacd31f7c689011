import Stencil.Render.Generate

/-! The lines of a forest, each with its depth. The printer of the generator reaches the depth of a line
by raising and lowering its level, which it never has to lower from zero. -/

namespace Stencil

/-- Lines run under a condition, with the lines already indented for it. -/
def guarded (depth : Nat) (guard : Option Guard) (body : List Line) : List Line :=
  match guard with
  | none => body
  | some guard =>
    ⟨depth, .openGuard guard.condition⟩ :: body ++ [⟨depth, .closeGuard⟩]

/-- Lines run for every item, with the lines already indented for it. -/
def looped (token : String) (depth : Nat) (spec : LoopSpec) (body : List Line) : List Line :=
  ⟨depth, .setTarget spec.iterable⟩ ::
  ⟨depth, .openGuard targetName⟩ ::
  ⟨depth + 1, .openLoop⟩ ::
  ⟨depth + 2, .bindItem spec.item⟩ ::
  ⟨depth + 2, .bindKey token spec.key⟩ ::
  body ++ [⟨depth + 1, .closeLoop⟩, ⟨depth, .closeGuard⟩]

mutual

/-- The lines of one node at a depth. -/
def Node.lines (token : String) (depth : Nat) (key : Option Key) (table : HoistTable) :
    Node → List Line × HoistTable
  | .text content => ([⟨depth, .text content⟩], table)
  | .script code hoisted =>
    if hoisted then ([], table.addLiteral code) else ([⟨depth, .script code⟩], table)
  | .loop spec children _ =>
    let (body, table) := childLines token (depth + 2) children.length 1 table children
    (looped token depth spec body, table)
  | .element tag attributes children loop guard _ =>
    let outer := match loop with
      | none => depth
      | some _ => depth + 2
    let inner := match guard with
      | none => outer
      | some _ => outer + 1
    let key := match loop with
      | none => key
      | some _ => some .iteration
    let (statics, table) := hoistAttributes table attributes
    let (body, table) := forestLines token (inner + 1) table children
    let lines := guarded outer guard
      (⟨inner, .openElement tag (keyArgument token key attributes) statics⟩ :: body ++
        [⟨inner, .closeElement tag⟩])
    match loop with
    | none => (lines, table)
    | some spec => (looped token depth spec lines, table)

def forestLines (token : String) (depth : Nat) (table : HoistTable) :
    List Node → List Line × HoistTable
  | [] => ([], table)
  | node :: rest =>
    let (first, table) := node.lines token depth none table
    let (later, table) := forestLines token depth table rest
    (first ++ later, table)

def childLines (token : String) (depth count ordinal : Nat) (table : HoistTable) :
    List Node → List Line × HoistTable
  | [] => ([], table)
  | node :: rest =>
    let (first, table) := node.lines token depth (some (.ofChild count ordinal)) table
    let (later, table) := childLines token depth count (ordinal + 1) table rest
    (first ++ later, table)

end

namespace Proofs.IndentedLines

/-- Actions that lead from one level to another, write these lines, and lower no level from zero. -/
inductive Prints : Nat → List Action → List Line → Nat → Prop where
  | nil (level : Nat) : Prints level [] [] level
  | write {level last : Nat} {actions : List Action} {lines : List Line} (statement : Statement)
      (later : Prints level actions lines last) :
      Prints level (.write statement :: actions) (⟨level, statement⟩ :: lines) last
  | indent {level last : Nat} {actions : List Action} {lines : List Line}
      (later : Prints (level + 1) actions lines last) : Prints level (.indent :: actions) lines last
  | dedent {level last : Nat} {actions : List Action} {lines : List Line} (later : Prints level actions lines last) :
      Prints (level + 1) (.dedent :: actions) lines last

namespace Prints

theorem append {level between last : Nat} {first second : List Action} {lines more : List Line}
    (one : Prints level first lines between) (other : Prints between second more last) :
    Prints level (first ++ second) (lines ++ more) last := by
  induction one with
  | nil level => exact other
  | write statement _ ih => exact .write statement (ih other)
  | indent _ ih => exact .indent (ih other)
  | dedent _ ih => exact .dedent (ih other)

/-- A statement in front, lines at the next level, and a statement behind them. -/
theorem block {level : Nat} {body : List Action} {lines : List Line} (opening closing : Statement)
    (inside : Prints (level + 1) body lines (level + 1)) :
    Prints level (.write opening :: .indent :: body ++ [.dedent, .write closing])
      (⟨level, opening⟩ :: lines ++ [⟨level, closing⟩]) level := by
  have closed : Prints (level + 1) [.dedent, .write closing] [⟨level, closing⟩] level :=
    .dedent (.write closing (.nil level))
  exact .write opening (.indent (inside.append closed))

private theorem dedent_raised (before : Array Line) (level : Nat) :
    Printer.perform ⟨before, level + 1⟩ .dedent = ⟨before, level⟩ := by
  simp [Printer.perform, Printer.dedent]

theorem run {level last : Nat} {actions : List Action} {lines : List Line} (prints : Prints level actions lines last)
    (before : Array Line) : Printer.run ⟨before, level⟩ actions = ⟨before ++ lines.toArray, last⟩ := by
  induction prints generalizing before with
  | nil level => simp [Printer.run]
  | @write level last actions lines statement _ ih =>
    have rest := ih (before.push ⟨level, statement⟩)
    simp only [← Array.append_singleton, Array.append_assoc] at rest
    simpa [Printer.run, Printer.perform, Printer.write] using rest
  | indent _ ih => exact ih before
  | @dedent level last actions lines _ ih =>
    rw [Printer.run, List.foldl_cons, dedent_raised]
    exact ih before

theorem raised {level last : Nat} {front behind : List Action} {lines : List Line}
    (prints : Prints level (front ++ .dedent :: behind) lines last) (before : Array Line) :
    0 < (Printer.run ⟨before, level⟩ front).level := by
  induction front generalizing level lines before with
  | nil =>
    cases prints with
    | dedent _ => exact Nat.succ_pos _
  | cons action front ih =>
    cases prints with
    | write statement later => exact ih later _
    | indent later => exact ih later before
    | @dedent level _ _ _ later =>
      rw [Printer.run, List.foldl_cons, dedent_raised]
      exact ih later before

end Prints

theorem underGuard_prints {depth : Nat} {guard : Option Guard} {body : List Action} {lines : List Line}
    (inside : Prints (match guard with | none => depth | some _ => depth + 1) body lines
      (match guard with | none => depth | some _ => depth + 1)) :
    Prints depth (underGuard guard body) (guarded depth guard lines) depth := by
  cases guard with
  | none => exact inside
  | some guard => exact inside.block (.openGuard guard.condition) .closeGuard

theorem overItems_prints (token : String) {depth : Nat} (spec : LoopSpec) {body : List Action} {lines : List Line}
    (inside : Prints (depth + 2) body lines (depth + 2)) :
    Prints depth (overItems token spec body) (looped token depth spec lines) depth := by
  have bound : Prints (depth + 2) (.write (.bindItem spec.item) :: .write (.bindKey token spec.key) :: body)
      (⟨depth + 2, .bindItem spec.item⟩ :: ⟨depth + 2, .bindKey token spec.key⟩ :: lines) (depth + 2) :=
    .write _ (.write _ inside)
  have items := (bound.block .openLoop .closeLoop).block (.openGuard targetName) .closeGuard
  have whole := Prints.write (.setTarget spec.iterable) items
  simpa [overItems, looped] using whole

/-- Actions and lines of the same nodes, and the tables behind them. -/
def Agrees (depth : Nat) (acted : List Action × HoistTable) (written : List Line × HoistTable) : Prop :=
  Prints depth acted.1 written.1 depth ∧ acted.2 = written.2

mutual

theorem actions_agree (node : Node) (token : String) (depth : Nat) (key : Option Key) (table : HoistTable) :
    Agrees depth (node.actions token key table) (node.lines token depth key table) := by
  match node with
  | .text content => exact ⟨.write _ (.nil depth), rfl⟩
  | .script code true => exact ⟨.nil depth, rfl⟩
  | .script code false => exact ⟨.write _ (.nil depth), rfl⟩
  | .loop spec children span =>
    obtain ⟨printed, same⟩ := childActions_agree children token (depth + 2) children.length 1 table
    exact ⟨overItems_prints token spec printed, same⟩
  | .element tag attributes children loop guard span =>
    have content (level : Nat) := forestActions_agree children token (level + 1) (hoistAttributes table attributes).2
    cases loop with
    | none => exact ⟨underGuard_prints ((content _).1.block _ _), (content _).2⟩
    | some spec => exact ⟨overItems_prints token spec (underGuard_prints ((content _).1.block _ _)), (content _).2⟩
termination_by structural node

theorem forestActions_agree (nodes : List Node) (token : String) (depth : Nat) (table : HoistTable) :
    Agrees depth (forestActions token table nodes) (forestLines token depth table nodes) := by
  match nodes with
  | [] => exact ⟨.nil depth, rfl⟩
  | node :: rest =>
    obtain ⟨first, same⟩ := actions_agree node token depth none table
    obtain ⟨later, after⟩ := forestActions_agree rest token depth (node.lines token depth none table).2
    simp only [forestActions, forestLines, same]
    exact ⟨first.append later, after⟩
termination_by structural nodes

theorem childActions_agree (nodes : List Node) (token : String) (depth count ordinal : Nat) (table : HoistTable) :
    Agrees depth (childActions token count ordinal table nodes) (childLines token depth count ordinal table nodes) := by
  match nodes with
  | [] => exact ⟨.nil depth, rfl⟩
  | node :: rest =>
    obtain ⟨first, same⟩ := actions_agree node token depth (some (.ofChild count ordinal)) table
    obtain ⟨later, after⟩ := childActions_agree rest token depth count (ordinal + 1)
      (node.lines token depth (some (.ofChild count ordinal)) table).2
    simp only [childActions, childLines, same]
    exact ⟨first.append later, after⟩
termination_by structural nodes

end

theorem forest_printed (token : String) (table : HoistTable) (forest : List Node) :
    Printer.run {} (forestActions token table forest).1 = ⟨(forestLines token 0 table forest).1.toArray, 0⟩ := by
  have printed := (forestActions_agree forest token 0 table).1
  simpa using printed.run #[]

theorem generate_lines (token : String) (table : HoistTable) (forest : List Node) :
    generate token table forest =
      ((forestLines token 0 table forest).1.map Line.text, (forestLines token 0 table forest).2) := by
  have same := (forestActions_agree forest token 0 table).2
  simp only [generate, forest_printed, same]

end Proofs.IndentedLines

end Stencil
