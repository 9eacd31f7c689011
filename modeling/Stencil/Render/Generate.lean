import Stencil.Render.Hoist
import Stencil.Render.Printer
import Stencil.Render.Statics

/-! Render statements of a forest. The hoist table is passed along in document order, so the
first element with some attributes is the one that declares them. Whatever opens a block
indents the lines behind it, and takes that back in front of the line that closes the block. -/

namespace Stencil

/-- The key of the child of a loop with this ordinal. A child that has the loop to itself
needs no ordinal. -/
def Key.ofChild (count ordinal : Nat) : Key := if count = 1 then .iteration else .child ordinal

/-- What is done under a condition, if there is one. -/
def underGuard (guard : Option Guard) (body : List Action) : List Action :=
  match guard with
  | none => body
  | some guard =>
    .write (.openGuard guard.condition) :: .indent :: body ++ [.dedent, .write .closeGuard]

/-- What is done for every item. Arrays are run over directly, objects by their keys, and
nothing is run where there is neither. -/
def overItems (token : String) (spec : LoopSpec) (body : List Action) : List Action :=
  .write (.setTarget spec.iterable) ::
  .write (.openGuard targetName) :: .indent ::
  .write .openLoop :: .indent ::
  .write (.bindItem spec.item) ::
  .write (.bindKey token spec.key) ::
  body ++ [.dedent, .write .closeLoop, .dedent, .write .closeGuard]

/-- The identifier of the attributes of an element, if it has any. -/
def hoistAttributes (table : HoistTable) (attributes : List Attribute) :
    Option String × HoistTable :=
  if attributes.isEmpty then (none, table)
  else
    let (identifier, table) := table.addStatics (Attribute.canonical attributes)
    (some identifier, table)

/-- The key argument of an element: the key it is given, or the token if it has attributes
that have to be told from those of another element at its place. -/
def keyArgument (token : String) (key : Option Key) (attributes : List Attribute) : Option Key :=
  match key with
  | some key => some key
  | none => if attributes.isEmpty then none else some (.token token)

mutual

/-- What is done for one node, which is given a key where it is the child of a loop. -/
def Node.actions (token : String) (key : Option Key) (table : HoistTable) :
    Node → List Action × HoistTable
  | .text content => ([.write (.text content)], table)
  | .script code hoisted =>
    if hoisted then ([], table.addLiteral code) else ([.write (.script code)], table)
  | .loop spec children _ =>
    let (body, table) := childActions token children.length 1 table children
    (overItems token spec body, table)
  | .element tag attributes children loop guard _ =>
    let key := match loop with
      | none => key
      | some _ => some .iteration
    let (statics, table) := hoistAttributes table attributes
    let (body, table) := forestActions token table children
    let element := underGuard guard
      (.write (.openElement tag (keyArgument token key attributes) statics) :: .indent :: body ++
        [.dedent, .write (.closeElement tag)])
    match loop with
    | none => (element, table)
    | some spec => (overItems token spec element, table)

/-- What is done for nodes that stand next to one another. -/
def forestActions (token : String) (table : HoistTable) : List Node → List Action × HoistTable
  | [] => ([], table)
  | node :: rest =>
    let (first, table) := node.actions token none table
    let (later, table) := forestActions token table rest
    (first ++ later, table)

/-- What is done for the children of a loop, of which there are `count`, from an ordinal on. -/
def childActions (token : String) (count ordinal : Nat) (table : HoistTable) :
    List Node → List Action × HoistTable
  | [] => ([], table)
  | node :: rest =>
    let (first, table) := node.actions token (some (.ofChild count ordinal)) table
    let (later, table) := childActions token count (ordinal + 1) table rest
    (first ++ later, table)

end

/-- The statements of a forest, as text, and the table after them. -/
def generate (token : String) (table : HoistTable) (forest : List Node) :
    List String × HoistTable :=
  let (actions, table) := forestActions token table forest
  ((Printer.run {} actions).lines.toList.map Line.text, table)

end Stencil
