import Stencil.Compile

/-! Sessions: one hoist table that lives through any number of steps, under one key token. A
step sees whatever the steps before it have hoisted. -/

namespace Stencil

structure Session where
  token : String
  table : HoistTable
deriving DecidableEq, Repr, Inhabited

inductive Step where
  | addStatics (text : String)
  | addLiteral (text : String)
  | clear
  | generate (forest : List Node)
  | compile (forest : List Node) (functionName dataParam : String)
  | assemble (statements : List String) (functionName dataParam : String)
deriving Repr, Inhabited

/-- What a step returns. -/
inductive Step.Result where
  | nothing
  | text (text : String)
  | statements (statements : List String)
deriving DecidableEq, Repr, Inhabited

namespace Session

def start (token : String) : Session := ⟨token, .empty⟩

/-- A session under the token that a template would be compiled with. -/
def forTemplate (source : String) (options : Options) : Session :=
  start (options.keyToken.resolve options.templateName source)

def run (session : Session) : Step → Step.Result × Session
  | .addStatics text =>
    let (identifier, table) := session.table.addStatics text
    (.text identifier, { session with table })
  | .addLiteral text => (.nothing, { session with table := session.table.addLiteral text })
  | .clear => (.nothing, { session with table := session.table.clear })
  | .generate forest =>
    let (statements, table) := Stencil.generate session.token session.table forest
    (.statements statements, { session with table })
  | .compile forest functionName dataParam =>
    let (text, table) := compileForest session.token session.table forest functionName dataParam
    (.text text, { session with table })
  | .assemble statements functionName dataParam =>
    (.text (moduleText session.table statements functionName dataParam), session)

end Session

end Stencil
