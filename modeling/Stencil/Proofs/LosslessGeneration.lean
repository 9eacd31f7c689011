import Stencil.Proofs.DecodedAttributes
import Stencil.Proofs.HoistInvariant
import Stencil.Proofs.RestoredText

/-! Generation loses nothing. Where a node ends is seen from the indentation, what it was is seen
from its lines, and its attributes are found in the table under the identifier in its line. -/

namespace Stencil.Proofs.LosslessGeneration
open Text HoistTable HoistInvariant IndentedLines Literals DecodedAttributes RestoredText

mutual

/-- No scripts, whose code could be any statement, and no loops on elements. -/
def Plain : Node → Prop
  | .text _ => True
  | .script _ _ => False
  | .loop _ children _ => PlainAll children
  | .element _ _ children loop _ _ => loop = none ∧ PlainAll children

def PlainAll : List Node → Prop
  | [] => True
  | node :: rest => Plain node ∧ PlainAll rest

end

/-- Equal up to spans and the order of attributes. A loop without a key is one by `$item`. -/
inductive Alike : List Node → List Node → Prop where
  | nil : Alike [] []
  | text {content first second} (rest : Alike first second) :
      Alike (.text content :: first) (.text content :: second)
  | loop {spec spec' : LoopSpec} {children children' span span' first second} (item : spec.item = spec'.item)
      (key : spec.key.getD "$item" = spec'.key.getD "$item") (iterable : spec.iterable = spec'.iterable)
      (inside : Alike children children') (rest : Alike first second) :
      Alike (.loop spec children span :: first) (.loop spec' children' span' :: second)
  | element {tag attributes attributes' children children' span span' first second} {guard guard' : Option Guard}
      (same : List.Perm attributes attributes')
      (condition : guard.map Guard.condition = guard'.map Guard.condition)
      (inside : Alike children children') (rest : Alike first second) :
      Alike (.element tag attributes children none guard span :: first)
        (.element tag attributes' children' none guard' span' :: second)

/-- Keys that the children of loops are given. -/
inductive ChildKey : Key → Prop where
  | iteration : ChildKey .iteration
  | child (ordinal : Nat) : ChildKey (.child ordinal)

/-- The arguments by which an element is opened, inside of a loop or not. The attributes are
declared under the last of them. -/
inductive Opens (declared : List Hoisted) (token : String) :
    Bool → List Attribute → Option Key → Option String → Prop where
  | bare : Opens declared token false [] none none
  | tokened {attributes identifier} (known : ⟨identifier, Attribute.canonical attributes⟩ ∈ declared) :
      Opens declared token false attributes (some (.token token)) (some identifier)
  | bareChild {key} (child : ChildKey key) : Opens declared token true [] (some key) none
  | child {key attributes identifier} (child : ChildKey key)
      (known : ⟨identifier, Attribute.canonical attributes⟩ ∈ declared) :
      Opens declared token true attributes (some key) (some identifier)

/-- The statements of a forest at a depth, with the declarations that they refer to. The order in
which declarations were made is left open, and so are the numbers of the children of loops. -/
inductive Emits (declared : List Hoisted) (token : String) : Nat → Bool → List Node → List String → Prop where
  | nil {depth inLoop} : Emits declared token depth inLoop [] []
  | text {depth inLoop content nodes texts} (rest : Emits declared token depth inLoop nodes texts) :
      Emits declared token depth inLoop (.text content :: nodes) (Line.text ⟨depth, .text content⟩ :: texts)
  | loop {depth inLoop spec children span content nodes texts}
      (inside : Emits declared token (depth + 2) true children content)
      (rest : Emits declared token depth inLoop nodes texts) :
      Emits declared token depth inLoop (.loop spec children span :: nodes)
        (Line.text ⟨depth, .setTarget spec.iterable⟩ :: Line.text ⟨depth, .openGuard targetName⟩ ::
          Line.text ⟨depth + 1, .openLoop⟩ :: Line.text ⟨depth + 2, .bindItem spec.item⟩ ::
          Line.text ⟨depth + 2, .bindKey token spec.key⟩ :: content ++
          Line.text ⟨depth + 1, .closeLoop⟩ :: Line.text ⟨depth, .closeGuard⟩ :: texts)
  | element {depth inLoop tag attributes key statics children span content nodes texts}
      (opens : Opens declared token inLoop attributes key statics)
      (inside : Emits declared token (depth + 1) false children content)
      (rest : Emits declared token depth inLoop nodes texts) :
      Emits declared token depth inLoop (.element tag attributes children none none span :: nodes)
        (Line.text ⟨depth, .openElement tag key statics⟩ :: content ++
          Line.text ⟨depth, .closeElement tag⟩ :: texts)
  | guarded {depth inLoop tag attributes key statics children guard span content nodes texts}
      (opens : Opens declared token inLoop attributes key statics)
      (inside : Emits declared token (depth + 1 + 1) false children content)
      (rest : Emits declared token depth inLoop nodes texts) :
      Emits declared token depth inLoop (.element tag attributes children none (some guard) span :: nodes)
        (Line.text ⟨depth, .openGuard guard.condition⟩ :: Line.text ⟨depth + 1, .openElement tag key statics⟩ ::
          content ++ Line.text ⟨depth + 1, .closeElement tag⟩ :: Line.text ⟨depth, .closeGuard⟩ :: texts)

/-- The key that a node is given inside of a loop or not. -/
private def Fits (inLoop : Bool) (key : Option Key) : Prop :=
  if inLoop then ∃ child, key = some child ∧ ChildKey child else key = none

private theorem fits_ofChild (count ordinal : Nat) : Fits true (some (.ofChild count ordinal)) := by
  refine ⟨_, rfl, ?_⟩
  unfold Key.ofChild
  split
  · exact .iteration
  · exact .child ordinal

private theorem opens_generated {declared : List Hoisted} {token : String} {inLoop : Bool} {key : Option Key}
    {table : HoistTable} (attributes : List Attribute) (fits : Fits inLoop key)
    (grown : (hoistAttributes table attributes).2.statics ⊆ declared) :
    Opens declared token inLoop attributes (keyArgument token key attributes) (hoistAttributes table attributes).1 := by
  cases attributes with
  | nil =>
    cases inLoop with
    | false =>
      cases fits
      exact .bare
    | true =>
      obtain ⟨child, rfl, isChild⟩ := fits
      exact .bareChild isChild
  | cons item rest =>
    have known := grown (addStatics_declared table (Attribute.canonical (item :: rest)))
    cases inLoop with
    | false =>
      cases fits
      exact .tokened known
    | true =>
      obtain ⟨child, rfl, isChild⟩ := fits
      exact .child isChild known

mutual

private theorem lines_emits {declared : List Hoisted} {token : String} (node : Node) (plain : Plain node)
    {depth : Nat} {inLoop : Bool} {key : Option Key} {table : HoistTable} (fits : Fits inLoop key)
    (grown : (node.lines token depth key table).2.statics ⊆ declared) {nodes : List Node} {texts : List String}
    (rest : Emits declared token depth inLoop nodes texts) :
    Emits declared token depth inLoop (node :: nodes) ((node.lines token depth key table).1.map Line.text ++ texts) := by
  match node with
  | .text content => exact .text rest
  | .script code hoisted => exact absurd plain id
  | .loop spec children span =>
    have inside := children_emits children plain grown
    simpa [Node.lines, looped] using Emits.loop inside rest
  | .element tag attributes children loop guard span =>
    obtain ⟨rfl, plain⟩ := plain
    have before : (hoistAttributes table attributes).2.statics ⊆ declared :=
      fun hoisted member => grown (((grows _).forest children (List.prefix_refl _)).subset member)
    have opens := @opens_generated declared token inLoop key table attributes fits before
    cases guard with
    | none =>
      have content := @forest_emits declared token children plain (depth + 1) (hoistAttributes table attributes).2 grown
      simpa [Node.lines, guarded] using Emits.element opens content rest
    | some guard =>
      have content := @forest_emits declared token children plain (depth + 1 + 1) (hoistAttributes table attributes).2 grown
      simpa [Node.lines, guarded] using Emits.guarded opens content rest
termination_by structural node

private theorem forest_emits {declared : List Hoisted} {token : String} (nodes : List Node) (plain : PlainAll nodes)
    {depth : Nat} {table : HoistTable} (grown : (forestLines token depth table nodes).2.statics ⊆ declared) :
    Emits declared token depth false nodes ((forestLines token depth table nodes).1.map Line.text) := by
  match nodes with
  | [] => exact .nil
  | node :: rest =>
    have before : (node.lines token depth none table).2.statics ⊆ declared :=
      fun hoisted member => grown (((grows _).forest rest (List.prefix_refl _)).subset member)
    have later := forest_emits rest plain.2 grown
    simpa [forestLines] using lines_emits node plain.1 (show Fits false none from rfl) before later
termination_by structural nodes

private theorem children_emits {declared : List Hoisted} {token : String} (nodes : List Node) (plain : PlainAll nodes)
    {depth count ordinal : Nat} {table : HoistTable}
    (grown : (childLines token depth count ordinal table nodes).2.statics ⊆ declared) :
    Emits declared token depth true nodes ((childLines token depth count ordinal table nodes).1.map Line.text) := by
  match nodes with
  | [] => exact .nil
  | node :: rest =>
    have before : (node.lines token depth (some (.ofChild count ordinal)) table).2.statics ⊆ declared :=
      fun hoisted member => grown (((grows _).children rest (List.prefix_refl _)).subset member)
    have later := children_emits rest plain.2 grown
    simpa [childLines] using lines_emits node plain.1 (fits_ofChild count ordinal) before later
termination_by structural nodes

end

private theorem line_text (depth : Nat) (statement : Statement) :
    (Line.text ⟨depth, statement⟩).toList = List.replicate (2 * depth) ' ' ++ statement.source.toList := by
  simp [Line.text]

private theorem line_source {depth : Nat} {first second : Statement}
    (same : Line.text ⟨depth, first⟩ = Line.text ⟨depth, second⟩) : first.source.toList = second.source.toList := by
  have chars := congrArg String.toList same
  rw [line_text, line_text] at chars
  exact List.append_cancel_left chars

/-- The arguments behind the tag, up to the end of the line. -/
private def behindTag (key : Option Key) (statics : Option String) : List Char :=
  ((key.map Key.text).toList ++ statics.toList).flatMap (fun argument => [',', ' '] ++ argument.toList) ++ [')']

private theorem openElement_source (tag : String) (key : Option Key) (statics : Option String) :
    (Statement.openElement tag key statics).source.toList =
      "elementOpen(".toList ++ (quotedChars tag.toList ++ behindTag key statics) := by
  simp [Statement.source_openElement, Statement.arguments, behindTag, intercalate_cons, quoted_toList, List.flatMap_map]

private theorem childKey_comma {key : Key} (child : ChildKey key) : ',' ∉ key.text.toList := by
  cases child with
  | iteration => decide
  | child ordinal =>
    simp only [Key.text, String.toList_append, Nat.toList_repr, List.mem_append, not_or]
    refine ⟨⟨by decide, ?_⟩, by decide⟩
    intro member
    exact absurd (Nat.isDigit_of_mem_toDigits (by decide) (by decide) member) (by decide)

private theorem split_comma {first second rest rest' : List Char} (left : ',' ∉ first) (right : ',' ∉ second)
    (same : first ++ ',' :: rest = second ++ ',' :: rest') : rest = rest' := by
  rcases List.append_eq_append_iff.mp same with ⟨more, rfl, behind⟩ | ⟨more, rfl, behind⟩
  · cases more with
    | nil => exact (List.cons.inj behind).2
    | cons c more => exact absurd ((List.cons.inj behind).1 ▸ (by simp)) right
  · cases more with
    | nil => exact (List.cons.inj behind).2.symm
    | cons c more => exact absurd ((List.cons.inj behind).1 ▸ (by simp)) left

private theorem bare_ne_declared {first second : List Char} {identifier : String} (left : ',' ∉ first) :
    first ++ [')'] ≠ second ++ ',' :: ' ' :: (identifier.toList ++ [')']) := by
  intro same
  have member : ',' ∈ first ++ [')'] := same ▸ by simp
  simp [left] at member

/-- No identifier stands for two texts. -/
private def Unambiguous (declared : List Hoisted) : Prop :=
  ∀ identifier first second, ⟨identifier, first⟩ ∈ declared → ⟨identifier, second⟩ ∈ declared → first = second

private theorem opens_inj {declared : List Hoisted} {token : String} (unique : Unambiguous declared)
    {inLoop : Bool} {attributes attributes' : List Attribute} {key key' : Option Key} {statics statics' : Option String}
    (one : Opens declared token inLoop attributes key statics)
    (other : Opens declared token inLoop attributes' key' statics') {depth : Nat} {tag tag' : String}
    (same : Line.text ⟨depth, .openElement tag key statics⟩ = Line.text ⟨depth, .openElement tag' key' statics'⟩) :
    tag = tag' ∧ attributes.Perm attributes' := by
  have chars := line_source same
  rw [openElement_source, openElement_source] at chars
  obtain ⟨tags, arguments⟩ := quotedChars_append_inj (List.append_cancel_left chars)
  refine ⟨String.toList_inj.mp tags, ?_⟩
  have declaredAlike : ∀ identifier identifier', identifier.toList ++ [')'] = identifier'.toList ++ [')'] →
      ⟨identifier, Attribute.canonical attributes⟩ ∈ declared →
      ⟨identifier', Attribute.canonical attributes'⟩ ∈ declared → attributes.Perm attributes' := by
    intro identifier identifier' equal known known'
    cases String.toList_inj.mp (List.append_cancel_right equal)
    exact canonical_perm (unique _ _ _ known known')
  cases one with
  | bare =>
    cases other with
    | bare => exact .refl _
    | tokened known => simp [behindTag] at arguments
  | tokened known =>
    cases other with
    | bare => simp [behindTag] at arguments
    | tokened known' => exact declaredAlike _ _ (by simpa [behindTag] using arguments) known known'
  | @bareChild key child =>
    cases other with
    | bareChild child' => exact .refl _
    | @child key' _ identifier child' known' =>
      have texts : key.text.toList ++ [')'] = key'.text.toList ++ ',' :: ' ' :: (identifier.toList ++ [')']) := by
        simpa [behindTag] using arguments
      exact absurd texts (bare_ne_declared (childKey_comma child))
  | @child key _ identifier child known =>
    cases other with
    | @bareChild key' child' =>
      have texts : key'.text.toList ++ [')'] = key.text.toList ++ ',' :: ' ' :: (identifier.toList ++ [')']) := by
        simpa [behindTag] using arguments.symm
      exact absurd texts (bare_ne_declared (childKey_comma child'))
    | @child key' _ identifier' child' known' =>
      have texts : key.text.toList ++ ',' :: ' ' :: (identifier.toList ++ [')']) =
          key'.text.toList ++ ',' :: ' ' :: (identifier'.toList ++ [')']) := by
        simpa [behindTag] using arguments
      have identifiers := split_comma (childKey_comma child) (childKey_comma child') texts
      exact declaredAlike _ _ (List.cons.inj identifiers).2 known known'

/-- What comes first here is indented less than the statements at this depth. -/
private def Shallow (depth : Nat) (texts : List String) : Prop :=
  ∀ text ∈ texts.head?, ∃ outer statement, outer < depth ∧ text = Line.text ⟨outer, statement⟩ ∧
    ∃ c ∈ statement.source.toList.head?, c ≠ ' '

private theorem shallow_nil (depth : Nat) : Shallow depth [] := by simp [Shallow]

private theorem shallow_closeElement (depth : Nat) (tag : String) (texts : List String) :
    Shallow (depth + 1) (Line.text ⟨depth, .closeElement tag⟩ :: texts) := by
  intro text first
  cases first
  exact ⟨depth, _, by omega, rfl, 'e', by simp [Statement.source_closeElement], by decide⟩

private theorem shallow_closeLoop (depth : Nat) (texts : List String) :
    Shallow (depth + 2) (Line.text ⟨depth + 1, .closeLoop⟩ :: texts) := by
  intro text first
  cases first
  exact ⟨depth + 1, _, by omega, rfl, '\x7d', rfl, by decide⟩

private theorem shallow_ne {depth : Nat} {statement : Statement} {texts rest : List String} (shallow : Shallow depth rest) :
    Line.text ⟨depth, statement⟩ :: texts ≠ rest := by
  intro same
  subst same
  obtain ⟨outer, shown, less, equal, c, first, visible⟩ := shallow _ rfl
  obtain ⟨more, deeper⟩ : ∃ more, 2 * depth = 2 * outer + (more + 1) := ⟨2 * depth - 2 * outer - 1, by omega⟩
  have chars := congrArg String.toList equal
  rw [line_text, line_text, deeper, List.replicate_add, List.append_assoc] at chars
  have blank := congrArg List.head? (List.append_cancel_left chars)
  rw [first, List.replicate_succ, List.cons_append, List.head?_cons] at blank
  exact visible (Option.some.inj blank).symm

private theorem emits_start {declared : List Hoisted} {token : String} {depth : Nat} {inLoop : Bool}
    {node : Node} {nodes : List Node} {texts : List String}
    (emits : Emits declared token depth inLoop (node :: nodes) texts) :
    ∃ statement later, texts = Line.text ⟨depth, statement⟩ :: later := by
  cases emits with
  | text _ => exact ⟨_, _, rfl⟩
  | loop _ _ => exact ⟨_, _, rfl⟩
  | element _ _ _ => exact ⟨_, _, rfl⟩
  | guarded _ _ _ => exact ⟨_, _, rfl⟩

private theorem text_inj {depth : Nat} {first second : String}
    (same : Line.text ⟨depth, .text first⟩ = Line.text ⟨depth, .text second⟩) : first = second := by
  have sources := line_source same
  apply continued_injective
  apply String.toList_inj.mp
  simpa [Statement.source_text] using sources

private theorem openGuard_inj {depth : Nat} {first second : String}
    (same : Line.text ⟨depth, .openGuard first⟩ = Line.text ⟨depth, .openGuard second⟩) : first = second := by
  have sources := line_source same
  apply String.toList_inj.mp
  simpa [Statement.source_openGuard] using sources

private theorem setTarget_inj {depth : Nat} {first second : String}
    (same : Line.text ⟨depth, .setTarget first⟩ = Line.text ⟨depth, .setTarget second⟩) : first = second := by
  have sources := line_source same
  apply String.toList_inj.mp
  simpa [Statement.source_setTarget] using sources

private theorem bindItem_inj {depth : Nat} {first second : String}
    (same : Line.text ⟨depth, .bindItem first⟩ = Line.text ⟨depth, .bindItem second⟩) : first = second := by
  have sources := line_source same
  apply String.toList_inj.mp
  simpa [Statement.source_bindItem] using sources

private theorem bindKey_inj {depth : Nat} {token : String} {first second : Option String}
    (same : Line.text ⟨depth, .bindKey token first⟩ = Line.text ⟨depth, .bindKey token second⟩) :
    first.getD "$item" = second.getD "$item" := by
  have sources := line_source same
  apply String.toList_inj.mp
  simpa [Statement.source_bindKey] using sources

/-- Statements of different kinds start differently. -/
private theorem kinds_differ {depth : Nat} {first second : Statement} {texts texts' : List String}
    (differ : first.source.toList.head? ≠ second.source.toList.head?) :
    Line.text ⟨depth, first⟩ :: texts ≠ Line.text ⟨depth, second⟩ :: texts' := by
  intro same
  exact differ (congrArg List.head? (line_source (List.cons.inj same).1))

private theorem text_head (content : String) : (Statement.text content).source.toList.head? = some 't' := by
  simp [Statement.source_text]

private theorem openGuard_head (condition : String) :
    (Statement.openGuard condition).source.toList.head? = some 'i' := by simp [Statement.source_openGuard]

private theorem setTarget_head (iterable : String) :
    (Statement.setTarget iterable).source.toList.head? = some '_' := by simp [Statement.source_setTarget]

private theorem openElement_head (tag : String) (key : Option Key) (statics : Option String) :
    (Statement.openElement tag key statics).source.toList.head? = some 'e' := by simp [openElement_source]

/-- Both forests are read off the same statements at once, up to where the statements are indented
less than they are. -/
private theorem emits_inj {declared : List Hoisted} {token : String} (unique : Unambiguous declared)
    {depth : Nat} {inLoop : Bool} {first : List Node} {texts : List String}
    (one : Emits declared token depth inLoop first texts) {second : List Node} {texts' rest rest' : List String}
    (other : Emits declared token depth inLoop second texts') (same : texts ++ rest = texts' ++ rest')
    (shallow : Shallow depth rest) (shallow' : Shallow depth rest') : Alike first second ∧ rest = rest' := by
  induction one generalizing second texts' rest rest' with
  | nil =>
    cases second with
    | nil =>
      cases other
      exact ⟨.nil, same⟩
    | cons node second =>
      obtain ⟨statement, later, rfl⟩ := emits_start other
      exact absurd same.symm (shallow_ne shallow)
  | text _ ih =>
    cases other with
    | nil => exact absurd same (shallow_ne shallow')
    | text other =>
      obtain ⟨line, later⟩ := List.cons.inj same
      obtain ⟨alike, behind⟩ := ih other later shallow shallow'
      cases text_inj line
      exact ⟨.text alike, behind⟩
    | loop _ _ => exact absurd same (kinds_differ (by simp [text_head, setTarget_head]))
    | element _ _ _ => exact absurd same (kinds_differ (by simp [text_head, openElement_head]))
    | guarded _ _ _ => exact absurd same (kinds_differ (by simp [text_head, openGuard_head]))
  | loop _ _ ihInside ih =>
    cases other with
    | nil => exact absurd same (shallow_ne shallow')
    | text _ => exact absurd same (kinds_differ (by simp [setTarget_head, text_head]))
    | loop inside other =>
      simp only [List.cons_append, List.append_assoc, List.cons.injEq, true_and] at same
      obtain ⟨iterable, item, key, content⟩ := same
      obtain ⟨alikeInside, closing⟩ := ihInside inside content (shallow_closeLoop _ _) (shallow_closeLoop _ _)
      simp only [List.cons.injEq, true_and] at closing
      obtain ⟨alike, behind⟩ := ih other closing shallow shallow'
      exact ⟨.loop (bindItem_inj item) (bindKey_inj key) (setTarget_inj iterable) alikeInside alike, behind⟩
    | element _ _ _ => exact absurd same (kinds_differ (by simp [setTarget_head, openElement_head]))
    | guarded _ _ _ => exact absurd same (kinds_differ (by simp [setTarget_head, openGuard_head]))
  | element opens _ _ ihInside ih =>
    cases other with
    | nil => exact absurd same (shallow_ne shallow')
    | text _ => exact absurd same (kinds_differ (by simp [openElement_head, text_head]))
    | loop _ _ => exact absurd same (kinds_differ (by simp [openElement_head, setTarget_head]))
    | element opens' inside other =>
      simp only [List.cons_append, List.append_assoc, List.cons.injEq] at same
      obtain ⟨line, content⟩ := same
      obtain ⟨rfl, attributes⟩ := opens_inj unique opens opens' line
      obtain ⟨alikeInside, closing⟩ := ihInside inside content (shallow_closeElement _ _ _) (shallow_closeElement _ _ _)
      obtain ⟨alike, behind⟩ := ih other (List.cons.inj closing).2 shallow shallow'
      exact ⟨.element attributes rfl alikeInside alike, behind⟩
    | guarded _ _ _ => exact absurd same (kinds_differ (by simp [openElement_head, openGuard_head]))
  | guarded opens _ _ ihInside ih =>
    cases other with
    | nil => exact absurd same (shallow_ne shallow')
    | text _ => exact absurd same (kinds_differ (by simp [openGuard_head, text_head]))
    | loop _ _ => exact absurd same (kinds_differ (by simp [openGuard_head, setTarget_head]))
    | element _ _ _ => exact absurd same (kinds_differ (by simp [openGuard_head, openElement_head]))
    | guarded opens' inside other =>
      simp only [List.cons_append, List.append_assoc, List.cons.injEq] at same
      obtain ⟨guard, line, content⟩ := same
      obtain ⟨rfl, attributes⟩ := opens_inj unique opens opens' line
      obtain ⟨alikeInside, closing⟩ := ihInside inside content (shallow_closeElement _ _ _) (shallow_closeElement _ _ _)
      simp only [List.cons.injEq, true_and] at closing
      obtain ⟨alike, behind⟩ := ih other closing shallow shallow'
      exact ⟨.element attributes (congrArg some (openGuard_inj guard)) alikeInside alike, behind⟩

/-- Forests that give the same statements and leave the same table, from any table that a session
can have, are alike. -/
theorem generate_lossless (token : String) (table : HoistTable) (reachable : Reachable table) (first second : List Node)
    (plain : PlainAll first) (plain' : PlainAll second)
    (same : generate token table first = generate token table second) : Alike first second := by
  have numbered := numbered_kept.generate token first reachable.numbered
  rw [generate_lines] at numbered
  rw [generate_lines, generate_lines, Prod.mk.injEq] at same
  obtain ⟨texts, tables⟩ := same
  have one := forest_emits first plain (List.Subset.refl (forestLines token 0 table first).2.statics)
  have other := forest_emits second plain' (List.Subset.refl (forestLines token 0 table second).2.statics)
  rw [← tables] at other
  have unique : Unambiguous (forestLines token 0 table first).2.statics := fun _ _ _ => numbered.text_unique
  exact (emits_inj unique one other (congrArg (· ++ []) texts) (shallow_nil 0) (shallow_nil 0)).1

theorem generate_lossless_keyed :
    Alike
      [.loop ⟨"x", none, "xs"⟩
        [.element "p" [⟨"a", "1"⟩, ⟨"b", "2"⟩] [.text "hi"] none (some ⟨"x", .none⟩) .none] .none]
      [.loop ⟨"x", some "$item", "xs"⟩
        [.element "p" [⟨"b", "2"⟩, ⟨"a", "1"⟩] [.text "hi"] none (some ⟨"x", .none⟩) .none] .none] := by
  have sorted : Attribute.sorted [⟨"a", "1"⟩, ⟨"b", "2"⟩] = Attribute.sorted [⟨"b", "2"⟩, ⟨"a", "1"⟩] := by
    simp [Attribute.sorted, List.mergeSort, List.MergeSort.Internal.splitInTwo]
  have order : Attribute.canonical [⟨"a", "1"⟩, ⟨"b", "2"⟩] = Attribute.canonical [⟨"b", "2"⟩, ⟨"a", "1"⟩] := by
    rw [Attribute.canonical, sorted, Attribute.canonical]
  refine generate_lossless "k" (after (.start "k") [.addStatics "[]"]).table ⟨"k", _, rfl⟩ _ _ ?_ ?_ ?_
  · simp [PlainAll, Plain]
  · simp [PlainAll, Plain]
  · simp only [generate, forestActions, Node.actions, childActions, hoistAttributes, List.isEmpty_cons, order]
    rfl

end Stencil.Proofs.LosslessGeneration
