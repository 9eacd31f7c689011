import Stencil.Proofs.SealedMarkup
import Stencil.Proofs.TemplateReading

/-! Templates in print. A forest can be printed when every part of it can be told from what stands
around it; reading undoes printing then, whatever the directives were worded like. -/

namespace Stencil.Proofs.PrintedTemplate
open Markup ScannerReading AttributeReading LegibleMarkup SealedMarkup TemplateReading

/-- Attributes in print, each in quotes that its value lacks. -/
inductive PrintsAttributes : List Attribute → List Char → Prop where
  | nil : PrintsAttributes [] []
  | cons {item : Attribute} {mark items chars} (quote : isQuoteMark mark = true) (lacks : mark ∉ item.value.toList)
      (rest : PrintsAttributes items chars) :
      PrintsAttributes (item :: items) (' ' :: item.name.toList ++ '=' :: mark :: item.value.toList ++ mark :: chars)

/-- A forest in print. Loops and guards are printed by any text that they are read from, among the
attributes of their element; a loop of its own is the only attribute of an `each` tag. -/
inductive Prints : List Node → List Char → Prop where
  | nil : Prints [] []
  | text {content : String} {nodes chars} (rest : Prints nodes chars) :
      Prints (.text content :: nodes) (content.toList ++ chars)
  | script {code : String} {hoisted : Bool} {nodes chars} (rest : Prints nodes chars) :
      Prints (.script code hoisted :: nodes)
        ("<script".toList ++ (if hoisted then " hoisted".toList else []) ++ '>' :: code.toList ++
          "</script>".toList ++ chars)
  | void {tag : String} {written inside node nodes chars} (void : isVoidName tag.toList = true)
      (made : Makes tag written [] node) (attributes : PrintsAttributes written inside) (rest : Prints nodes chars) :
      Prints (node :: nodes) ('<' :: tag.toList ++ inside ++ '>' :: chars)
  | enclosing {tag : String} {written inside children content node nodes chars}
      (notVoid : isVoidName tag.toList = false) (made : Makes tag written children node)
      (attributes : PrintsAttributes written inside) (children : Prints children content) (rest : Prints nodes chars) :
      Prints (node :: nodes)
        ('<' :: tag.toList ++ inside ++ '>' :: content ++ "</".toList ++ tag.toList ++ '>' :: chars)

def Quotable (text : String) : Prop := '"' ∉ text.toList ∨ '\'' ∉ text.toList

structure PrintableTag (tag : String) (children : List Node) : Prop where
  name : isTagName tag.toList = true
  notScript : isScriptName tag.toList = false
  notEach : tag ≠ "each"
  empty : isVoidName tag.toList = true → children = []

structure PrintableAttributes (attributes : List Attribute) : Prop where
  distinct : (attributes.map Attribute.name).Nodup
  name_ne : ∀ item ∈ attributes, item.name ≠ ""
  name : ∀ item ∈ attributes, ∀ c ∈ item.name.toList, endsAttributeName c = false
  notEach : ∀ item ∈ attributes, item.name ≠ "each"
  notIf : ∀ item ∈ attributes, item.name ≠ "if"
  value : ∀ item ∈ attributes, Quotable item.value

/-- Some text for the directive can be put in quotes. -/
def Worded {α : Type} (read : String → Except Directive.Fault α) (result : α) : Prop :=
  ∃ text, Quotable text ∧ read text = .ok result

def startsWithText : List Node → Bool
  | .text _ :: _ => true
  | _ => false

mutual

def Printable : Node → Prop
  | .text content => content ≠ "" ∧ ∀ c, c.isAlpha = true ∨ c = '/' ∨ c = '!' → ¬ ['<', c] <:+: content.toList
  | .script code _ =>
    Text.trim code = code ∧ ∀ name, isScriptName name = true → ¬ '<' :: '/' :: name <:+: code.toList
  | .loop spec children _ => Worded Directive.readLoop spec ∧ PrintableAll children
  | .element tag attributes children loop guard _ =>
    PrintableTag tag children ∧ PrintableAttributes attributes ∧
      (∀ spec ∈ loop, Worded Directive.readLoop spec) ∧
      (∀ condition ∈ guard.map Guard.condition, Worded Directive.readCondition condition) ∧ PrintableAll children

/-- No two texts stand next to one another: they would be read as one. -/
def PrintableAll : List Node → Prop
  | [] => True
  | node :: rest => Printable node ∧ PrintableAll rest ∧ ¬ (startsWithText [node] ∧ startsWithText rest)

end

private theorem printsAttributes_exists {written : List Attribute}
    (quotable : ∀ item ∈ written, Quotable item.value) : ∃ chars, PrintsAttributes written chars := by
  induction written with
  | nil => exact ⟨[], .nil⟩
  | cons item rest ih =>
    obtain ⟨chars, printed⟩ := ih fun other member => quotable other (List.mem_cons_of_mem _ member)
    rcases quotable item (by simp) with double | single
    · exact ⟨_, .cons rfl double printed⟩
    · exact ⟨_, .cons rfl single printed⟩

private theorem directs_static {attributes : List Attribute} (notEach : ∀ item ∈ attributes, item.name ≠ "each")
    (notIf : ∀ item ∈ attributes, item.name ≠ "if") : Directs attributes attributes none none := by
  induction attributes with
  | nil => exact .nil
  | cons item rest ih =>
    simp only [List.mem_cons, forall_eq_or_imp] at notEach notIf
    exact .static notEach.1 notIf.1 (ih notEach.2 notIf.2)

private theorem guard_exists {attributes : List Attribute} {condition : Option String}
    (printable : PrintableAttributes attributes)
    (worded : ∀ result ∈ condition, Worded Directive.readCondition result) :
    ∃ written, Directs written attributes none condition ∧ (written.map Attribute.name).Nodup ∧
      (∀ item ∈ written, Quotable item.value) ∧ "each" ∉ written.map Attribute.name := by
  have directs := directs_static printable.notEach printable.notIf
  have absent : "each" ∉ attributes.map Attribute.name := by
    intro member
    obtain ⟨item, inside, same⟩ := List.mem_map.mp member
    exact printable.notEach item inside same
  cases condition with
  | none => exact ⟨attributes, directs, printable.distinct, printable.value, absent⟩
  | some condition =>
    obtain ⟨text, quotable, read⟩ := worded condition rfl
    have fresh : "if" ∉ attributes.map Attribute.name := by
      intro member
      obtain ⟨item, inside, same⟩ := List.mem_map.mp member
      exact printable.notIf item inside same
    refine ⟨⟨"if", text⟩ :: attributes, .guard read directs, List.nodup_cons.mpr ⟨fresh, printable.distinct⟩, ?_, ?_⟩
    · simpa using ⟨quotable, printable.value⟩
    · simpa using absent

private theorem directs_exists {attributes : List Attribute} {loop : Option LoopSpec} {condition : Option String}
    (printable : PrintableAttributes attributes) (loops : ∀ spec ∈ loop, Worded Directive.readLoop spec)
    (worded : ∀ result ∈ condition, Worded Directive.readCondition result) :
    ∃ written, Directs written attributes loop condition ∧ (written.map Attribute.name).Nodup ∧
      ∀ item ∈ written, Quotable item.value := by
  obtain ⟨written, directs, distinct, quotable, fresh⟩ := guard_exists printable worded
  cases loop with
  | none => exact ⟨written, directs, distinct, quotable⟩
  | some spec =>
    obtain ⟨text, quoted, read⟩ := loops spec rfl
    refine ⟨⟨"each", text⟩ :: written, .each read directs, List.nodup_cons.mpr ⟨fresh, distinct⟩, ?_⟩
    simpa using ⟨quoted, quotable⟩

mutual

private theorem node_prints (node : Node) (printable : Printable node) {rest : List Node} {chars : List Char}
    (later : Prints rest chars) : ∃ all, Prints (node :: rest) all := by
  match node with
  | .text content => exact ⟨_, .text later⟩
  | .script code hoisted => exact ⟨_, .script later⟩
  | .loop spec children span =>
    obtain ⟨⟨text, quotable, read⟩, inside⟩ := printable
    obtain ⟨content, printed⟩ := forest_prints children inside
    obtain ⟨fields, attributes⟩ := @printsAttributes_exists [⟨"expression", text⟩] (by simpa using quotable)
    exact ⟨_, .enclosing (by decide) (.loop (Or.inl rfl) read) attributes printed later⟩
  | .element tag attributes children loop guard span =>
    obtain ⟨name, static, loops, guards, inside⟩ := printable
    obtain ⟨written, directs, distinct, quotable⟩ := directs_exists static loops guards
    obtain ⟨fields, attributes⟩ := printsAttributes_exists quotable
    cases void : isVoidName tag.toList with
    | true =>
      cases name.empty void
      exact ⟨_, .void void (.element name.notEach distinct directs) attributes later⟩
    | false =>
      obtain ⟨content, printed⟩ := forest_prints children inside
      exact ⟨_, .enclosing void (.element name.notEach distinct directs) attributes printed later⟩
termination_by structural node

theorem forest_prints (nodes : List Node) (printable : PrintableAll nodes) : ∃ chars, Prints nodes chars := by
  match nodes with
  | [] => exact ⟨[], .nil⟩
  | node :: rest =>
    obtain ⟨chars, later⟩ := forest_prints rest printable.2.1
    exact node_prints node printable.1 later
termination_by structural nodes

end

/-- Names that the attributes of a tag may have in print, directives included. -/
def ProperName (name : String) : Prop := name ≠ "" ∧ ∀ c ∈ name.toList, endsAttributeName c = false

theorem properName_of_any {name : String} (some : name ≠ "") (none : name.toList.any endsAttributeName = false) :
    ProperName name := ⟨some, fun c member => Bool.eq_false_iff.mpr (List.any_eq_false.mp none c member)⟩

theorem directive_names : ∀ name ∈ ["each", "if", "expression", "condition"], ProperName name := by
  have proper : ∀ name ∈ ["each", "if", "expression", "condition"],
      name ≠ "" ∧ name.toList.any endsAttributeName = false := by decide
  intro name member
  exact properName_of_any (proper name member).1 (proper name member).2

private theorem directs_names {written attributes : List Attribute} {loop : Option LoopSpec}
    {condition : Option String} (directs : Directs written attributes loop condition)
    (proper : ∀ item ∈ attributes, ProperName item.name) : ∀ item ∈ written, ProperName item.name := by
  induction directs with
  | nil => exact proper
  | static _ _ _ ih =>
    simp only [List.mem_cons, forall_eq_or_imp] at proper ⊢
    exact ⟨proper.1, ih proper.2⟩
  | each _ _ ih =>
    simp only [List.mem_cons, forall_eq_or_imp]
    exact ⟨directive_names _ (by simp), ih proper⟩
  | guard _ _ ih =>
    simp only [List.mem_cons, forall_eq_or_imp]
    exact ⟨directive_names _ (by simp), ih proper⟩

/-- What being printable says of a node, in the terms of the tag that it is printed with. -/
private structure Tagged (tag : String) (written : List Attribute) (children : List Node) : Prop where
  name : isTagName tag.toList = true
  notScript : isScriptName tag.toList = false
  fields : ∀ item ∈ written, ProperName item.name
  children : PrintableAll children

private theorem made_tagged {tag : String} {written : List Attribute} {children : List Node} {node : Node}
    (made : Makes tag written children node) (printable : Printable node) : Tagged tag written children := by
  cases made with
  | element other distinct directs =>
    obtain ⟨name, static, _, _, inside⟩ := printable
    exact ⟨name.name, name.notScript,
      directs_names directs fun item member => ⟨static.name_ne item member, static.name item member⟩, inside⟩
  | loop holder read =>
    refine ⟨by decide, by decide, ?_, printable.2⟩
    intro item member
    cases List.mem_singleton.mp member
    rcases holder with rfl | rfl
    · exact directive_names _ (by simp)
    · exact directive_names _ (by simp)

theorem opening_of_prints {written : List Attribute} {chars : List Char}
    (printed : PrintsAttributes written chars) (proper : ∀ item ∈ written, ProperName item.name) :
    ∃ fields : List Field, fields.flatMap Field.write = chars ∧ fields.map attributeOf = written ∧
      ∀ field ∈ fields, ProperField field ∧ ∀ value ∈ field.value, value.quoting ≠ .bare := by
  induction printed with
  | nil => exact ⟨[], rfl, rfl, by simp⟩
  | @cons item mark items chars quote lacks _ ih =>
    simp only [List.mem_cons, forall_eq_or_imp] at proper
    obtain ⟨fields, written, same, others⟩ := ih proper.2
    obtain ⟨quoting, marked, allowed, quoted⟩ : ∃ quoting : Quoting, quoting.mark = [mark] ∧
        Allowed quoting item.value.toList ∧ quoting ≠ .bare := by
      simp only [isQuoteMark, Bool.or_eq_true, decide_eq_true_eq] at quote
      rcases quote with rfl | rfl
      · exact ⟨.double, rfl, lacks, by decide⟩
      · exact ⟨.single, rfl, lacks, by decide⟩
    let first : Field := ⟨[' '], item.name.toList, some ⟨[], [], quoting, item.value.toList⟩⟩
    have named : item.name.toList ≠ [] := fun none => proper.1.1 (by simpa using none)
    refine ⟨first :: fields, ?_, ?_, ?_⟩
    · simp [first, Field.write, Field.body, Value.write, Value.literal, marked, written]
    · simp [first, attributeOf, same]
    · simp only [List.mem_cons, forall_eq_or_imp]
      refine ⟨⟨⟨by simp [first], by simp [first, isGap], named, proper.1.2, ?_⟩, by simpa [first] using quoted⟩, others⟩
      simpa [first] using ⟨by simp, by simp, allowed⟩

/-- Quoted values end by themselves, so what stands behind the attributes does not matter. -/
theorem properOpening_quoted {tag : List Char} {fields : List Field} (ending : List Char)
    (proper : ∀ field ∈ fields, ProperField field ∧ ∀ value ∈ field.value, value.quoting ≠ .bare) :
    ProperOpening ⟨tag, fields, []⟩ ending := by
  refine ⟨fun field member => (proper field member).1, by simp, ?_⟩
  intro field last value member bare
  exact absurd bare ((proper field (List.mem_of_getLast? last)).2 value member)

private theorem rest_sealed {nodes : List Node} {chars : List Char} (printed : Prints nodes chars)
    (printable : PrintableAll nodes) {follow : List Char} (outside : Sealed follow) :
    (startsWithText nodes = false → Ends startsTag (chars ++ follow)) ∧
      ∀ tag, isVoidName tag = true → ¬ Closes tag (chars ++ follow) := by
  induction printed with
  | nil => exact ⟨fun _ => outside.ends, outside.stays⟩
  | @text content nodes chars _ ih =>
    obtain ⟨⟨_, clear⟩, later, separate⟩ := printable
    obtain ⟨ends, stays⟩ := ih later
    refine ⟨by simp [startsWithText], ?_⟩
    intro tag void
    rw [List.append_assoc]
    refine text_stays (clear '/' (by simp)) (ends ?_) (stays tag void)
    simpa [startsWithText] using separate
  | script _ _ =>
    have name : isTagName scriptName = true := by decide
    simp only [List.append_assoc]
    exact ⟨fun _ => (tag_sealed name _).ends, (tag_sealed name _).stays⟩
  | void _ made _ _ _ =>
    have name := (made_tagged made printable.1).name
    simp only [List.append_assoc, List.cons_append]
    exact ⟨fun _ => (tag_sealed name _).ends, (tag_sealed name _).stays⟩
  | enclosing _ made _ _ _ _ _ =>
    have name := (made_tagged made printable.1).name
    simp only [List.append_assoc, List.cons_append]
    exact ⟨fun _ => (tag_sealed name _).ends, (tag_sealed name _).stays⟩

private def scriptOpening (hoisted : Bool) : Opening :=
  ⟨scriptName, if hoisted then [⟨[' '], "hoisted".toList, none⟩] else [], []⟩

private theorem scriptOpening_proper (hoisted : Bool) (ending : List Char) :
    ProperOpening (scriptOpening hoisted) ending := by
  refine ⟨?_, (fun c member => nomatch member), ?_⟩
  · intro field member
    cases hoisted with
    | false => cases member
    | true =>
      cases List.mem_singleton.mp member
      have name := @properName_of_any "hoisted" (by decide) (by decide)
      exact ⟨by simp, by simp [isGap], by decide, name.2, by simp⟩
  · intro field last value member
    cases hoisted with
    | false => cases last
    | true =>
      cases last
      cases member

private theorem script_denotes {code : String} (trimmed : Text.trim code = code) (hoisted : Bool)
    {pieces : List Piece} {nodes : List Node} (denotes : Denotes pieces nodes) :
    Denotes (.script (scriptOpening hoisted) code.toList scriptName [] :: pieces) (.script code hoisted :: nodes) := by
  have script := @Denotes.script (scriptOpening hoisted) code.toList scriptName [] pieces nodes
    (by cases hoisted <;> decide) (by cases hoisted <;> decide) denotes
  have flag : (!(scriptOpening hoisted).fields.isEmpty) = hoisted := by cases hoisted <;> rfl
  have body : String.ofList (Text.trimChars code.toList) = code := trimmed
  rw [flag, body] at script
  exact script

/-- A print is legible markup of its forest, as long as nothing behind it is taken for a part of it. -/
private theorem pieces_of_prints {nodes : List Node} {chars : List Char} (printed : Prints nodes chars)
    (printable : PrintableAll nodes) {follow : List Char} (outside : Sealed follow) :
    ∃ pieces, writeAll pieces = chars ∧ LegibleAll pieces follow ∧ Denotes pieces nodes := by
  induction printed generalizing follow with
  | nil => exact ⟨[], rfl, trivial, .nil⟩
  | @text content nodes chars later ih =>
    obtain ⟨⟨some, clear⟩, others, separate⟩ := printable
    obtain ⟨pieces, rfl, legible, denotes⟩ := ih others outside
    have ends : Ends startsTag (writeAll pieces ++ follow) := by
      apply (rest_sealed later others outside).1
      simpa [startsWithText] using separate
    refine ⟨.text content.toList :: pieces, rfl, ⟨⟨?_, ?_, ends⟩, legible⟩, ?_⟩
    · exact fun none => some (by simpa using none)
    · exact passes_of_lacks (lacks_startsTag.mpr clear) ends
    · simpa using @Denotes.text content.toList _ _ denotes
  | @script code hoisted nodes chars later ih =>
    obtain ⟨⟨trimmed, clear⟩, others, _⟩ := printable
    obtain ⟨pieces, rfl, legible, denotes⟩ := ih others outside
    refine ⟨.script (scriptOpening hoisted) code.toList scriptName [] :: pieces, ?_,
      ⟨⟨rfl, scriptOpening_proper _ _, lacks_closesScript.mpr clear, rfl, by simp⟩, legible⟩,
      script_denotes trimmed hoisted denotes⟩
    cases hoisted <;>
      simp [writeAll, Piece.write, Opening.write, scriptOpening, closingTag, scriptName, Field.write, Field.body]
  | @void tag written inside node nodes chars void made attributes later ih =>
    obtain ⟨own, others, _⟩ := printable
    have tagged := made_tagged made own
    obtain ⟨pieces, rfl, legible, denotes⟩ := ih others outside
    obtain ⟨fields, rfl, rfl, proper⟩ := opening_of_prints attributes tagged.fields
    let opening : Opening := ⟨tag.toList, fields, []⟩
    have stays := (rest_sealed later others outside).2 tag.toList void
    refine ⟨.leaf opening (.void false none) :: pieces, ?_, ⟨⟨void, properOpening_quoted _ proper, stays⟩, legible⟩, ?_⟩
    · simp [opening, writeAll, Piece.write, Opening.write, Ending.write]
    · exact .leaf (by simpa [opening] using made) denotes
  | @enclosing tag written inside children content node nodes chars notVoid made attributes inner later ihInner ih =>
    obtain ⟨own, others, _⟩ := printable
    have tagged := made_tagged made own
    have ordinary : Ordinary tag.toList := ⟨tagged.name, tagged.notScript, notVoid⟩
    obtain ⟨pieces, rfl, legible, denotes⟩ := ih others outside
    obtain ⟨parts, rfl, legibleInner, denotesInner⟩ :=
      ihInner tagged.children (@closing_sealed _ [] ordinary (by simp) (writeAll pieces ++ follow))
    obtain ⟨fields, rfl, rfl, proper⟩ := opening_of_prints attributes tagged.fields
    let opening : Opening := ⟨tag.toList, fields, []⟩
    refine ⟨.element opening parts [] :: pieces, ?_,
      ⟨⟨ordinary, properOpening_quoted _ proper, legibleInner, by simp⟩, legible⟩, ?_⟩
    · simp [opening, writeAll, Piece.write, Opening.write, closingTag]
    · exact .element denotesInner (by simpa [opening] using made) denotes

theorem printed_read {forest : List Node} (printable : PrintableAll forest) {source : String}
    (printed : Prints forest source.toList) :
    ∃ found, Template.read source = .ok found ∧ spanlessAll found.body = spanlessAll forest := by
  obtain ⟨pieces, written, legible, denotes⟩ := pieces_of_prints printed printable sealed_nil
  exact read_complete written.symm legible denotes

/-- Reading undoes printing: a printable forest has a print, and every print of it is read as the
forest, spans apart. -/
theorem read_printed (forest : List Node) (printable : PrintableAll forest) :
    (∃ chars, Prints forest chars) ∧
      ∀ source : String, Prints forest source.toList →
        ∃ found, Template.read source = .ok found ∧ spanlessAll found.body = spanlessAll forest :=
  ⟨forest_prints forest printable, fun _ printed => printed_read printable printed⟩

def guardedParagraph : List Node :=
  [.element "p" [⟨"title", "it's"⟩] [.text "1 < 2", .element "br" [] [] none none .none] none (some ⟨"ok", .none⟩) .none]

theorem read_printed_guarded :
    PrintableAll guardedParagraph ∧
      ∃ found, Template.read "<p if='ok' title=\"it's\">1 < 2<br></p>" = .ok found ∧
        spanlessAll found.body = guardedParagraph := by
  have condition : Directive.readCondition "ok" = .ok "ok" := by rfl
  have clear : ∀ c, c.isAlpha = true ∨ c = '/' ∨ c = '!' → ¬ ['<', c] <:+: "1 < 2".toList := by
    intro c starts inside
    have blank : c = ' ' := by simpa [List.infix_cons_iff] using inside
    subst blank
    simp at starts
  have leaf : Printable (.element "br" [] [] none none .none) :=
    ⟨⟨by decide, by decide, by decide, by decide⟩, ⟨by decide, by simp, by simp, by simp, by simp, by simp⟩,
      by simp, by simp, trivial⟩
  have static : PrintableAttributes [⟨"title", "it's"⟩] :=
    ⟨by decide, by decide, by simp [endsAttributeName, isGap, isQuoteMark], by decide, by decide, by simp [Quotable]⟩
  have guard : Worded Directive.readCondition "ok" := ⟨"ok", by simp [Quotable], condition⟩
  have printable : PrintableAll guardedParagraph :=
    ⟨⟨⟨by decide, by decide, by decide, by decide⟩, static, by simp, by simpa using guard,
      ⟨by decide, clear⟩, ⟨leaf, trivial, by decide⟩, by decide⟩, trivial, by decide⟩
  have attributes : PrintsAttributes [⟨"if", "ok"⟩, ⟨"title", "it's"⟩] " if='ok' title=\"it's\"".toList :=
    .cons rfl (by decide) (.cons rfl (by decide) .nil)
  have directs : Directs [⟨"if", "ok"⟩, ⟨"title", "it's"⟩] [⟨"title", "it's"⟩] none (some "ok") :=
    .guard condition (.static (by decide) (by decide) .nil)
  have printed : Prints guardedParagraph "<p if='ok' title=\"it's\">1 < 2<br></p>".toList :=
    .enclosing rfl (.element (by decide) (by decide) directs) attributes
      (.text (.void rfl (.element (by decide) (by decide) .nil) .nil .nil)) .nil
  exact ⟨printable, (read_printed guardedParagraph printable).2 _ printed⟩

end Stencil.Proofs.PrintedTemplate
