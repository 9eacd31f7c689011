import Stencil.Proofs.SealedMarkup
import Stencil.Proofs.StackRuns

/-! The stack of tags. Every production of the grammar leaves the stack as it was, if it matches; and each tag that is
taken off is that of the element whose run takes it off. Void elements come before other elements, so when the content
of an element is read its tag is not void, and no closing tag that a void element takes for itself is one that an element
around it waits for. -/

namespace Stencil.Proofs.TagStack
open Markup Scanner ScannerReading MarkupReading AttributeReading LegibleMarkup GrammarRuns SilentScanners ScannedGrammar
open TerminatingRuns StackRuns

variable {α : Type} {frame : Frame} {expression one two : Expression} {state after : State} {verdict : Verdict}

theorem works_exists (frame : Frame) (state : State) (steady : Steady expression) (effect : heldAfter expression 0 = some 0) :
    ∃ verdict after, Works frame expression state verdict after := by
  obtain ⟨result, noted, run⟩ := run_exists ⟨expression, state.cursor⟩ steady {} ⟨0, [], []⟩
  obtain ⟨verdict, after, works, _⟩ := works_of_run run rfl (holds_none frame state.stack) effect
  exact ⟨verdict, after, works⟩

theorem works_answers {scope : Scope} {tracker noted : Tracker} {result : Option (Cursor × List Pair)}
    (works : Works frame expression state verdict after) (effect : heldAfter expression 0 = some 0)
    (run : Run scope expression state.cursor tracker result noted) : result.map Prod.fst = answer verdict after := by
  obtain ⟨other, last, again, found⟩ := works_of_run run rfl (holds_none frame state.stack) effect
  obtain ⟨rfl, rfl⟩ := again.unique works
  exact found

theorem works_scanned {scanner : Scanner α} (works : Works frame expression state verdict after)
    (effect : heldAfter expression 0 = some 0) (follows : Follows scanner expression state.cursor) :
    (scanner state.cursor).found.map Prod.snd = answer verdict after := by
  obtain ⟨pairs, run⟩ := follows ⟨0, []⟩
  have found := works_answers works effect run
  rwa [Option.map_map] at found

private theorem reads_of_answer {scanner : Scanner α}
    (found : (scanner state.cursor).found.map Prod.snd = answer .matched after) :
    ∃ value, Reads scanner state.cursor value after.cursor := by
  obtain ⟨result, found, same⟩ := Option.map_eq_some_iff.mp found
  exact ⟨result.1, by rw [Reads, found, ← same]⟩

private theorem reads_of_works {scanner : Scanner α} (works : Works frame expression state .matched after)
    (effect : heldAfter expression 0 = some 0) (follows : Follows scanner expression state.cursor) :
    ∃ value, Reads scanner state.cursor value after.cursor := reads_of_answer (works_scanned works effect follows)

/-- The stack is as it was behind what has no effect on it. -/
theorem works_stack (works : Works frame expression state .matched after) (effect : heldAfter expression 0 = some 0) :
    after.stack = state.stack := by
  obtain ⟨own, stack, length, _⟩ := (works.ordered (holds_none frame state.stack) effect).holds rfl
  rw [stack, List.length_eq_zero_iff.mp length, List.nil_append]

private theorem works_farther (works : Works frame expression state .matched after) (steady : Steady expression)
    (effect : heldAfter expression 0 = some 0) : Farther state.cursor after.cursor expression.advances := by
  obtain ⟨result, noted, run⟩ := run_exists ⟨expression, state.cursor⟩ steady {} ⟨0, [], []⟩
  obtain ⟨found, rfl, reached⟩ := Option.map_eq_some_iff.mp (works_answers works effect run)
  exact reached ▸ run.farther

def isQuietRule : Rule → Bool
  | .template | .voidElement | .element => false
  | _ => true

def isQuiet : Expression → Bool
  | .terminal .pop | .terminal .drop | .push _ => false
  | .terminal _ => true
  | .both first second | .either first second => isQuiet first && isQuiet second
  | .optional inner | .many inner | .without inner => isQuiet inner
  | .call rule => isQuietRule rule

private theorem body_quiet (rule : Rule) (quiet : isQuietRule rule = true) : isQuiet (Grammar.body rule) = true := by
  cases rule <;> first | rfl | cases quiet

private theorem quiet_held (held : Nat) (quiet : isQuiet expression = true) : heldAfter expression held = some held := by
  induction expression with
  | terminal terminal => cases terminal <;> first | rfl | cases quiet
  | both first second ihFirst ihSecond =>
    obtain ⟨one, two⟩ := Bool.and_eq_true_iff.mp quiet
    rw [heldAfter, ihFirst one, Option.bind_some, ihSecond two]
  | either first second ihFirst ihSecond =>
    obtain ⟨one, two⟩ := Bool.and_eq_true_iff.mp quiet
    rw [heldAfter, ihFirst one, ihSecond two, if_pos rfl]
  | optional inner ih | many inner ih => rw [heldAfter, ih quiet, if_pos rfl]
  | without inner ih => rw [heldAfter, ih quiet, Option.map_some]
  | push => cases quiet
  | call => rfl

private theorem quiet_running (works : Works frame expression state verdict after) (quiet : isQuiet expression = true) :
    verdict ≠ .stopped :=
  (works.ordered (holds_none frame state.stack) (quiet_held 0 quiet)).running

private theorem settled_stack {before : State} (run : Works frame expression before.save verdict after)
    (same : after.stack = before.stack) : (after.settled verdict).stack = before.stack := by
  cases verdict with
  | matched => exact same
  | failed => exact run.undone.2.1
  | stopped => exact same

theorem works_quiet (works : Works frame expression state verdict after) (quiet : isQuiet expression = true) :
    after.stack = state.stack ∧ after.removals = state.removals := by
  induction works with
  | @terminal frame state terminal =>
    cases terminal with
    | text | anyCase | member | finish =>
      simp only [work]
      split <;> exact ⟨rfl, rfl⟩
    | pop | drop => cases quiet
  | bothEnds _ _ ih => exact ih (Bool.and_eq_true_iff.mp quiet).1
  | both _ _ ihFirst ihSecond =>
    obtain ⟨stack, removals⟩ := ihFirst (Bool.and_eq_true_iff.mp quiet).1
    obtain ⟨stack', removals'⟩ := ihSecond (Bool.and_eq_true_iff.mp quiet).2
    split <;> exact ⟨stack'.trans stack, removals'.trans removals⟩
  | @eitherFirst _ _ _ _ verdict after run _ ih =>
    obtain ⟨stack, removals⟩ := ih (Bool.and_eq_true_iff.mp quiet).1
    exact ⟨settled_stack run stack, (settled_kept after verdict).2.2.trans removals⟩
  | @eitherSecond _ _ _ _ between verdict after run later ihFirst ihSecond =>
    obtain ⟨_, removals⟩ := ihFirst (Bool.and_eq_true_iff.mp quiet).1
    obtain ⟨stack', removals'⟩ := ihSecond (Bool.and_eq_true_iff.mp quiet).2
    refine ⟨(settled_stack later stack').trans run.undone.2.1, (settled_kept after verdict).2.2.trans ?_⟩
    exact removals'.trans ((back_kept between).2.2.trans removals)
  | @optional _ _ _ verdict after run ih | @manyEnds _ _ _ verdict after run _ ih =>
    obtain ⟨stack, removals⟩ := ih quiet
    exact ⟨settled_stack run stack, (settled_kept after verdict).2.2.trans removals⟩
  | many _ _ ihFirst ihLater =>
    obtain ⟨stack, removals⟩ := ihFirst quiet
    obtain ⟨stack', removals'⟩ := ihLater quiet
    exact ⟨stack'.trans stack, removals'.trans removals⟩
  | @without _ _ _ _ after run ih =>
    obtain ⟨_, removals⟩ := ih quiet
    refine ⟨?_, (back_kept after).2.2.trans removals⟩
    change after.back.stack = _
    rw [back_of_saved (run.kept.saved (quiet_running run quiet))]
  | push => cases quiet
  | @call _ rule _ _ _ _ ih => exact ih (body_quiet rule quiet)

variable {like : Removal → Prop}

private theorem notes_quiet (works : Works frame expression state verdict after) (quiet : isQuiet expression = true) :
    Notes like state after := .none (works_quiet works quiet).2

private theorem notes_both (works : Works frame (.both one two) state verdict after)
    (first : ∀ verdict middle, Works frame one state verdict middle → Notes like state middle)
    (second : ∀ middle, Works frame one state .matched middle →
      ∀ verdict last, Works frame two middle verdict last → Notes like middle last) : Notes like state after := by
  cases works with
  | bothEnds works _ => exact (first _ _ works).congr rfl rfl
  | both works later =>
    refine ((first _ _ works).trans (second _ works _ _ later)).congr rfl ?_
    split <;> rfl

private theorem notes_behind (works : Works frame (.both one two) state verdict after) (quiet : isQuiet one = true)
    (second : ∀ middle, Works frame one state .matched middle → middle.stack = state.stack →
      ∀ verdict last, Works frame two middle verdict last → Notes like middle last) : Notes like state after :=
  notes_both works (fun _ _ first => notes_quiet first quiet) fun middle first =>
    second middle first (works_quiet first quiet).1

private theorem notes_either (works : Works frame (.either one two) state verdict after)
    (first : ∀ verdict middle, Works frame one state.save verdict middle → Notes like state.save middle)
    (second : ∀ between, Works frame one state.save .failed between →
      ∀ verdict last, Works frame two between.back.save verdict last → Notes like between.back.save last) :
    Notes like state after := by
  cases works with
  | @eitherFirst _ _ _ _ verdict after works _ =>
    exact (first _ _ works).congr rfl (settled_kept after verdict).2.2
  | @eitherSecond _ _ _ _ between verdict after works later =>
    refine ((first _ _ works).congr rfl (back_kept between).2.2).trans ?_
    exact (second _ works _ _ later).congr rfl (settled_kept after verdict).2.2

private theorem notes_push (works : Works frame (.push expression) state verdict after) (quiet : isQuiet expression = true) :
    Notes like state after := by
  cases works with
  | push works =>
    refine (notes_quiet works quiet).congr rfl ?_
    split <;> rfl

private theorem notes_call {rule : Rule} (works : Works frame (.call rule) state verdict after)
    (inside : ∀ begun, Works ⟨rule, state.begun⟩ (Grammar.body rule) { state with begun } verdict after →
      Notes like { state with begun } after) : Notes like state after := by
  cases works with
  | call works => exact (inside _ works).congr rfl rfl

private def Takes (expression : Expression) : Prop :=
  ∀ frame state verdict after, Works frame expression state verdict after →
    Notes (fun removal => removal.frame = frame ∧ removal.stack = state.stack) state after

private theorem takes_behind (quiet : isQuiet one = true) (takes : Takes two) : Takes (.both one two) := by
  intro frame state verdict after works
  refine notes_behind works quiet fun middle _ stack verdict last later => ?_
  exact (takes _ _ _ _ later).mono fun _ noted => ⟨noted.1, noted.2.trans stack⟩

private theorem takes_before (takes : Takes one) (quiet : isQuiet two = true) : Takes (.both one two) := by
  intro frame state verdict after works
  exact notes_both works (takes _ _) fun _ _ _ _ later => notes_quiet later quiet

private theorem takes_pop : Takes (.terminal .pop) := by
  intro frame state verdict after works
  cases works
  have noted : Notes (fun removal => removal.frame = frame ∧ removal.stack = state.stack) state (state.noting frame) :=
    .one ⟨rfl, rfl⟩
  simp only [work]
  split
  · exact noted
  · split <;> exact noted

private theorem takes_drop : Takes (.terminal .drop) := by
  intro frame state verdict after works
  cases works
  have noted : Notes (fun removal => removal.frame = frame ∧ removal.stack = state.stack) state (state.noting frame) :=
    .one ⟨rfl, rfl⟩
  simp only [work]
  split <;> exact noted

private theorem takes_closing : Takes Grammar.closing := takes_behind rfl (takes_before takes_pop rfl)

/-- A closing tag that is not needed, or none. -/
private theorem takes_needless : Takes (.either (.both (.many Grammar.gapChar) Grammar.closing) (.terminal .drop)) := by
  intro frame state verdict after works
  refine notes_either works (takes_behind rfl takes_closing _ _) fun between failed verdict last later => ?_
  exact (takes_drop _ _ _ _ later).mono fun _ noted => ⟨noted.1, noted.2.trans failed.undone.2.1⟩

private theorem crosses_text {word : String} (works : Works frame (.text word) state .matched after) :
    Crosses state.cursor word.toList after.cursor := by
  obtain ⟨_, reads⟩ := reads_of_works works rfl (follows_agreeing (agrees_exactly word state.cursor))
  exact reads_exactly.mp reads

private theorem push_matched (works : Works frame (.push expression) state .matched after) :
    ∃ inner, Works frame expression state .matched inner ∧ after = inner.pushing frame state.rest := by
  cases works with
  | push works => exact ⟨_, works, if_pos rfl⟩

/-- The text between two places. -/
private def between (start next : State) : List Char := start.rest.take (start.rest.length - next.rest.length)

private theorem crosses_between {tag : List Char} (crosses : Crosses state.cursor tag after.cursor) :
    between state after = tag := by
  have rest : state.rest = tag ++ after.rest := crosses.rest
  rw [between, rest, List.length_append, Nat.add_sub_cancel, List.take_left]

private theorem void_between (works : Works frame (.call .voidTag) state .matched after) :
    isVoidName (between state after) = true := by
  obtain ⟨tag, reads⟩ := reads_of_works works rfl (voidTag_follows _)
  obtain ⟨crosses, _, _, void⟩ := reads_nameWhere.mp (reads_named.mp reads)
  rw [crosses_between crosses]
  exact void

/-- The expression fails here. -/
def FailsAt (expression : Expression) (stack : List OpenTag) (rest : List Char) : Prop :=
  ∃ frame state after, state.stack = stack ∧ state.rest = rest ∧ Works frame expression state .failed after

/-- An opening tag that is read where a void element fails is not that of a void element. -/
private theorem between_ordinary {first second third fourth fifth last : State}
    (less : Works frame (.text "<") first .matched second)
    (noScript : Works frame (.without Grammar.scriptTag) second .matched third)
    (name : Works frame (.call .tagName) third .matched fourth)
    (fields : Works frame Grammar.attributes (fourth.pushing frame third.rest) .matched fifth)
    (greater : Works frame (.text ">") fifth .matched last)
    (other : FailsAt (.call .voidElement) first.stack first.rest) : Ordinary (between third fourth) := by
  obtain ⟨_, looked⟩ := reads_of_works noScript rfl (follows_agreeing (agrees_notScript _))
  obtain ⟨tag, named⟩ := reads_of_works name rfl (tagName_follows _)
  obtain ⟨same, crosses, _, _, isName, notScript⟩ := reads_tagName.mp ⟨looked, named⟩
  rw [crosses_between (same ▸ crosses)]
  have start : first.rest = '<' :: second.rest := (crosses_text less).rest
  have inside : second.rest = tag ++ fourth.rest := crosses.rest
  have enough : fourth.rest.length ≤ first.rest.length := by
    rw [start, inside, List.length_cons, List.length_append]
    omega
  obtain ⟨opening, reads⟩ := reads_of_works fields rfl (attributes_follow tag enough)
  obtain ⟨rfl, within, proper, few⟩ := attributes_sound reads
  have attributes : fourth.rest = (opening.fields.flatMap Field.write ++ opening.gap) ++ fifth.rest := within.rest
  have behind : fifth.cursor.rest = '>' :: last.rest := (crosses_text greater).rest
  have heads : Heads first.cursor opening false := by
    refine ⟨isName, proper.ending (by rw [behind]; rfl), last.rest, ?_⟩
    change first.rest = _
    rw [start, inside, attributes, show fifth.rest = '>' :: last.rest from behind]
    simp [Opening.write, tagEnd]
  obtain ⟨_, state, _, stack, rest, failed⟩ := other
  have place : state.cursor = first.cursor := cursor_ext rest (congrArg (List.map OpenTag.tag) stack)
  have fails : Fails (voidElement (Markup.attributes first.rest.length)) first.cursor := by
    rw [← place]
    exact Option.map_eq_none_iff.mp (works_scanned failed rfl (voidElement_follows (Nat.le_of_eq (congrArg List.length rest))))
  exact ⟨isName, notScript, (fails_voidElement _ heads few).mp fails⟩

/-- A tag is taken off that stands above those of the elements around, by a void element only if it is void itself. -/
def Enclosed (outer : List OpenTag) (removal : Removal) : Prop :=
  ∃ entry around, removal.stack = entry :: (around ++ outer) ∧
    (∀ waiting ∈ around, waiting.owner.rule = .element ∧ Ordinary waiting.tag) ∧
    (removal.frame.rule = .voidElement → isVoidName entry.tag = true)

private theorem Enclosed.outwards {outer : List OpenTag} {waiting : OpenTag} {removal : Removal}
    (enclosed : Enclosed (waiting :: outer) removal) (element : waiting.owner.rule = .element)
    (ordinary : Ordinary waiting.tag) : Enclosed outer removal := by
  obtain ⟨entry, around, stack, inside, void⟩ := enclosed
  refine ⟨entry, around ++ [waiting], by rw [stack, List.append_assoc, List.singleton_append], ?_, void⟩
  exact List.forall_mem_append.mpr ⟨inside, List.forall_mem_singleton.mpr ⟨element, ordinary⟩⟩

/-- Everything that is taken off when this is run here is enclosed. -/
private def EnclosedAt (expression : Expression) (outer : List OpenTag) (rest : List Char) : Prop :=
  ∀ frame state verdict after, state.stack = outer → state.rest = rest → Works frame expression state verdict after →
    Notes (Enclosed outer) state after

section
variable {outer : List OpenTag} {rest : List Char}

private theorem quiet_enclosed (quiet : isQuiet expression = true) : EnclosedAt expression outer rest :=
  fun _ _ _ _ _ _ works => notes_quiet works quiet

private theorem either_enclosed (first : EnclosedAt one outer rest)
    (second : FailsAt one outer rest → EnclosedAt two outer rest) : EnclosedAt (.either one two) outer rest := by
  intro frame state verdict after stack place works
  refine notes_either works (fun verdict middle works => first _ state.save _ _ stack place works) ?_
  intro between failed verdict last later
  obtain ⟨same, stacked, _⟩ := failed.undone
  exact second ⟨frame, state.save, between, stack, place, failed⟩ _ between.back.save _ _ (stacked.trans stack)
    (same.trans place) later

private theorem voidElement_enclosed : EnclosedAt (.call .voidElement) outer rest := by
  intro frame state verdict after start _ works
  refine notes_call works fun begun works => ?_
  refine notes_behind works rfl fun second _ stack verdict last works => ?_
  refine notes_both works (fun _ _ pushed => notes_push pushed rfl) fun third pushed verdict last works => ?_
  obtain ⟨named, tag, rfl⟩ := push_matched pushed
  refine notes_behind works rfl fun fourth _ stack4 verdict last works => ?_
  refine notes_behind works rfl fun fifth _ stack5 verdict last works => ?_
  refine notes_behind works rfl fun sixth _ stack6 verdict last works => ?_
  have waiting : sixth.stack = ⟨between second named, ⟨.voidElement, state.begun⟩⟩ :: outer := by
    rw [stack6, stack5, stack4, ← start, show state.stack = second.stack from stack.symm, ← works_stack tag rfl]
    rfl
  refine (takes_needless _ _ _ _ works).mono fun removal noted => ?_
  exact ⟨_, [], noted.2.trans waiting, nofun, fun _ => void_between tag⟩

private theorem element_enclosed
    (inside : ∀ outer shorter, shorter.length < rest.length → EnclosedAt (.many Grammar.node) outer shorter)
    (other : FailsAt (.call .voidElement) outer rest) : EnclosedAt (.call .element) outer rest := by
  intro frame state verdict after start place works
  refine notes_call works fun begun works => ?_
  refine notes_behind works rfl fun second less stack verdict last works => ?_
  refine notes_behind works rfl fun third noScript stack3 verdict last works => ?_
  refine notes_both works (fun _ _ pushed => notes_push pushed rfl) fun fourth pushed verdict last works => ?_
  obtain ⟨named, tag, rfl⟩ := push_matched pushed
  refine notes_behind works rfl fun fifth fields stack5 verdict last works => ?_
  refine notes_behind works rfl fun sixth greater stack6 verdict last works => ?_
  let waiting : OpenTag := ⟨between third named, ⟨.element, state.begun⟩⟩
  have opened : sixth.stack = waiting :: outer := by
    rw [stack6, stack5, ← start, show state.stack = second.stack from stack.symm, ← stack3, ← works_stack tag rfl]
    rfl
  have ordinary : Ordinary waiting.tag := by
    refine between_ordinary less noScript tag fields greater ?_
    rw [← start, ← place] at other
    exact other
  have nearer : sixth.rest.length < rest.length := by
    have far := (works_farther less (by decide) rfl).2 rfl
    have far3 := (works_farther noScript (by decide) rfl).1
    have far4 := (works_farther tag (by decide) rfl).1
    have far5 := (works_farther fields (by decide) rfl).1
    have far6 := (works_farther greater (by decide) rfl).1
    rw [← place]
    exact far6.trans_lt (far5.trans_lt (far4.trans_lt (far3.trans_lt far)))
  refine notes_both works (fun verdict middle nodes => ?_) fun seventh nodes verdict last works => ?_
  · exact (inside _ _ nearer _ _ _ _ opened rfl nodes).mono fun removal enclosed => enclosed.outwards rfl ordinary
  · refine (takes_closing _ _ _ _ works).mono fun removal noted => ?_
    refine ⟨waiting, [], noted.2.trans ((works_stack nodes rfl).trans opened), nofun, ?_⟩
    rw [noted.1]
    nofun

private theorem node_enclosed
    (inside : ∀ outer shorter, shorter.length < rest.length → EnclosedAt (.many Grammar.node) outer shorter) :
    EnclosedAt Grammar.node outer rest :=
  either_enclosed (quiet_enclosed rfl) fun _ => either_enclosed (quiet_enclosed rfl) fun _ =>
    either_enclosed (quiet_enclosed rfl) fun _ => either_enclosed voidElement_enclosed fun other =>
      either_enclosed (quiet_enclosed rfl) fun _ => either_enclosed (element_enclosed inside other) fun _ =>
        quiet_enclosed rfl

/-- The nodes in an element start behind its opening tag, so there is less of the source left for them. -/
private theorem nodes_enclosed (outer : List OpenTag) (rest : List Char) : EnclosedAt (.many Grammar.node) outer rest := by
  induction length : rest.length using Nat.strong_induction_on generalizing outer rest with
  | _ _ ih =>
    subst length
    have node : EnclosedAt Grammar.node outer rest := node_enclosed fun outer shorter nearer => ih _ nearer outer shorter rfl
    intro frame state verdict after start place works
    cases works with
    | @manyEnds _ _ _ verdict after works _ =>
      exact (node _ state.save _ _ start place works).congr rfl (settled_kept after verdict).2.2
    | @many _ _ _ middle _ _ works later =>
      have first := node _ state.save _ _ start place works
      have nearer : middle.rest.length < rest.length := place ▸ (works_farther works (by decide) rfl).2 rfl
      have stack : middle.stack = outer := (works_stack works rfl).trans start
      exact (first.congr rfl rfl).trans (ih _ nearer outer middle.rest rfl _ middle.forget _ _ stack rfl later)

private theorem template_enclosed : EnclosedAt (.call .template) outer rest := by
  intro frame state verdict after start place works
  refine notes_call works fun begun works => ?_
  exact notes_both works (fun _ _ nodes => nodes_enclosed outer rest _ _ _ _ start place nodes)
    fun _ _ _ _ last => notes_quiet last rfl

end

/-- What the grammar has names for. -/
inductive Production where
  | named (rule : Rule)
  | node
  | comment
  | attributes
  | attributeValue
  | scriptTag
  | gapChar
  | nameChar

def Production.body : Production → Expression
  | .named rule => .call rule
  | .node => Grammar.node
  | .comment => Grammar.comment
  | .attributes => Grammar.attributes
  | .attributeValue => Grammar.attributeValue
  | .scriptTag => Grammar.scriptTag
  | .gapChar => Grammar.gapChar
  | .nameChar => Grammar.nameChar

private theorem production_steady (production : Production) : Steady production.body := by
  cases production with
  | named => nofun
  | _ => decide

private theorem production_held (production : Production) : heldAfter production.body 0 = some 0 := by
  cases production <;> rfl

/-- The scanners of the productions, with what they read inside them. -/
inductive Recognizes (budget : Nat) : {α : Type} → Scanner α → Production → Prop where
  | template : Recognizes budget template (.named .template)
  | endOfInput : Recognizes budget endOfInput (.named .endOfInput)
  | node : Recognizes budget (piece (attributes budget) (forest budget)) .node
  | comment : Recognizes budget comment .comment
  | text : Recognizes budget Markup.text (.named .text)
  | tagName : Recognizes budget tagName (.named .tagName)
  | voidTag : Recognizes budget voidTag (.named .voidTag)
  | nameAndValue : Recognizes budget nameAndValue (.named .attribute)
  | attributes (tag : List Char) : Recognizes budget (attributes budget tag) .attributes
  | scriptTag : Recognizes budget scriptTag .scriptTag
  | emptyScript : Recognizes budget (emptyScript (attributes budget)) (.named .emptyScript)
  | script : Recognizes budget (script (attributes budget)) (.named .script)
  | voidElement : Recognizes budget (voidElement (attributes budget)) (.named .voidElement)
  | selfClosing : Recognizes budget (selfClosing (attributes budget)) (.named .selfClosing)
  | element : Recognizes budget (element (attributes budget) (forest budget)) (.named .element)

private theorem Recognizes.follows {budget : Nat} {scanner : Scanner α} {production : Production} {cursor : Cursor}
    (recognizes : Recognizes budget scanner production) (enough : cursor.left < budget) :
    Follows scanner production.body cursor := by
  have inside (middle : Cursor) (nearer : middle.left < cursor.left) :
      Follows (forest budget) (.many Grammar.node) middle := forest_follows (nearer.trans enough)
  cases recognizes with
  | template => exact template_follows cursor
  | endOfInput => exact endOfInput_follows cursor
  | node => exact piece_follows enough.le inside
  | comment => exact comment_follows cursor
  | text => exact text_follows cursor
  | tagName => exact tagName_follows cursor
  | voidTag => exact voidTag_follows cursor
  | nameAndValue => exact nameAndValue_follows cursor
  | attributes tag => exact attributes_follow tag enough.le
  | scriptTag => exact scriptTag_follows cursor
  | emptyScript => exact emptyScript_follows enough.le
  | script => exact script_follows enough.le
  | voidElement => exact voidElement_follows enough.le
  | selfClosing => exact selfClosing_follows enough.le
  | element => exact element_follows enough.le inside

/-- Void elements come before other elements among the nodes. An element that is run by itself may be void. -/
private theorem production_enclosed {outer : List OpenTag} {rest : List Char} (production : Production)
    (other : production = .named .element → FailsAt (.call .voidElement) outer rest) :
    EnclosedAt production.body outer rest := by
  cases production with
  | named rule =>
    cases rule with
    | template => exact template_enclosed
    | voidElement => exact voidElement_enclosed
    | element => exact element_enclosed (fun outer shorter _ => nodes_enclosed outer shorter) (other rfl)
    | _ => exact quiet_enclosed rfl
  | node => exact node_enclosed fun outer shorter _ => nodes_enclosed outer shorter
  | _ => exact quiet_enclosed rfl

/-- A void element takes its tag off, and no closing tag that an element around it waits for is one that it could take. -/
def Spares (outer : List OpenTag) (removal : Removal) : Prop :=
  removal.frame.rule = .voidElement → ∃ entry around, removal.stack = entry :: (around ++ outer) ∧
    ∀ waiting ∈ around, ∀ gap rest, (∀ c ∈ gap, isGap c = true) → ¬ Closes entry.tag (closingTag waiting.tag gap ++ rest)

private theorem Enclosed.spares {outer : List OpenTag} {removal : Removal} (enclosed : Enclosed outer removal) :
    Spares outer removal := by
  intro voidElement
  obtain ⟨entry, around, stack, inside, void⟩ := enclosed
  refine ⟨entry, around, stack, fun waiting member gap rest gaps => ?_⟩
  exact (SealedMarkup.closing_sealed (inside waiting member).2 gaps rest).stays entry.tag (void voidElement)

/-- How a run of a production keeps the stack in order. -/
structure Disciplined (production : Production) (frame : Frame) (state : State) (verdict : Verdict) (after : State) :
    Prop where
  /-- No tag that is to be compared is missing. -/
  running : verdict ≠ .stopped
  restored : verdict = .matched → after.stack = state.stack
  /-- What is taken off is there, was put on in the same run of a rule, and is not of what was there before. -/
  own : Notes (Removal.Since frame state.stack state) state after
  spares : (production = .named .element → FailsAt (.call .voidElement) state.stack state.rest) →
    Notes (Spares state.stack) state after
  /-- With a stack for each place it comes to the same. -/
  agrees : ∀ scope tracker result noted, Run scope production.body state.cursor tracker result noted →
    result.map Prod.fst = answer verdict after
  scanned : ∀ {α : Type} (budget : Nat) (scanner : Scanner α), state.rest.length < budget →
    Recognizes budget scanner production → (scanner state.cursor).found.map Prod.snd = answer verdict after

/-- Whatever the source, the place and the stack, a run of a production comes to an end, and keeps the stack in order;
and an alternative that fails is undone. -/
theorem productions_disciplined (production : Production) (frame : Frame) (state : State) :
    (∃ verdict after, Works frame production.body state verdict after ∧
      (∀ other last, Works frame production.body state other last → other = verdict ∧ last = after) ∧
      Disciplined production frame state verdict after) ∧
    ∀ alternative last, Works frame alternative state.save .failed last →
      last.back = { state with begun := last.begun, removals := last.removals } := by
  have held := production_held production
  constructor
  · obtain ⟨verdict, after, works⟩ := works_exists frame state (production_steady production) held
    have ordered := works.ordered (holds_none frame state.stack) held
    refine ⟨verdict, after, works, fun other last again => again.unique works, ?_⟩
    refine ⟨ordered.running, ?_, ordered.notes, fun other => ?_, fun _ _ _ _ run => works_answers works held run, ?_⟩
    · rintro rfl
      exact works_stack works held
    · have enclosed := production_enclosed production other _ _ _ _ rfl rfl works
      exact enclosed.mono fun _ => Enclosed.spares
    · intro α budget scanner enough recognizes
      exact works_scanned works held (recognizes.follows enough)
  · intro alternative last failed
    have same := back_of_saved (failed.kept.saved nofun)
    rw [same, failed.kept.rest rfl]
    rfl

end Stencil.Proofs.TagStack
