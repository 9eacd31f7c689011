import Stencil.Proofs.LegibleMarkup

/-! The grammar reads exactly the legible markup. Soundness holds of every scanner with any
budget: the characters it went over are those of the piece, and the piece is legible in front of
what is left. For completeness the alternatives that are tried first have to fail, which they do
because the opening tag of a piece can be read in one way only. -/

namespace Stencil.Proofs.MarkupReading
open Markup Scanner ScannerReading AttributeReading LegibleMarkup

private theorem Behind.boundary {follow : List Char} (behind : Behind follow) : Boundary isNameChar follow := by
  cases behind with
  | gap blank =>
    simp only [isGap, Bool.or_eq_true, decide_eq_true_eq] at blank
    apply boundary_cons.mpr
    rcases blank with ((rfl | rfl) | rfl) | rfl <;> decide
  | greater => exact boundary_cons.mpr (by decide)
  | slash => exact boundary_cons.mpr (by decide)

theorem reads_nameWhere {accepted : List Char → Bool} {cursor next : Cursor} {name : List Char} :
    Reads (nameWhere accepted) cursor name next ↔
      Crosses cursor name next ∧ (∀ c ∈ name, isNameChar c = true) ∧ Boundary isNameChar next.rest ∧
        accepted name = true := by
  simp only [nameWhere, reads_bind, reads_takeWhile, reads_require, reads_pure]
  constructor
  · intro reads
    obtain ⟨_, _, ⟨crosses, members, boundary⟩, _, _, ⟨holds, rfl⟩, rfl, rfl⟩ := reads
    exact ⟨crosses, members, boundary, holds⟩
  · intro given
    obtain ⟨crosses, members, boundary, holds⟩ := given
    exact ⟨name, next, ⟨crosses, members, boundary⟩, (), next, ⟨holds, rfl⟩, rfl, rfl⟩

private theorem reads_notScript {cursor next : Cursor} {done : Unit} :
    Reads notScript cursor done next ↔
      isScriptName (untilStop (fun rest => !(rest.head?.any isNameChar)) cursor.rest) = false ∧ next = cursor := by
  simp only [notScript, reads_bind, reads_lookAhead, reads_require]
  constructor
  · intro reads
    obtain ⟨_, _, ⟨rfl, rfl⟩, other, rfl⟩ := reads
    exact ⟨by simpa using other, rfl⟩
  · intro given
    obtain ⟨other, same⟩ := given
    exact ⟨cursor.rest, cursor, ⟨rfl, rfl⟩, by simpa using other, same⟩

/-- The name that `notScript` looks at is the one that is read behind it. -/
private theorem looked_at {cursor next : Cursor} {name : List Char} (crosses : Crosses cursor name next)
    (members : ∀ c ∈ name, isNameChar c = true) (boundary : Boundary isNameChar next.rest) :
    untilStop (fun rest => !(rest.head?.any isNameChar)) cursor.rest = name := by
  rw [crosses.rest]
  exact untilStop_append (passes_members.mpr members) (ends_members.mpr boundary)

private theorem opened_sound {budget : Nat} {first second third next : Cursor} {tag : List Char} {opening : Opening}
    (less : Crosses first ['<'] second) (named : Crosses second tag third)
    (reads : Reads (attributes budget tag) third opening next) :
    opening.tag = tag ∧ Crosses first opening.write next ∧ ProperOpening opening next.rest := by
  obtain ⟨same, crosses, proper, _⟩ := attributes_sound reads
  refine ⟨same, ?_, proper⟩
  rw [← same] at named
  simpa [Opening.write] using less.trans (named.trans crosses)

private theorem tagEnd_closer (slashed : Bool) (rest : List Char) : Closer (tagEnd slashed ++ rest) := by
  cases slashed with
  | false => exact .greater
  | true => exact .slash

private theorem tagEnd_head (slashed : Bool) (rest : List Char) :
    (tagEnd slashed ++ rest).head? = (tagEnd slashed).head? := by
  cases slashed <;> rfl

/-- The places behind the first character and behind the name of an opening tag, and what makes
its attributes readable from there. -/
private theorem opened_places {cursor next : Cursor} {opening : Opening} {slashed : Bool} {rest : List Char}
    (crosses : Crosses cursor opening.write next) (start : next.rest = tagEnd slashed ++ rest)
    (name : isTagName opening.tag = true) (proper : ProperOpening opening (tagEnd slashed)) :
    ∃ one two, Crosses cursor ['<'] one ∧ Crosses one opening.tag two ∧
      (∀ c ∈ opening.tag, isNameChar c = true) ∧ Boundary isNameChar two.rest ∧
      Crosses two (opening.fields.flatMap Field.write ++ opening.gap) next ∧
      ProperOpening opening next.rest ∧ Closer next.rest := by
  have proper' := proper.ending (tagEnd_head slashed rest).symm
  have closer := tagEnd_closer slashed rest
  rw [← start] at proper' closer
  simp only [Opening.write, List.cons_append, List.append_assoc] at crosses
  obtain ⟨one, less, crosses⟩ := Crosses.cons_iff.mp crosses
  obtain ⟨two, named, inside⟩ := Crosses.append_iff.mp crosses
  refine ⟨one, two, less, named, tagName_chars name, ?_, inside, proper', closer⟩
  rw [inside.rest]
  exact Behind.boundary (opening_behind proper' closer)

/-- An opening tag is read in one way, whatever it belongs to. -/
private theorem opening_unique {first second : Opening} {slashed slashed' : Bool} {firstRest secondRest : List Char}
    (same : first.write ++ (tagEnd slashed ++ firstRest) = second.write ++ (tagEnd slashed' ++ secondRest))
    (firstName : isTagName first.tag = true) (secondName : isTagName second.tag = true)
    (firstProper : ProperOpening first (tagEnd slashed)) (secondProper : ProperOpening second (tagEnd slashed')) :
    first = second ∧ tagEnd slashed ++ firstRest = tagEnd slashed' ++ secondRest := by
  let budget := max first.fields.length second.fields.length
  let scanner : Scanner Opening := do
    exactly ['<']
    attributes budget (← takeWhile isNameChar)
  let cursor : Cursor := { rest := first.write ++ (tagEnd slashed ++ firstRest) }
  have reads : ∀ (opening : Opening) (slashed : Bool) (rest : List Char),
      cursor.rest = opening.write ++ (tagEnd slashed ++ rest) → isTagName opening.tag = true →
      ProperOpening opening (tagEnd slashed) → opening.fields.length ≤ budget →
      Reads scanner cursor opening (movedTo cursor (tagEnd slashed ++ rest)) := by
    intro opening slashed rest start name proper enough
    obtain ⟨one, two, less, named, chars, boundary, inside, proper, closer⟩ :=
      opened_places (Crosses.reach cursor start) rfl name proper
    simp only [scanner, reads_bind, reads_exactly, reads_takeWhile]
    exact ⟨(), one, less, opening.tag, two, ⟨named, chars, boundary⟩,
      attributes_complete inside proper closer enough⟩
  have readsFirst := reads first slashed firstRest rfl firstName firstProper (Nat.le_max_left _ _)
  have readsSecond := reads second slashed' secondRest same secondName secondProper (Nat.le_max_right _ _)
  obtain ⟨equal, places⟩ := reads_unique readsFirst readsSecond
  exact ⟨equal, congrArg Cursor.rest places⟩

theorem comment_sound {cursor next : Cursor} {found : Piece} (reads : Reads comment cursor found next) :
    ∃ content, found = .comment content ∧ Crosses cursor found.write next ∧ Legible found next.rest := by
  simp only [comment, reads_bind, reads_exactly, reads_takeUntil, reads_pure] at reads
  obtain ⟨_, _, opened, content, _, ⟨inside, passes, _⟩, _, _, closed, rfl, rfl⟩ := reads
  refine ⟨content, rfl, ?_, ?_⟩
  · simpa [Piece.write] using opened.trans (inside.trans closed)
  · rw [closed.rest] at passes
    exact passes_comment.mp passes

theorem comment_complete {cursor next : Cursor} {content : List Char}
    (crosses : Crosses cursor (Piece.comment content).write next)
    (legible : Legible (.comment content) next.rest) : Reads comment cursor (.comment content) next := by
  simp only [Piece.write, List.append_assoc] at crosses
  obtain ⟨one, opened, crosses⟩ := Crosses.append_iff.mp crosses
  obtain ⟨two, inside, closed⟩ := Crosses.append_iff.mp crosses
  have passes : Passes closesComment two.rest content := by
    rw [closed.rest]
    exact passes_comment.mpr legible
  have ends : Ends closesComment two.rest := by
    refine Or.inr ?_
    rw [closed.rest]
    simp [closesComment]
  simp only [comment, reads_bind, reads_exactly, reads_takeUntil, reads_pure]
  exact ⟨(), one, opened, content, two, ⟨inside, passes, ends⟩, (), next, closed, rfl, rfl⟩

theorem reads_text {cursor next : Cursor} {found : Piece} :
    Reads text cursor found next ↔
      ∃ content, found = .text content ∧ Crosses cursor content next ∧ Legible found next.rest := by
  simp only [text, reads_bind, reads_named, reads_takeSomeUntil, reads_pure]
  constructor
  · intro reads
    obtain ⟨content, _, ⟨crosses, some, passes, ends⟩, rfl, rfl⟩ := reads
    exact ⟨content, rfl, crosses, some, passes, ends⟩
  · intro given
    obtain ⟨content, same, crosses, legible⟩ := given
    subst same
    exact ⟨content, next, ⟨crosses, legible.1, legible.2.1, legible.2.2⟩, rfl, rfl⟩

theorem emptyScript_sound {budget : Nat} {cursor next : Cursor} {found : Piece}
    (reads : Reads (emptyScript (attributes budget)) cursor found next) :
    ∃ opening, found = .emptyScript opening ∧ Crosses cursor found.write next ∧ Legible found next.rest := by
  simp only [emptyScript, scriptTag, reads_named, reads_bind, reads_exactly, reads_nameWhere, reads_pure] at reads
  obtain ⟨_, _, less, tag, _, ⟨named, _, _, script⟩, opening, _, readsOpening, _, _, ended, rfl, rfl⟩ := reads
  obtain ⟨rfl, opened, proper⟩ := opened_sound less named readsOpening
  rw [ended.rest] at proper
  exact ⟨opening, rfl, opened.trans ended, script, proper.ending rfl⟩

theorem emptyScript_complete {budget : Nat} {cursor next : Cursor} {opening : Opening}
    (crosses : Crosses cursor (Piece.emptyScript opening).write next)
    (legible : Legible (.emptyScript opening) next.rest) (enough : opening.fields.length ≤ budget) :
    Reads (emptyScript (attributes budget)) cursor (.emptyScript opening) next := by
  obtain ⟨script, proper⟩ := legible
  obtain ⟨three, opened, ended⟩ := Crosses.append_iff.mp crosses
  obtain ⟨one, two, less, named, chars, boundary, inside, proper, closer⟩ :=
    opened_places opened (ended.rest : three.rest = tagEnd true ++ next.rest) (script_tagName script) proper
  simp only [emptyScript, scriptTag, reads_named, reads_bind, reads_exactly, reads_nameWhere, reads_pure]
  exact ⟨(), one, less, opening.tag, two, ⟨named, chars, boundary, script⟩, opening, three,
    attributes_complete inside proper closer enough, (), next, ended, rfl, rfl⟩

private theorem reads_closingScriptName {cursor next : Cursor} {name : List Char} :
    Reads closingScriptName cursor name next ↔ Crosses cursor name next ∧ isScriptName name = true := by
  simp only [closingScriptName, reads_bind, reads_lookAhead, reads_require, reads_exactly, reads_pure]
  constructor
  · intro reads
    obtain ⟨_, _, ⟨rfl, rfl⟩, _, _, ⟨script, rfl⟩, _, _, crosses, rfl, rfl⟩ := reads
    exact ⟨crosses, script⟩
  · intro given
    obtain ⟨crosses, script⟩ := given
    have six : name.length = 6 := by
      have same : lowerCase name = scriptName := of_decide_eq_true script
      simpa [lowerCase, scriptName] using congrArg List.length same
    have front : cursor.rest.take 6 = name := by
      rw [crosses.rest, ← six, List.take_left]
    refine ⟨cursor.rest, cursor, ⟨rfl, rfl⟩, (), cursor, ⟨by rwa [front], rfl⟩, (), next, ?_, front, rfl⟩
    rwa [front]

theorem script_sound {budget : Nat} {cursor next : Cursor} {found : Piece}
    (reads : Reads (script (attributes budget)) cursor found next) :
    ∃ opening body tag gap, found = .script opening body tag gap ∧ Crosses cursor found.write next ∧
      Legible found next.rest := by
  simp only [script, scriptTag, reads_named, reads_bind, reads_exactly, reads_nameWhere, reads_takeUntil,
    reads_closingScriptName, reads_gap, reads_pure] at reads
  obtain ⟨_, _, less, tag, _, ⟨named, _, _, script⟩, opening, _, readsOpening, _, _, ended,
    body, _, ⟨inside, passes, _⟩, _, _, slash, closing, _, ⟨second, scriptToo⟩, gap, _, ⟨third, gaps, _⟩,
    _, _, closed, rfl, rfl⟩ := reads
  obtain ⟨rfl, opened, proper⟩ := opened_sound less named readsOpening
  rw [ended.rest] at proper
  rw [slash.rest] at passes
  refine ⟨opening, body, closing, gap, rfl, ?_, script, proper.ending rfl, passes_script.mp passes, scriptToo, gaps⟩
  simpa [Piece.write, closingTag] using
    opened.trans (ended.trans (inside.trans (slash.trans (second.trans (third.trans closed)))))

theorem script_complete {budget : Nat} {cursor next : Cursor} {opening : Opening} {body tag gap : List Char}
    (crosses : Crosses cursor (Piece.script opening body tag gap).write next)
    (legible : Legible (.script opening body tag gap) next.rest) (enough : opening.fields.length ≤ budget) :
    Reads (script (attributes budget)) cursor (.script opening body tag gap) next := by
  obtain ⟨script, proper, lacks, scriptToo, gaps⟩ := legible
  simp only [Piece.write, closingTag, List.append_assoc, List.cons_append] at crosses
  obtain ⟨three, opened, crosses⟩ := Crosses.append_iff.mp crosses
  obtain ⟨four, ended, crosses⟩ := Crosses.cons_iff.mp crosses
  obtain ⟨five, inside, crosses⟩ := Crosses.append_iff.mp crosses
  change Crosses five (['<', '/'] ++ (tag ++ (gap ++ ['>']))) next at crosses
  obtain ⟨six, slash, crosses⟩ := Crosses.append_iff.mp crosses
  obtain ⟨seven, second, crosses⟩ := Crosses.append_iff.mp crosses
  obtain ⟨eight, third, closed⟩ := Crosses.append_iff.mp crosses
  obtain ⟨one, two, less, named, chars, boundary, fields, proper, closer⟩ :=
    opened_places opened (ended.rest : three.rest = tagEnd false ++ four.rest) (script_tagName script) proper
  have passes : Passes closesScript five.rest body := by
    rw [slash.rest]
    exact passes_script.mpr lacks
  have ends : Ends closesScript five.rest := by
    refine Or.inr ?_
    have same : lowerCase tag = scriptName := of_decide_eq_true scriptToo
    have length : tag.length = 6 := by simpa [lowerCase, scriptName] using congrArg List.length same
    rw [slash.rest, second.rest]
    simp only [closesScript, List.cons_append, List.nil_append, decide_eq_true_eq]
    rw [← length, List.take_left, same]
  have atEnd : Boundary isGap eight.rest := by
    rw [closed.rest]
    simp [isGap]
  simp only [Markup.script, scriptTag, reads_named, reads_bind, reads_exactly, reads_nameWhere, reads_takeUntil,
    reads_closingScriptName, reads_gap, reads_pure]
  exact ⟨(), one, less, opening.tag, two, ⟨named, chars, boundary, script⟩, opening, three,
    attributes_complete fields proper closer enough, (), four, ended, body, five, ⟨inside, passes, ends⟩,
    (), six, slash, tag, seven, ⟨second, scriptToo⟩, gap, eight, ⟨third, gaps, atEnd⟩, (), next, closed, rfl, rfl⟩

theorem reads_closing {cursor next : Cursor} {gap : List Char} :
    Reads closing cursor gap next ↔
      ∃ tag, cursor.opened = tag :: next.opened ∧ cursor.rest = closingTag tag gap ++ next.rest ∧
        ∀ c ∈ gap, isGap c = true := by
  simp only [closing, reads_bind, reads_exactly, reads_popTag, reads_gap, reads_pure]
  constructor
  · intro reads
    obtain ⟨_, _, slash, _, _, ⟨tag, waiting, named⟩, _, _, ⟨blanks, gaps, _⟩, _, _, greater, rfl, rfl⟩ := reads
    refine ⟨tag, ?_, ?_, gaps⟩
    · rw [← slash.opened, waiting, greater.opened, blanks.opened]
    · simp [closingTag, slash.rest, named, blanks.rest, greater.rest]
  · intro given
    obtain ⟨tag, waiting, written, gaps⟩ := given
    let one := movedTo cursor (tag ++ (gap ++ ('>' :: next.rest)))
    let two := movedTo next (gap ++ ('>' :: next.rest))
    let three := movedTo next ('>' :: next.rest)
    have slash : Crosses cursor ['<', '/'] one := Crosses.reach cursor (by simp [written, closingTag])
    have blanks : Crosses two gap three := ⟨rfl, rfl⟩
    have greater : Crosses three ['>'] next := ⟨rfl, rfl⟩
    have atEnd : Boundary isGap three.rest := by simp [three, isGap]
    exact ⟨(), one, slash, (), two, ⟨tag, waiting, rfl⟩, gap, three, ⟨blanks, gaps, atEnd⟩, (), next, greater, rfl, rfl⟩

theorem reads_needlessClosing {cursor next : Cursor} {found : Option (List Char × List Char)} :
    Reads needlessClosing cursor found next ↔
      ∃ before gap tag, found = some (before, gap) ∧ (∀ c ∈ before, isGap c = true) ∧
        cursor.opened = tag :: next.opened ∧ cursor.rest = before ++ closingTag tag gap ++ next.rest ∧
        ∀ c ∈ gap, isGap c = true := by
  simp only [needlessClosing, reads_bind, reads_gap, reads_closing, reads_pure]
  constructor
  · intro reads
    obtain ⟨before, _, ⟨blanks, befores, _⟩, gap, _, ⟨tag, waiting, written, gaps⟩, rfl, rfl⟩ := reads
    exact ⟨before, gap, tag, rfl, befores, blanks.opened ▸ waiting, by simp [blanks.rest, written], gaps⟩
  · intro given
    obtain ⟨before, gap, tag, same, befores, waiting, written, gaps⟩ := given
    let one := movedTo cursor (closingTag tag gap ++ next.rest)
    have blanks : Crosses cursor before one := Crosses.reach cursor (by rw [written, List.append_assoc])
    have boundary : Boundary isGap one.rest := by simp [one, closingTag, isGap]
    exact ⟨before, one, ⟨blanks, befores, boundary⟩, gap, next, ⟨tag, waiting, rfl, gaps⟩, same.symm, rfl⟩

theorem reads_tagName {first second third : Cursor} {tag : List Char} {done : Unit} :
    Reads notScript first done second ∧ Reads tagName second tag third ↔
      second = first ∧ Crosses first tag third ∧ (∀ c ∈ tag, isNameChar c = true) ∧ Boundary isNameChar third.rest ∧
        isTagName tag = true ∧ isScriptName tag = false := by
  simp only [tagName, reads_named, reads_nameWhere, reads_notScript]
  constructor
  · intro given
    obtain ⟨⟨other, same⟩, crosses, chars, boundary, name⟩ := given
    subst same
    rw [looked_at crosses chars boundary] at other
    exact ⟨rfl, crosses, chars, boundary, name, other⟩
  · intro given
    obtain ⟨same, crosses, chars, boundary, name, other⟩ := given
    subst same
    rw [looked_at crosses chars boundary]
    exact ⟨⟨other, rfl⟩, crosses, chars, boundary, name⟩

/-- Alone, the rules for elements take void tags as well. -/
private structure Named (tag : List Char) : Prop where
  name : isTagName tag = true
  notScript : isScriptName tag = false

private theorem reads_selfClosing {budget : Nat} {cursor next : Cursor} {found : Piece} :
    Reads (selfClosing (attributes budget)) cursor found next ↔
      ∃ opening, found = .leaf opening .selfClosed ∧ Crosses cursor (opening.write ++ tagEnd true) next ∧
        Named opening.tag ∧ ProperOpening opening (tagEnd true) ∧ opening.fields.length ≤ budget := by
  simp only [selfClosing, reads_named, reads_bind, reads_exactly, reads_pure]
  constructor
  · intro reads
    obtain ⟨_, one, less, _, _, other, tag, two, named, opening, three, readsOpening, _, _, ended, rfl, rfl⟩ := reads
    obtain ⟨rfl, crosses, _, _, name, script⟩ := reads_tagName.mp ⟨other, named⟩
    obtain ⟨rfl, opened, proper⟩ := opened_sound less crosses readsOpening
    obtain ⟨_, _, _, enough⟩ := attributes_sound readsOpening
    rw [ended.rest] at proper
    exact ⟨opening, rfl, opened.trans ended, ⟨name, script⟩, proper.ending rfl, enough⟩
  · intro given
    obtain ⟨opening, same, crosses, tag, proper, enough⟩ := given
    obtain ⟨three, opened, ended⟩ := Crosses.append_iff.mp crosses
    obtain ⟨one, two, less, named, chars, boundary, inside, proper, closer⟩ :=
      opened_places opened ended.rest tag.name proper
    have reads := (@reads_tagName one one two opening.tag ()).mpr
      ⟨rfl, named, chars, boundary, tag.name, tag.notScript⟩
    exact ⟨(), one, less, (), one, reads.1, opening.tag, two, reads.2, opening, three,
      attributes_complete inside proper closer enough, (), next, ended, same.symm, rfl⟩

private theorem reads_slash {slash : Option Unit} {first third : Cursor} :
    (∃ second, Reads (maybe (exactly ['/'])) first slash second ∧ Crosses second ['>'] third) ↔
      Crosses first (tagEnd slash.isSome) third := by
  cases slash with
  | none =>
    simp only [reads_maybe_none, fails_exactly]
    constructor
    · intro given
      obtain ⟨second, ⟨_, same⟩, greater⟩ := given
      exact same ▸ greater
    · intro greater
      refine ⟨first, ⟨?_, rfl⟩, greater⟩
      rw [greater.rest]
      simp [tagEnd]
  | some done =>
    simp only [reads_maybe_some, reads_exactly]
    exact Crosses.cons_iff.symm

/-- What a void element is followed by, where it takes a closing tag and where it does not. -/
private def Redundant (tag : List Char) (rest follow : List Char) : Option (List Char × List Char) → Prop
  | some (before, gap) => (∀ c ∈ before, isGap c = true) ∧ (∀ c ∈ gap, isGap c = true) ∧
      rest = before ++ closingTag tag gap ++ follow
  | none => ¬ Closes tag rest ∧ follow = rest

private theorem reads_redundant {cursor next : Cursor} {tag : List Char} {outer : List (List Char)}
    {found : Option (List Char × List Char)} (waiting : cursor.opened = tag :: outer) :
    Reads (firstOf [needlessClosing, do dropTag; return none]) cursor found next ↔
      next.opened = outer ∧ Redundant tag cursor.rest next.rest found := by
  simp only [firstOf, reads_orElse, fails_iff, reads_needlessClosing, reads_bind, reads_dropTag, reads_pure]
  constructor
  · intro reads
    rcases reads with ⟨before, gap, tag', rfl, befores, opened, written, gaps⟩ | ⟨never, reads⟩
    · rw [waiting] at opened
      obtain ⟨rfl, rfl⟩ := List.cons.inj opened
      exact ⟨rfl, befores, gaps, written⟩
    · rcases reads with ⟨_, _, ⟨tag', opened, rest⟩, rfl, rfl⟩ | ⟨_, impossible⟩
      · rw [waiting] at opened
        obtain ⟨rfl, rfl⟩ := List.cons.inj opened
        refine ⟨rfl, ?_, rest⟩
        intro given
        obtain ⟨before, gap, more, befores, gaps, written⟩ := given
        exact never _ (movedTo _ more) ⟨before, gap, tag, rfl, befores, waiting, written, gaps⟩
      · cases impossible
  · intro given
    obtain ⟨opened, redundant⟩ := given
    subst opened
    cases found with
    | some pair =>
      obtain ⟨before, gap⟩ := pair
      obtain ⟨befores, gaps, written⟩ := redundant
      exact Or.inl ⟨before, gap, tag, rfl, befores, waiting, written, gaps⟩
    | none =>
      obtain ⟨open_, same⟩ := redundant
      refine Or.inr ⟨?_, Or.inl ⟨(), next, ⟨tag, waiting, same⟩, rfl, rfl⟩⟩
      intro _ other given
      obtain ⟨before, gap, tag', _, befores, opened, written, gaps⟩ := given
      rw [waiting] at opened
      obtain ⟨rfl, _⟩ := List.cons.inj opened
      exact open_ ⟨before, gap, other.rest, befores, gaps, written⟩

private theorem reads_voidElement {budget : Nat} {cursor next : Cursor} {found : Piece} :
    Reads (voidElement (attributes budget)) cursor found next ↔
      ∃ opening slashed closing rest, found = .leaf opening (.void slashed closing) ∧
        cursor.rest = opening.write ++ (tagEnd slashed ++ rest) ∧ next.opened = cursor.opened ∧
        isVoidName opening.tag = true ∧ ProperOpening opening (tagEnd slashed) ∧
        opening.fields.length ≤ budget ∧ Redundant opening.tag rest next.rest closing := by
  simp only [voidElement, voidTag, reads_named, reads_bind, reads_exactly, reads_nameWhere, reads_pushTag, reads_pure]
  constructor
  · intro reads
    obtain ⟨_, one, less, tag, two, ⟨named, _, _, void⟩, _, pushed, ⟨same, waiting⟩, opening, three, readsOpening,
      slash, four, optional, _, five, greater, closing, _, choice, rfl, rfl⟩ := reads
    obtain ⟨rfl, inside, proper, enough⟩ := attributes_sound readsOpening
    have ended := reads_slash.mp ⟨four, optional, greater⟩
    have stacked : five.opened = opening.tag :: cursor.opened := by
      rw [ended.opened, inside.opened, waiting, named.opened, less.opened]
    obtain ⟨opened, redundant⟩ := (reads_redundant stacked).mp choice
    rw [ended.rest] at proper
    refine ⟨opening, slash.isSome, closing, five.rest, rfl, ?_, opened, void, ?_, enough, redundant⟩
    · rw [less.rest, named.rest, ← same, inside.rest, ended.rest]
      simp [Opening.write]
    · exact proper.ending (tagEnd_head _ _)
  · intro given
    obtain ⟨opening, slashed, closing, rest, same, written, opened, void, proper, enough, redundant⟩ := given
    have crosses : Crosses cursor opening.write (movedTo cursor (tagEnd slashed ++ rest)) := Crosses.reach cursor written
    obtain ⟨one, two, less, named, chars, boundary, inside, proper, closer⟩ :=
      opened_places crosses rfl (void_tagName void) proper
    let pushed : Cursor := { rest := two.rest, opened := opening.tag :: two.opened }
    let three := movedTo pushed (tagEnd slashed ++ rest)
    let five := movedTo pushed rest
    have insideToo : Crosses pushed (opening.fields.flatMap Field.write ++ opening.gap) three := ⟨inside.rest, rfl⟩
    have ended : Crosses three (tagEnd slashed) five := ⟨rfl, rfl⟩
    have stacked : five.opened = opening.tag :: next.opened := by
      change opening.tag :: two.opened = _
      rw [opened, named.opened, less.opened]
    have flag : (if slashed then some () else none : Option Unit).isSome = slashed := by cases slashed <;> rfl
    obtain ⟨four, optional, greater⟩ := reads_slash.mpr (flag.symm ▸ ended)
    exact ⟨(), one, less, opening.tag, two, ⟨named, chars, boundary, void⟩, (), pushed, ⟨rfl, rfl⟩, opening, three,
      attributes_complete insideToo proper closer enough, _, four, optional, (), five, greater, closing, next,
      (reads_redundant stacked).mpr ⟨rfl, redundant⟩, by rw [same, flag], rfl⟩

/-- An element, given that its content is read without touching the tags that are open. -/
private theorem reads_element {budget : Nat} {children : Scanner (List Piece)} {cursor next : Cursor} {found : Piece}
    (framed : ∀ start pieces stop, Reads children start pieces stop → stop.opened = start.opened) :
    Reads (element (attributes budget) children) cursor found next ↔
      ∃ opening pieces gap start stop, found = .element opening pieces gap ∧
        cursor.rest = opening.write ++ (tagEnd false ++ start.rest) ∧ start.opened = opening.tag :: cursor.opened ∧
        Reads children start pieces stop ∧ stop.rest = closingTag opening.tag gap ++ next.rest ∧
        next.opened = cursor.opened ∧ (∀ c ∈ gap, isGap c = true) ∧ Named opening.tag ∧
        ProperOpening opening (tagEnd false) ∧ opening.fields.length ≤ budget := by
  simp only [element, reads_named, reads_bind, reads_exactly, reads_pushTag, reads_closing, reads_pure]
  constructor
  · intro reads
    obtain ⟨_, one, less, _, _, other, tag, two, named, _, pushed, ⟨same, waiting⟩, opening, three, readsOpening,
      _, start, greater, pieces, stop, readsChildren, gap, _, ⟨closed, popped, written, gaps⟩, rfl, rfl⟩ := reads
    obtain ⟨rfl, crosses, _, _, name, script⟩ := reads_tagName.mp ⟨other, named⟩
    obtain ⟨rfl, inside, proper, enough⟩ := attributes_sound readsOpening
    have stacked : start.opened = opening.tag :: cursor.opened := by
      rw [greater.opened, inside.opened, waiting, crosses.opened, less.opened]
    rw [framed _ _ _ readsChildren, stacked] at popped
    obtain ⟨rfl, opened⟩ := List.cons.inj popped
    rw [greater.rest] at proper
    refine ⟨opening, pieces, gap, start, stop, rfl, ?_, stacked, readsChildren, written, opened.symm, gaps,
      ⟨name, script⟩, proper.ending rfl, enough⟩
    rw [less.rest, crosses.rest, ← same, inside.rest, greater.rest]
    simp [Opening.write, tagEnd]
  · intro given
    obtain ⟨opening, pieces, gap, start, stop, same, written, stacked, readsChildren, closed, opened, gaps, tag,
      proper, enough⟩ := given
    have crosses := Crosses.reach cursor written
    obtain ⟨one, two, less, named, chars, boundary, inside, proper, closer⟩ :=
      opened_places crosses rfl tag.name proper
    have reads := (@reads_tagName one one two opening.tag ()).mpr
      ⟨rfl, named, chars, boundary, tag.name, tag.notScript⟩
    let pushed : Cursor := { rest := two.rest, opened := opening.tag :: two.opened }
    let three := movedTo pushed (tagEnd false ++ start.rest)
    have insideToo : Crosses pushed (opening.fields.flatMap Field.write ++ opening.gap) three := ⟨inside.rest, rfl⟩
    have greater : Crosses three ['>'] start := by
      refine ⟨rfl, ?_⟩
      change start.opened = opening.tag :: two.opened
      rw [stacked, named.opened, less.opened]
    have popped : stop.opened = opening.tag :: next.opened := by
      rw [framed _ _ _ readsChildren, stacked, opened]
    exact ⟨(), one, less, (), one, reads.1, opening.tag, two, reads.2, (), pushed, ⟨rfl, rfl⟩, opening, three,
      attributes_complete insideToo proper closer enough, (), start, greater, pieces, stop, readsChildren, gap, next,
      ⟨opening.tag, popped, closed, gaps⟩, same.symm, rfl⟩

/-- An opening tag comes next, and it ends with or without a slash. -/
structure Heads (cursor : Cursor) (opening : Opening) (slashed : Bool) : Prop where
  name : isTagName opening.tag = true
  proper : ProperOpening opening (tagEnd slashed)
  written : ∃ rest, cursor.rest = opening.write ++ (tagEnd slashed ++ rest)

private theorem Heads.unique {cursor : Cursor} {first second : Opening} {slashed slashed' : Bool}
    (left : Heads cursor first slashed) (right : Heads cursor second slashed') :
    first = second ∧ slashed = slashed' := by
  obtain ⟨rest, written⟩ := left.written
  obtain ⟨rest', written'⟩ := right.written
  obtain ⟨equal, ends⟩ := opening_unique (written.symm.trans written') left.name right.name left.proper right.proper
  refine ⟨equal, ?_⟩
  have first := congrArg List.head? ends
  rw [tagEnd_head, tagEnd_head] at first
  cases slashed <;> cases slashed' <;> simp_all [tagEnd]

private theorem Heads.startsTag {cursor : Cursor} {opening : Opening} {slashed : Bool}
    (heads : Heads cursor opening slashed) : ∃ c rest, cursor.rest = '<' :: c :: rest ∧ c.isAlpha = true := by
  obtain ⟨rest, written⟩ := heads.written
  obtain ⟨c, name, tag, letter⟩ := tagName_head heads.name
  exact ⟨c, _, by simpa [Opening.write, tag] using written, letter⟩

private theorem emptyScript_heads {budget : Nat} {cursor next : Cursor} {found : Piece}
    (reads : Reads (emptyScript (attributes budget)) cursor found next) :
    ∃ opening, Heads cursor opening true ∧ isScriptName opening.tag = true := by
  obtain ⟨opening, rfl, crosses, script, proper⟩ := emptyScript_sound reads
  exact ⟨opening, ⟨script_tagName script, proper, next.rest, by simpa [Piece.write, tagEnd] using crosses.rest⟩, script⟩

private theorem script_heads {budget : Nat} {cursor next : Cursor} {found : Piece}
    (reads : Reads (script (attributes budget)) cursor found next) :
    ∃ opening, Heads cursor opening false ∧ isScriptName opening.tag = true := by
  obtain ⟨opening, body, tag, gap, rfl, crosses, script, proper, _⟩ := script_sound reads
  exact ⟨opening, ⟨script_tagName script, proper, body ++ closingTag tag gap ++ next.rest,
    by simpa [Piece.write, tagEnd] using crosses.rest⟩, script⟩

private theorem void_heads {budget : Nat} {cursor next : Cursor} {found : Piece}
    (reads : Reads (voidElement (attributes budget)) cursor found next) :
    ∃ opening slashed, Heads cursor opening slashed ∧ isVoidName opening.tag = true := by
  obtain ⟨opening, slashed, closing, rest, _, written, _, void, proper, _⟩ := reads_voidElement.mp reads
  exact ⟨opening, slashed, ⟨void_tagName void, proper, rest, written⟩, void⟩

private theorem selfClosing_heads {budget : Nat} {cursor next : Cursor} {found : Piece}
    (reads : Reads (selfClosing (attributes budget)) cursor found next) : ∃ opening, Heads cursor opening true := by
  obtain ⟨opening, _, crosses, tag, proper, _⟩ := reads_selfClosing.mp reads
  exact ⟨opening, tag.name, proper, next.rest, by simpa using crosses.rest⟩

private theorem fails_comment {cursor : Cursor} {opening : Opening} {slashed : Bool}
    (heads : Heads cursor opening slashed) : Fails comment cursor := by
  rw [fails_iff]
  intro found next reads
  obtain ⟨content, rfl, crosses, _⟩ := comment_sound reads
  obtain ⟨c, rest, written, letter⟩ := heads.startsTag
  have bang : c = '!' := by
    have equal := written.symm.trans crosses.rest
    simp [Piece.write] at equal
    exact equal.1
  rw [bang] at letter
  exact absurd letter (by decide)

private theorem fails_scripts (budget : Nat) {cursor : Cursor} {opening : Opening} {slashed : Bool}
    (heads : Heads cursor opening slashed) (other : isScriptName opening.tag = false) :
    Fails (emptyScript (attributes budget)) cursor ∧ Fails (script (attributes budget)) cursor := by
  simp only [fails_iff]
  constructor
  · intro found next reads
    obtain ⟨opening', heads', script⟩ := emptyScript_heads reads
    rw [(heads.unique heads').1, script] at other
    cases other
  · intro found next reads
    obtain ⟨opening', heads', script⟩ := script_heads reads
    rw [(heads.unique heads').1, script] at other
    cases other

private theorem fails_emptyScript {budget : Nat} {cursor : Cursor} {opening : Opening}
    (heads : Heads cursor opening false) : Fails (emptyScript (attributes budget)) cursor := by
  rw [fails_iff]
  intro found next reads
  obtain ⟨_, heads', _⟩ := emptyScript_heads reads
  cases (heads.unique heads').2

private theorem fails_selfClosing {budget : Nat} {cursor : Cursor} {opening : Opening}
    (heads : Heads cursor opening false) : Fails (selfClosing (attributes budget)) cursor := by
  rw [fails_iff]
  intro found next reads
  obtain ⟨_, heads'⟩ := selfClosing_heads reads
  cases (heads.unique heads').2

/-- A void element is read wherever its opening tag stands. -/
theorem fails_voidElement (budget : Nat) {cursor : Cursor} {opening : Opening} {slashed : Bool}
    (heads : Heads cursor opening slashed) (enough : opening.fields.length ≤ budget) :
    Fails (voidElement (attributes budget)) cursor ↔ isVoidName opening.tag = false := by
  constructor
  · intro failed
    by_cases void : isVoidName opening.tag = true
    · obtain ⟨rest, written⟩ := heads.written
      rw [fails_iff] at failed
      by_cases closes : Closes opening.tag rest
      · obtain ⟨before, gap, more, befores, gaps, same⟩ := closes
        exact False.elim (failed _ (movedTo cursor more) (reads_voidElement.mpr ⟨opening, slashed, some (before, gap),
          rest, rfl, written, rfl, void, heads.proper, enough, befores, gaps, same⟩))
      · exact False.elim (failed _ (movedTo cursor rest) (reads_voidElement.mpr ⟨opening, slashed, none,
          rest, rfl, written, rfl, void, heads.proper, enough, closes, rfl⟩))
    · simpa using void
  · intro other
    rw [fails_iff]
    intro found next reads
    obtain ⟨_, _, heads', void⟩ := void_heads reads
    rw [(heads.unique heads').1, void] at other
    cases other

private theorem legible_void {opening : Opening} {slashed : Bool} {closing : Option (List Char × List Char)}
    {cursor next : Cursor} :
    (Crosses cursor (Piece.leaf opening (.void slashed closing)).write next ∧
      Legible (.leaf opening (.void slashed closing)) next.rest) ↔
    ∃ rest, cursor.rest = opening.write ++ (tagEnd slashed ++ rest) ∧ next.opened = cursor.opened ∧
      isVoidName opening.tag = true ∧ ProperOpening opening (tagEnd slashed) ∧
      Redundant opening.tag rest next.rest closing := by
  have ending : ∀ rest, (Piece.leaf opening (.void slashed none)).write ++ rest = opening.write ++ (tagEnd slashed ++ rest) := by
    intro rest
    cases slashed <;> simp [Piece.write, Ending.write, tagEnd]
  cases closing with
  | none =>
    constructor
    · intro given
      obtain ⟨crosses, void, proper, unclosed⟩ := given
      exact ⟨next.rest, (ending _) ▸ crosses.rest, crosses.opened, void, proper, unclosed, rfl⟩
    · intro given
      obtain ⟨rest, written, opened, void, proper, unclosed, same⟩ := given
      subst same
      exact ⟨⟨(ending _).symm ▸ written, opened⟩, void, proper, unclosed⟩
  | some pair =>
    obtain ⟨before, gap⟩ := pair
    have closed : (Piece.leaf opening (.void slashed (some (before, gap)))).write ++ next.rest =
        opening.write ++ (tagEnd slashed ++ (before ++ closingTag opening.tag gap ++ next.rest)) := by
      cases slashed <;> simp [Piece.write, Ending.write, tagEnd]
    constructor
    · intro given
      obtain ⟨crosses, void, proper, befores, gaps⟩ := given
      exact ⟨_, closed ▸ crosses.rest, crosses.opened, void, proper, befores, gaps, rfl⟩
    · intro given
      obtain ⟨rest, written, opened, void, proper, befores, gaps, same⟩ := given
      subst same
      exact ⟨⟨closed.symm ▸ written, opened⟩, void, proper, befores, gaps⟩

/-- What content has to be read as for the elements around it to be read as they are written. -/
private structure Sound (children : Scanner (List Piece)) : Prop where
  crosses : ∀ {start pieces stop}, Reads children start pieces stop → Crosses start (writeAll pieces) stop
  legible : ∀ {start pieces stop}, Reads children start pieces stop → LegibleAll pieces stop.rest

private theorem piece_sound {budget : Nat} {children : Scanner (List Piece)} (sound : Sound children)
    {cursor next : Cursor} {found : Piece} (reads : Reads (piece (attributes budget) children) cursor found next) :
    Crosses cursor found.write next ∧ Legible found next.rest := by
  simp only [piece, firstOf, reads_orElse] at reads
  rcases reads with reads | ⟨_, reads | ⟨_, reads | ⟨_, reads | ⟨noVoid, reads | ⟨_, reads | ⟨_, reads | ⟨_, impossible⟩⟩⟩⟩⟩⟩⟩
  · obtain ⟨content, rfl, crosses, legible⟩ := comment_sound reads
    exact ⟨crosses, legible⟩
  · obtain ⟨opening, rfl, crosses, legible⟩ := emptyScript_sound reads
    exact ⟨crosses, legible⟩
  · obtain ⟨opening, body, tag, gap, rfl, crosses, legible⟩ := script_sound reads
    exact ⟨crosses, legible⟩
  · obtain ⟨opening, slashed, closing, rest, rfl, written, opened, void, proper, _, redundant⟩ :=
      reads_voidElement.mp reads
    exact legible_void.mpr ⟨rest, written, opened, void, proper, redundant⟩
  · obtain ⟨opening, rfl, crosses, tag, proper, enough⟩ := reads_selfClosing.mp reads
    have heads : Heads cursor opening true := ⟨tag.name, proper, next.rest, by simpa using crosses.rest⟩
    exact ⟨crosses, ⟨tag.name, tag.notScript, (fails_voidElement budget heads enough).mp noVoid⟩, proper⟩
  · have framed : ∀ start pieces stop, Reads children start pieces stop → stop.opened = start.opened :=
      fun _ _ _ reads => (sound.crosses reads).opened
    obtain ⟨opening, pieces, gap, start, stop, rfl, written, _, readsChildren, closed, opened, gaps, tag, proper,
      enough⟩ := (reads_element framed).mp reads
    have heads : Heads cursor opening false := ⟨tag.name, proper, start.rest, written⟩
    have inside := sound.crosses readsChildren
    have legible := sound.legible readsChildren
    refine ⟨⟨?_, opened⟩, ⟨tag.name, tag.notScript, (fails_voidElement budget heads enough).mp noVoid⟩, proper, ?_, gaps⟩
    · rw [written, inside.rest, closed]
      simp [Piece.write, tagEnd]
    · rwa [closed] at legible
  · obtain ⟨content, rfl, crosses, legible⟩ := reads_text.mp reads
    exact ⟨crosses, legible⟩
  · cases impossible

/-- Whatever the budget, what is read is legible markup and nothing else. -/
theorem forest_sound (budget : Nat) : Sound (forest budget) := by
  induction budget with
  | zero =>
    constructor
    all_goals
      intro start pieces stop reads
      obtain ⟨rfl, rfl⟩ := reads_pure.mp reads
    · exact Crosses.refl _
    · trivial
  | succ budget ih =>
    have step : ∀ {start pieces stop}, Reads (forest (budget + 1)) start pieces stop →
        Crosses start (writeAll pieces) stop ∧ LegibleAll pieces stop.rest := by
      intro start pieces stop reads
      simp only [forest, reads_bind] at reads
      obtain ⟨optional, middle, maybePiece, rest⟩ := reads
      cases optional with
      | none =>
        obtain ⟨_, rfl⟩ := reads_maybe_none.mp maybePiece
        obtain ⟨rfl, rfl⟩ := reads_pure.mp rest
        exact ⟨Crosses.refl _, trivial⟩
      | some first =>
        simp only [reads_bind, reads_pure] at rest
        obtain ⟨later, _, readsLater, rfl, rfl⟩ := rest
        obtain ⟨head, legible⟩ := piece_sound ih (reads_maybe_some.mp maybePiece)
        have tail := ih.crosses readsLater
        rw [tail.rest] at legible
        exact ⟨head.trans tail, legible, ih.legible readsLater⟩
    exact ⟨fun reads => (step reads).1, fun reads => (step reads).2⟩

/-- The opening tag of a piece and whether it ends with a slash. -/
private def heading : Piece → Option (Opening × Bool)
  | .comment _ | .text _ => none
  | .script opening .. | .element opening .. => some (opening, false)
  | .emptyScript opening | .leaf opening .selfClosed => some (opening, true)
  | .leaf opening (.void slashed _) => some (opening, slashed)

private theorem legible_heads {cursor next : Cursor} {found : Piece} {opening : Opening} {slashed : Bool}
    (crosses : Crosses cursor found.write next) (legible : Legible found next.rest)
    (tagged : heading found = some (opening, slashed)) : Heads cursor opening slashed := by
  cases found with
  | comment _ | text _ => cases tagged
  | script opening body tag gap =>
    cases tagged
    exact ⟨script_tagName legible.1, legible.2.1, _, by simpa [Piece.write, tagEnd] using crosses.rest⟩
  | emptyScript opening =>
    cases tagged
    exact ⟨script_tagName legible.1, legible.2, _, by simpa [Piece.write, tagEnd] using crosses.rest⟩
  | leaf opening ending =>
    cases ending with
    | selfClosed =>
      cases tagged
      exact ⟨legible.1.name, legible.2, _, by simpa [Piece.write, Ending.write, tagEnd] using crosses.rest⟩
    | void slashed closing =>
      cases tagged
      obtain ⟨rest, written, _, void, proper, _⟩ := legible_void.mp ⟨crosses, legible⟩
      exact ⟨void_tagName void, proper, rest, written⟩
  | element opening children gap =>
    cases tagged
    exact ⟨legible.1.name, legible.2.1, _, by simpa [Piece.write, tagEnd] using crosses.rest⟩

/-- No piece starts here: the source ends, or a closing tag comes next. -/
inductive Halts : List Char → Prop where
  | nil : Halts []
  | closing {rest} : Halts ('<' :: '/' :: rest)

private theorem Heads.not_halts {cursor : Cursor} {opening : Opening} {slashed : Bool}
    (heads : Heads cursor opening slashed) : ¬ Halts cursor.rest := by
  obtain ⟨c, rest, written, letter⟩ := heads.startsTag
  rw [written]
  intro halts
  cases halts
  exact absurd letter (by decide)

private theorem text_stays {cursor next : Cursor} {content : List Char}
    (crosses : Crosses cursor (Piece.text content).write next) (legible : Legible (.text content) next.rest) :
    cursor.rest ≠ [] ∧ startsTag cursor.rest = false := by
  obtain ⟨some, passes, _⟩ := legible
  obtain ⟨c, content, rfl⟩ := List.exists_cons_of_ne_nil some
  rw [crosses.rest]
  exact ⟨by simp [Piece.write], passes.1⟩

private theorem fails_piece {budget : Nat} {children : Scanner (List Piece)} (sound : Sound children)
    {cursor : Cursor} (halts : Halts cursor.rest) : Fails (piece (attributes budget) children) cursor := by
  rw [fails_iff]
  intro found next reads
  obtain ⟨crosses, legible⟩ := piece_sound sound reads
  cases tagged : heading found with
  | some pair => exact (legible_heads crosses legible tagged).not_halts halts
  | none =>
    cases found with
    | comment content =>
      rw [crosses.rest] at halts
      simp only [Piece.write] at halts
      cases halts
    | text content =>
      have stays := text_stays crosses legible
      generalize cursor.rest = rest at *
      cases halts with
      | nil => exact stays.1 rfl
      | closing => cases stays.2
    | leaf opening ending => cases ending <;> cases tagged
    | script _ _ _ _ | emptyScript _ | element _ _ _ => cases tagged

private theorem fields_le {opening : Opening} {ending : List Char} (proper : ProperOpening opening ending) :
    opening.fields.length ≤ opening.write.length := by
  have count : ∀ fields : List Field, (∀ field ∈ fields, ProperField field) →
      fields.length ≤ (fields.flatMap Field.write).length := by
    intro fields
    induction fields with
    | nil => simp
    | cons first later ih =>
      intro all
      have rest := ih fun field member => all field (by simp [member])
      have positive := List.length_pos_iff.mpr (all first (by simp)).gap_ne
      simp only [List.flatMap_cons, List.length_append, List.length_cons, Field.write]
      omega
  have bound := count opening.fields proper.fields
  simp only [Opening.write, List.length_append, List.length_cons]
  omega

/-- Content that is legible is read as long as the budget exceeds its length. -/
private def Complete (budget : Nat) (children : Scanner (List Piece)) : Prop :=
  ∀ {start pieces stop}, Crosses start (writeAll pieces) stop → LegibleAll pieces stop.rest → Halts stop.rest →
    (writeAll pieces).length < budget → Reads children start pieces stop

private theorem piece_complete {budget : Nat} {children : Scanner (List Piece)} (sound : Sound children)
    (complete : Complete budget children) {cursor next : Cursor} {found : Piece}
    (crosses : Crosses cursor found.write next) (legible : Legible found next.rest)
    (enough : found.write.length ≤ budget) : Reads (piece (attributes budget) children) cursor found next := by
  have framed : ∀ start pieces stop, Reads children start pieces stop → stop.opened = start.opened :=
    fun _ _ _ reads => (sound.crosses reads).opened
  apply reads_firstOf.mpr
  cases found with
  | comment content => exact ⟨[], comment, _, rfl, by simp, comment_complete crosses legible⟩
  | text content =>
    have stays := text_stays crosses legible
    have untagged : ∀ opening slashed, ¬ Heads cursor opening slashed := by
      intro opening slashed heads
      obtain ⟨c, rest, written, letter⟩ := heads.startsTag
      rw [written] at stays
      simp [startsTag, letter] at stays
    refine ⟨[comment, emptyScript (attributes budget), script (attributes budget), voidElement (attributes budget), selfClosing (attributes budget),
      element (attributes budget) children], text, [], rfl, ?_, reads_text.mpr ⟨content, rfl, crosses, legible⟩⟩
    simp only [List.forall_mem_cons, List.not_mem_nil, false_implies, implies_true, and_true, fails_iff]
    refine ⟨?_, ?_, ?_, ?_, ?_, ?_⟩
    · intro found next reads
      obtain ⟨content, rfl, crosses, _⟩ := comment_sound reads
      rw [crosses.rest] at stays
      simp [Piece.write, startsTag] at stays
    · intro found next reads
      obtain ⟨opening, heads, _⟩ := emptyScript_heads reads
      exact untagged _ _ heads
    · intro found next reads
      obtain ⟨opening, heads, _⟩ := script_heads reads
      exact untagged _ _ heads
    · intro found next reads
      obtain ⟨opening, _, heads, _⟩ := void_heads reads
      exact untagged _ _ heads
    · intro found next reads
      obtain ⟨opening, heads⟩ := selfClosing_heads reads
      exact untagged _ _ heads
    · intro found next reads
      obtain ⟨opening, pieces, gap, start, stop, _, written, _, _, _, _, _, tag, proper, _⟩ := (reads_element framed).mp reads
      exact untagged _ _ ⟨tag.name, proper, _, written⟩
  | script opening body tag gap =>
    have heads := legible_heads crosses legible rfl
    have fields := fields_le heads.proper
    simp only [Piece.write, List.length_append] at enough
    refine ⟨[comment, emptyScript (attributes budget)], script (attributes budget), _, rfl, ?_, script_complete crosses legible (by omega)⟩
    simpa using ⟨fails_comment heads, fails_emptyScript heads⟩
  | emptyScript opening =>
    have heads := legible_heads crosses legible rfl
    have fields := fields_le heads.proper
    simp only [Piece.write, List.length_append] at enough
    refine ⟨[comment], emptyScript (attributes budget), _, rfl, ?_, emptyScript_complete crosses legible (by omega)⟩
    simpa using fails_comment heads
  | leaf opening ending =>
    cases ending with
    | selfClosed =>
      have heads := legible_heads crosses legible rfl
      have fields := fields_le heads.proper
      simp only [Piece.write, List.length_append] at enough
      obtain ⟨tag, proper⟩ := legible
      have scripts := fails_scripts budget heads tag.notScript
      have void := (fails_voidElement budget heads (by omega)).mpr tag.notVoid
      refine ⟨[comment, emptyScript (attributes budget), script (attributes budget), voidElement (attributes budget)], selfClosing (attributes budget), _, rfl, ?_,
        reads_selfClosing.mpr ⟨opening, rfl, crosses, ⟨tag.name, tag.notScript⟩, proper, by omega⟩⟩
      simpa using ⟨fails_comment heads, scripts.1, scripts.2, void⟩
    | void slashed closing =>
      have heads := legible_heads crosses legible rfl
      have fields := fields_le heads.proper
      simp only [Piece.write, List.length_append] at enough
      obtain ⟨rest, written, opened, void, proper, redundant⟩ := legible_void.mp ⟨crosses, legible⟩
      have scripts := fails_scripts budget heads (void_not_script void)
      refine ⟨[comment, emptyScript (attributes budget), script (attributes budget)], voidElement (attributes budget), _, rfl, ?_,
        reads_voidElement.mpr ⟨opening, slashed, closing, rest, rfl, written, opened, void, proper, by omega, redundant⟩⟩
      simpa using ⟨fails_comment heads, scripts.1, scripts.2⟩
  | element opening pieces gap =>
    have heads := legible_heads crosses legible rfl
    have fields := fields_le heads.proper
    simp only [Piece.write, List.length_append, List.length_cons] at enough
    obtain ⟨tag, proper, inside, gaps⟩ := legible
    have scripts := fails_scripts budget heads tag.notScript
    have void := (fails_voidElement budget heads (by omega)).mpr tag.notVoid
    let stop : Cursor := { rest := closingTag opening.tag gap ++ next.rest, opened := opening.tag :: cursor.opened }
    let start := movedTo stop (writeAll pieces ++ stop.rest)
    have readsChildren : Reads children start pieces stop := complete ⟨rfl, rfl⟩ inside .closing (by omega)
    refine ⟨[comment, emptyScript (attributes budget), script (attributes budget), voidElement (attributes budget), selfClosing (attributes budget)],
      element (attributes budget) children, _, rfl, ?_, (reads_element framed).mpr ⟨opening, pieces, gap, start, stop, rfl, ?_, rfl,
        readsChildren, rfl, crosses.opened, gaps, ⟨tag.name, tag.notScript⟩, proper, by omega⟩⟩
    · simpa using ⟨fails_comment heads, scripts.1, scripts.2, void, fails_selfClosing heads⟩
    · rw [crosses.rest]
      simp [Piece.write, tagEnd, start, stop]

theorem piece_nonempty {found : Piece} {follow : List Char} (legible : Legible found follow) : found.write ≠ [] := by
  cases found with
  | text content => exact legible.1
  | comment _ | script _ _ _ _ | emptyScript _ | leaf _ _ | element _ _ _ => simp [Piece.write, Opening.write]

theorem forest_complete (budget : Nat) : Complete budget (forest budget) := by
  induction budget with
  | zero =>
    intro start pieces stop _ _ _ enough
    simp at enough
  | succ budget ih =>
    intro start pieces stop crosses legible halts enough
    simp only [forest, reads_bind]
    cases pieces with
    | nil =>
      simp only [writeAll, Crosses.nil_iff] at crosses
      subst crosses
      exact ⟨none, stop, reads_maybe_none.mpr ⟨fails_piece (forest_sound budget) halts, rfl⟩, reads_pure.mpr ⟨rfl, rfl⟩⟩
    | cons first later =>
      obtain ⟨middle, head, tail⟩ := Crosses.append_iff.mp crosses
      obtain ⟨legibleFirst, legibleLater⟩ := legible
      rw [← tail.rest] at legibleFirst
      have positive := List.length_pos_iff.mpr (piece_nonempty legibleFirst)
      simp only [writeAll, List.length_append] at enough
      have readsFirst := piece_complete (forest_sound budget) ih head legibleFirst (by omega)
      have readsLater := ih tail legibleLater halts (by omega)
      refine ⟨some first, middle, reads_maybe_some.mpr readsFirst, ?_⟩
      simp only [reads_bind, reads_pure]
      exact ⟨later, stop, readsLater, rfl, rfl⟩

/-- A source is read as markup exactly if the markup is legible and was written that way. -/
theorem reads_template {source : List Char} {pieces : List Piece} :
    (∃ next, Reads template { rest := source } pieces next) ↔ source = writeAll pieces ∧ LegibleAll pieces [] := by
  simp only [template, endOfInput, reads_named, reads_bind, reads_lookAhead, reads_require, reads_pure]
  constructor
  · intro given
    obtain ⟨_, reads⟩ := given
    obtain ⟨rest, _, ⟨_, rfl⟩, _, stop, readsForest, _, _, ⟨_, _, ⟨rfl, _⟩, atEnd, _⟩, rfl, _⟩ := reads
    have sound := forest_sound (rest.length + 1)
    have crosses := sound.crosses readsForest
    have legible := sound.legible readsForest
    have ended : stop.rest = [] := by simpa using atEnd
    rw [ended] at legible
    refine ⟨?_, legible⟩
    simpa [ended] using crosses.rest
  · intro given
    obtain ⟨written, legible⟩ := given
    let start : Cursor := { rest := source }
    have crosses : Crosses start (writeAll pieces) (movedTo start []) := Crosses.reach start (by simp [start, written])
    have readsForest := forest_complete (source.length + 1) crosses legible .nil (by simp [written])
    exact ⟨movedTo start [], source, start, ⟨rfl, rfl⟩, pieces, movedTo start [], readsForest, (), movedTo start [],
      ⟨[], movedTo start [], ⟨rfl, rfl⟩, rfl, rfl⟩, rfl, rfl⟩

end Stencil.Proofs.MarkupReading
