import Stencil.Directive.Balance
import Stencil.Proofs.Literals
import Stencil.Render.Hoist

/-! Opening calls read back from their text. The arguments of a call are told apart by the commas
between them, except for those inside of literals, so the tag, the key and the statics of an element
are seen from the statement that opens it. -/

namespace Stencil.Proofs.OpeningCalls
open Directive Text Literals

/-- Where a character leads from a region. -/
def next : Region → Char → Region
  | .code, c => if isQuote c then .literal c else .code
  | .literal quote, c => if c = '\\' then .escape quote else if c = quote then .code else .literal quote
  | .escape quote, _ => .literal quote

/-- The arguments of a call up to the bracket that closes it, of the first of which a part has been
read. -/
def argumentsFrom : Region → List Char → List Char → Option (List String)
  | _, _, [] => none
  | .code, argument, [')'] => some [String.ofList argument]
  | .code, argument, ',' :: ' ' :: rest => (argumentsFrom .code [] rest).map (String.ofList argument :: ·)
  | region, argument, c :: rest => argumentsFrom (next region c) (argument ++ [c]) rest

def opener : List Char := "elementOpen(".toList

private theorem opener_chars : opener = ['e', 'l', 'e', 'm', 'e', 'n', 't', 'O', 'p', 'e', 'n', '('] := by decide

/-- The arguments of a statement that opens an element. -/
def openingArguments? (statement : String) : Option (List String) :=
  let chars := statement.toList.dropWhile (· = ' ')
  if opener.isPrefixOf chars then argumentsFrom .code [] (chars.drop opener.length) else none

private theorem argumentsFrom_code {c : Char} (bracket : c ≠ ')') (comma : c ≠ ',') (argument rest : List Char) :
    argumentsFrom .code argument (c :: rest) = argumentsFrom (next .code c) (argument ++ [c]) rest := by
  simp [argumentsFrom, bracket, comma]

private theorem argumentsFrom_literal (quote c : Char) (argument rest : List Char) :
    argumentsFrom (.literal quote) argument (c :: rest) =
      argumentsFrom (next (.literal quote) c) (argument ++ [c]) rest := by
  simp [argumentsFrom]

private theorem argumentsFrom_escape (quote c : Char) (argument rest : List Char) :
    argumentsFrom (.escape quote) argument (c :: rest) = argumentsFrom (.literal quote) (argument ++ [c]) rest := by
  simp [argumentsFrom, next]

/-- A text that is part of one argument. -/
def Whole (chars : List Char) : Prop :=
  ∀ argument rest, argumentsFrom .code argument (chars ++ rest) = argumentsFrom .code (argument ++ chars) rest

private theorem Whole.append {first second : List Char} (one : Whole first) (other : Whole second) :
    Whole (first ++ second) := by
  intro argument rest
  rw [List.append_assoc, one, other, List.append_assoc]

/-- What ends an argument or starts a literal in it. -/
def separators : List Char := [')', ',', '"', '\'', '\x60']

theorem whole_plain {chars : List Char} (plain : ∀ c ∈ chars, c ∉ separators) : Whole chars := by
  induction chars with
  | nil => simp [Whole]
  | cons c chars ih =>
    simp only [List.mem_cons, forall_eq_or_imp] at plain
    obtain ⟨here, others⟩ := plain
    simp only [separators, List.mem_cons, List.not_mem_nil, or_false, not_or] at here
    intro argument rest
    rw [List.cons_append, argumentsFrom_code here.1 here.2.1]
    simpa [next, isQuote, here] using ih others (argument ++ [c]) rest

private theorem whole_fixed {chars : List Char} (none : chars.any separators.contains = false) : Whole chars := by
  apply whole_plain
  intro c member separator
  exact List.any_eq_false.mp none c member (List.contains_iff_mem.mpr separator)

private theorem whole_literal {content : List Char}
    (stays : ∀ argument rest, argumentsFrom (.literal '"') argument (content ++ rest) =
      argumentsFrom (.literal '"') (argument ++ content) rest) : Whole ('"' :: (content ++ ['"'])) := by
  intro argument rest
  rw [List.cons_append, argumentsFrom_code (by decide) (by decide), List.append_assoc]
  simp only [next, isQuote, decide_true, Bool.true_or, ite_true]
  rw [stays, List.singleton_append, argumentsFrom_literal]
  simp [next]

private theorem literal_plain {chars : List Char} (plain : ∀ c ∈ chars, c ∉ ['"', '\\']) (argument rest : List Char) :
    argumentsFrom (.literal '"') argument (chars ++ rest) = argumentsFrom (.literal '"') (argument ++ chars) rest := by
  induction chars generalizing argument with
  | nil => simp
  | cons c chars ih =>
    simp only [List.mem_cons, forall_eq_or_imp, List.not_mem_nil, or_false, not_or] at plain
    rw [List.cons_append, argumentsFrom_literal]
    simp only [next, plain.1.1, plain.1.2, ite_false]
    simpa using ih (by simpa using plain.2) (argument ++ [c])

private theorem literal_quotedChar (c : Char) (argument rest : List Char) :
    argumentsFrom (.literal '"') argument (quotedChar c ++ rest) =
      argumentsFrom (.literal '"') (argument ++ quotedChar c) rest := by
  by_cases escaped : c ∈ escapes
  · obtain ⟨code, more, written, plain⟩ := quotedChar_escaped c escaped
    rw [written, List.cons_append, List.cons_append, argumentsFrom_literal, next, if_pos rfl, argumentsFrom_escape,
      literal_plain plain]
    simp
  · rw [quotedChar_kept escaped]
    apply literal_plain
    intro d member
    rw [List.mem_singleton.mp member]
    intro special
    apply escaped
    rcases List.mem_cons.mp special with rfl | backslash
    · decide
    · exact List.mem_singleton.mp backslash ▸ by decide

theorem whole_quoted (text : String) : Whole (quoted text).toList := by
  rw [quoted_toList]
  apply whole_literal
  induction text.toList with
  | nil => simp
  | cons c chars ih =>
    intro argument rest
    rw [List.flatMap_cons, List.append_assoc, literal_quotedChar, ih, List.append_assoc]

private theorem digits_plain {number : Nat} {c : Char} (member : c ∈ number.repr.toList) :
    c ∉ separators ∧ c ∉ ['"', '\\'] := by
  rw [Nat.toList_repr] at member
  have digit := Nat.isDigit_of_mem_toDigits (by decide) (by decide) member
  have separate : separators.any Char.isDigit = false := by decide
  have special : ['"', '\\'].any Char.isDigit = false := by decide
  exact ⟨fun other => List.any_eq_false.mp separate c other digit,
    fun other => List.any_eq_false.mp special c other digit⟩

theorem whole_identifierAt (number : Nat) : Whole (HoistTable.identifierAt number).toList := by
  have digits : Whole number.repr.toList := whole_plain fun c member => (digits_plain member).1
  have front : Whole "hoisted".toList := whole_fixed (by decide)
  simpa [HoistTable.identifierAt] using front.append digits

theorem whole_key (key : Key) : Whole key.text.toList := by
  cases key with
  | token content => exact whole_quoted content
  | iteration => exact whole_fixed (by decide)
  | child ordinal =>
    have front : Whole "$key + ".toList := whole_fixed (by decide)
    have literal : Whole ('"' :: ('_' :: ordinal.repr.toList ++ ['"'])) := by
      apply whole_literal
      apply literal_plain
      simp only [List.mem_cons, forall_eq_or_imp]
      exact ⟨by simp, fun c member => by simpa using (digits_plain member).2⟩
    simpa [Key.text] using front.append literal

private theorem argumentsFrom_call (first : String) (others : List String) (whole : Whole first.toList)
    (rest : ∀ argument ∈ others, Whole argument.toList) :
    argumentsFrom .code [] ((", ".intercalate (first :: others)).toList ++ [')']) = some (first :: others) := by
  induction others generalizing first with
  | nil => simpa [argumentsFrom] using whole [] [')']
  | cons second others ih =>
    simp only [List.mem_cons, forall_eq_or_imp] at rest
    have later := ih second rest.1 rest.2
    have joined : (", ".intercalate (first :: second :: others)).toList ++ [')'] =
        first.toList ++ ',' :: ' ' :: ((", ".intercalate (second :: others)).toList ++ [')']) := by
      simp [intercalate_cons]
    rw [joined, whole, argumentsFrom, later]
    simp

/-- Only the indentation is dropped from a line. -/
theorem line_unindented {depth : Nat} {statement : Statement}
    (visible : statement.source.toList.head? ≠ some ' ') :
    (Line.text ⟨depth, statement⟩).toList.dropWhile (· = ' ') = statement.source.toList := by
  have blanks : ∀ d ∈ List.replicate (2 * depth) ' ', decide (d = ' ') = true := by simp
  rw [Line.text, String.toList_append, String.toList_ofList, List.dropWhile_append_of_pos blanks]
  generalize statement.source.toList = chars at visible
  cases chars with
  | nil => rfl
  | cons c rest =>
    apply List.dropWhile_cons_of_neg
    simpa using visible

/-- The arguments of an opening statement are those that it was written with. -/
theorem openingArguments_openElement (depth : Nat) (tag : String) (key : Option Key) (statics : Option String)
    (whole : ∀ identifier ∈ statics, Whole identifier.toList) :
    openingArguments? (Line.text ⟨depth, .openElement tag key statics⟩) = some (Statement.arguments tag key statics) := by
  have source : (Statement.openElement tag key statics).source.toList =
      opener ++ ((", ".intercalate (Statement.arguments tag key statics)).toList ++ [')']) := by
    simp only [Statement.source_openElement, String.toList_append, List.append_assoc]
    rfl
  have others : ∀ argument ∈ (key.map Key.text).toList ++ statics.toList, Whole argument.toList := by
    intro argument member
    rcases List.mem_append.mp member with isKey | isStatics
    · obtain ⟨own, _, rfl⟩ := Option.map_eq_some_iff.mp (Option.mem_toList.mp isKey)
      exact whole_key own
    · exact whole argument (Option.mem_toList.mp isStatics)
  have visible : (Statement.openElement tag key statics).source.toList.head? ≠ some ' ' := by
    simp [source, opener_chars]
  have front : opener.isPrefixOf (Statement.openElement tag key statics).source.toList = true := by
    rw [source, List.isPrefixOf_iff_prefix]
    exact List.prefix_append _ _
  simp only [openingArguments?, line_unindented visible, front, ite_true]
  rw [source, List.drop_left]
  exact argumentsFrom_call (quoted tag) _ (whole_quoted tag) others

/-- How statements start that open no element. -/
private def fronts : List String := ["elementClose(", "text(", "if (", "\x7d", "__target", ";(", "var ", "var $key = "]

private theorem source_front {statement : Statement}
    (notOpening : ∀ tag key statics, statement ≠ .openElement tag key statics)
    (notScript : ∀ code, statement ≠ .script code) : ∃ front ∈ fronts, ∃ rest, statement.source = front ++ rest := by
  cases statement with
  | openElement tag key statics => exact absurd rfl (notOpening tag key statics)
  | script code => exact absurd rfl (notScript code)
  | closeElement tag =>
    exact ⟨"elementClose(", by simp [fronts], _, by rw [Statement.source_closeElement, String.append_assoc]⟩
  | text content => exact ⟨"text(", by simp [fronts], _, by rw [Statement.source_text, String.append_assoc]⟩
  | openGuard condition => exact ⟨"if (", by simp [fronts], _, by rw [Statement.source_openGuard, String.append_assoc]⟩
  | closeGuard => exact ⟨"\x7d", by simp [fronts], "", rfl⟩
  | setTarget iterable =>
    exact ⟨"__target", by simp [fronts], _, by rw [Statement.source_setTarget, String.append_assoc]⟩
  | openLoop =>
    exact ⟨";(", by simp [fronts], "__target.forEach ? __target : Object.keys(__target)).forEach(" ++
      "function($value, $item, $target) \x7b", rfl⟩
  | bindItem item => exact ⟨"var ", by simp [fronts], _, by rw [Statement.source_bindItem, String.append_assoc]⟩
  | bindKey token key =>
    refine ⟨"var $key = ", by simp [fronts], quoted (token ++ "_") ++ (" + " ++ key.getD "$item"), ?_⟩
    rw [Statement.source_bindKey, String.append_assoc, String.append_assoc]
  | closeLoop => exact ⟨"\x7d", by simp [fronts], ", this)", rfl⟩

/-- No other statement that is generated opens an element. -/
theorem openingArguments_none (depth : Nat) {statement : Statement}
    (notOpening : ∀ tag key statics, statement ≠ .openElement tag key statics)
    (notScript : ∀ code, statement ≠ .script code) :
    openingArguments? (Line.text ⟨depth, statement⟩) = none := by
  obtain ⟨front, member, rest, source⟩ := source_front notOpening notScript
  have start : statement.source.toList.head? ≠ some ' ' ∧ opener.isPrefixOf statement.source.toList = false := by
    rw [source, String.toList_append, opener_chars]
    simp only [fronts, List.mem_cons, List.not_mem_nil, or_false] at member
    rcases member with rfl | rfl | rfl | rfl | rfl | rfl | rfl | rfl <;> simp [List.isPrefixOf]
  simp only [openingArguments?, line_unindented start.1, start.2, Bool.false_eq_true, ite_false]

end Stencil.Proofs.OpeningCalls
