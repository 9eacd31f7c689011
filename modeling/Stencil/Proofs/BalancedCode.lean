import Stencil.Proofs.Literals
import Stencil.Proofs.TemplateReading

/-! What text does to the check for balance, wherever it stands between literals. Text that is
balanced by itself can be put anywhere there without the check noticing it. -/

namespace Stencil.Proofs.BalancedCode
open Directive Text Literals TemplateReading

/-- Between literals, these characters turn the open brackets `before` into `after`, innermost
first. Brackets below are not looked at. -/
def Shifts (chars before after : List Char) : Prop :=
  ∀ below rest, balanceFrom .code (before ++ below) (chars ++ rest) = balanceFrom .code (after ++ below) rest

def Neutral (chars : List Char) : Prop := Shifts chars [] []

theorem Shifts.append {first second before between behind : List Char} (one : Shifts first before between)
    (other : Shifts second between behind) : Shifts (first ++ second) before behind := by
  intro below rest
  rw [List.append_assoc, one, other]

theorem Shifts.concat {first second : String} {before between behind : List Char}
    (one : Shifts first.toList before between) (other : Shifts second.toList between behind) :
    Shifts (first ++ second).toList before behind := by
  rw [String.toList_append]
  exact one.append other

theorem Shifts.inside {chars before after : List Char} (shifts : Shifts chars before after) (outer : List Char) :
    Shifts chars (before ++ outer) (after ++ outer) := by
  intro below rest
  rw [List.append_assoc, List.append_assoc, shifts]

theorem Neutral.inside {chars : List Char} (neutral : Neutral chars) (outer : List Char) : Shifts chars outer outer :=
  Shifts.inside neutral outer

theorem neutral_nil : Neutral [] := fun _ _ => rfl

theorem Neutral.append {first second : List Char} (one : Neutral first) (other : Neutral second) :
    Neutral (first ++ second) := Shifts.append one other

theorem Neutral.concat {first second : String} (one : Neutral first.toList) (other : Neutral second.toList) :
    Neutral (first ++ second).toList := Shifts.concat one other

theorem balanceFrom_code (stack rest : List Char) (c : Char) :
    balanceFrom .code stack (c :: rest) =
      if isQuote c then balanceFrom (.literal c) stack rest
      else if isOpening c then balanceFrom .code (c :: stack) rest
      else match openingOf c with
        | none => balanceFrom .code stack rest
        | some bracket =>
          match stack with
          | top :: below => if top = bracket then balanceFrom .code below rest else .error (.unbalanced c)
          | [] => .error (.unbalanced c) := by
  cases stack <;> rfl

theorem balanceFrom_literal (stack rest : List Char) (quote c : Char) :
    balanceFrom (.literal quote) stack (c :: rest) =
      if c = '\\' then balanceFrom (.escape quote) stack rest
      else if c = quote then balanceFrom .code stack rest
      else balanceFrom (.literal quote) stack rest := rfl

theorem balanceFrom_escape (stack rest : List Char) (quote c : Char) :
    balanceFrom (.escape quote) stack (c :: rest) = balanceFrom (.literal quote) stack rest := rfl

/-- The check goes through balanced text from anywhere in it, whatever is open around it. -/
private theorem balanceFrom_append {region : Region} {stack chars : List Char}
    (balanced : balanceFrom region stack chars = .ok ()) (below rest : List Char) :
    balanceFrom region (stack ++ below) (chars ++ rest) = balanceFrom .code below rest := by
  fun_induction balanceFrom region stack chars <;>
    simp_all [balanceFrom_code, balanceFrom_literal, balanceFrom_escape]

theorem neutral_of_balance {expression : String} (balanced : balance expression = .ok ()) :
    Neutral expression.toList := by
  intro below rest
  exact balanceFrom_append balanced below rest

theorem balance_of_neutral {expression : String} (neutral : Neutral expression.toList) : balance expression = .ok () := by
  have done : balanceFrom .code [] (expression.toList ++ []) = .ok () := neutral [] []
  simpa [balance] using done

private theorem literal_plain {chars : List Char} (plain : ∀ c ∈ chars, c ∉ ['"', '\\']) (stack rest : List Char) :
    balanceFrom (.literal '"') stack (chars ++ rest) = balanceFrom (.literal '"') stack rest := by
  induction chars with
  | nil => rfl
  | cons c chars ih =>
    simp only [List.mem_cons, forall_eq_or_imp, List.not_mem_nil, or_false, not_or] at plain
    simp only [List.cons_append, balanceFrom_literal, plain.1.1, plain.1.2, ite_false]
    exact ih (by simpa using plain.2)

/-- A literal is closed by its last quote if nothing before that ends it. -/
private theorem neutral_literal {content : List Char}
    (stays : ∀ stack rest, balanceFrom (.literal '"') stack (content ++ rest) = balanceFrom (.literal '"') stack rest) :
    Neutral ('"' :: (content ++ ['"'])) := by
  intro below rest
  have inside := stays below ('"' :: rest)
  simpa [balanceFrom_code, balanceFrom_literal, isQuote] using inside

private theorem literal_flatMap {written : Char → List Char}
    (stays : ∀ c stack rest, balanceFrom (.literal '"') stack (written c ++ rest) = balanceFrom (.literal '"') stack rest)
    (chars stack rest : List Char) :
    balanceFrom (.literal '"') stack (chars.flatMap written ++ rest) = balanceFrom (.literal '"') stack rest := by
  induction chars with
  | nil => rfl
  | cons c chars ih => rw [List.flatMap_cons, List.append_assoc, stays, ih]

theorem neutral_plain {content : List Char} (plain : ∀ c ∈ content, c ∉ ['"', '\\']) :
    Neutral ('"' :: (content ++ ['"'])) := neutral_literal (literal_plain plain)

theorem neutral_quoted (text : String) : Neutral (quoted text).toList := by
  rw [quoted_toList]
  apply neutral_literal
  apply literal_flatMap
  intro c stack rest
  by_cases escaped : c ∈ escapes
  · obtain ⟨code, more, written, plain⟩ := quotedChar_escaped c escaped
    rw [written]
    simpa [balanceFrom_literal, balanceFrom_escape] using literal_plain plain stack rest
  · rw [quotedChar_kept escaped]
    apply literal_plain
    intro d member
    rw [List.mem_singleton.mp member]
    intro special
    rcases List.mem_cons.mp special with rfl | backslash
    · exact escaped (by decide)
    · exact escaped (List.mem_singleton.mp backslash ▸ by decide)

theorem neutral_continued (text : String) : Neutral (continued text).toList := by
  unfold continued
  rw [String.toList_ofList]
  apply neutral_literal
  apply literal_flatMap
  intro c stack rest
  unfold continuedChar
  repeat' split
  all_goals simp_all [balanceFrom_literal, balanceFrom_escape]

/-- The brackets that are open behind text without literals, if it closes none that is not open. -/
def shift : List Char → List Char → Option (List Char)
  | stack, [] => some stack
  | stack, c :: rest =>
    if isQuote c then none
    else if isOpening c then shift (c :: stack) rest
    else match openingOf c with
      | none => shift stack rest
      | some bracket =>
        match stack with
        | top :: below => if top = bracket then shift below rest else none
        | [] => none

theorem shifts_of_shift {chars before after : List Char} (computed : shift before chars = some after) :
    Shifts chars before after := by
  intro below rest
  fun_induction shift before chars <;> simp_all [balanceFrom_code]

/-- Quotes and brackets, which are all that the check looks at between literals. -/
def marks : List Char := ['"', '\'', '\x60', '(', '[', '\x7b', ')', ']', '\x7d']

theorem neutral_unmarked {chars : List Char} (unmarked : ∀ c ∈ chars, c ∉ marks) : Neutral chars := by
  induction chars with
  | nil => exact neutral_nil
  | cons c chars ih =>
    simp only [List.mem_cons, forall_eq_or_imp] at unmarked
    obtain ⟨here, others⟩ := unmarked
    simp only [marks, List.mem_cons, List.not_mem_nil, or_false, not_or] at here
    intro below rest
    simpa [balanceFrom_code, isQuote, isOpening, openingOf, here] using ih others below rest

theorem unmarked_identifier {c : Char} (member : continuesIdentifier c = true) : c ∉ marks := by
  have none : marks.any continuesIdentifier = false := by decide
  intro marked
  exact List.any_eq_false.mp none c marked member

theorem continues_of_identifier {chars : List Char} (identifier : isIdentifierChars chars = true) :
    ∀ c ∈ chars, continuesIdentifier c = true := by
  cases chars with
  | nil => simp
  | cons d rest =>
    simp only [isIdentifierChars, Bool.and_eq_true, List.all_eq_true] at identifier
    intro c member
    rcases List.mem_cons.mp member with rfl | later
    · simp [continuesIdentifier, identifier.1]
    · exact identifier.2 c later

theorem neutral_identifier {name : String} (identifier : isIdentifier name = true) : Neutral name.toList := by
  apply neutral_unmarked
  intro c member
  exact unmarked_identifier (continues_of_identifier identifier c member)

theorem readCondition_balanced {text condition : String} (read : readCondition text = .ok condition) :
    balance condition = .ok () := by
  unfold readCondition at read
  split at read
  · cases read
  · simp only [bind_ok, mapError_ok] at read
    obtain ⟨_, balanced, same⟩ := read
    cases same
    simpa [balance] using balanced

/-- What a loop may be made of: a name and expressions that are balanced each by itself. -/
structure Tidy (spec : LoopSpec) : Prop where
  item : isIdentifier spec.item = true
  key : ∀ key ∈ spec.key, balance key = .ok ()
  iterable : balance spec.iterable = .ok ()

private theorem splitLoop_item {chars item iterable : List Char} {key : Option (List Char)}
    (split : splitLoop? chars = some (item, key, iterable)) : isIdentifierChars item = true := by
  unfold splitLoop? at split
  simp only at split
  split at split
  next identifier =>
    split at split
    · obtain ⟨_, _, same⟩ := Option.map_eq_some_iff.mp split
      cases same
      exact identifier
    · obtain ⟨_, _, same⟩ := Option.map_eq_some_iff.mp split
      cases same
      exact identifier
  next => cases split

theorem readLoop_tidy {text : String} {spec : LoopSpec} (read : Directive.readLoop text = .ok spec) : Tidy spec := by
  unfold Directive.readLoop at read
  split at read
  · cases read
  next item key iterable split =>
    have identifier : isIdentifier (String.ofList item) = true := by
      simpa [isIdentifier] using splitLoop_item split
    cases key with
    | none =>
      obtain ⟨_, balanced, same⟩ := bind_ok.mp read
      cases same
      exact ⟨identifier, by simp, by simpa [balance] using mapError_ok.mp balanced⟩
    | some key =>
      obtain ⟨_, keyBalanced, later⟩ := bind_ok.mp read
      obtain ⟨_, balanced, same⟩ := bind_ok.mp later
      cases same
      exact ⟨identifier, by simpa [balance] using mapError_ok.mp keyBalanced,
        by simpa [balance] using mapError_ok.mp balanced⟩

end Stencil.Proofs.BalancedCode
