import Stencil.Proofs.BalancedCode

/-! The language of the check for balance. The check runs over an expression with a stack of brackets
and the literal it is in, if any. What it accepts is a context-free language: expressions are made of
other characters, of literals, and of expressions between brackets of one kind. -/

namespace Stencil.Proofs.BalancedGrammar
open Directive BalancedCode

def quotes : List Char := ['"', '\'', '\x60']

/-- Brackets that belong together. -/
def brackets : List (Char × Char) := [('(', ')'), ('[', ']'), ('\x7b', '\x7d')]

/-- What stands between the quotes of a literal. -/
inductive Content (quote : Char) : List Char → Prop where
  | empty : Content quote []
  | plain {c : Char} {rest : List Char} (other : c ≠ quote) (other' : c ≠ '\\') (behind : Content quote rest) :
      Content quote (c :: rest)
  | escape {c : Char} {rest : List Char} (behind : Content quote rest) : Content quote ('\\' :: c :: rest)

inductive Literal : List Char → Prop where
  | mk {quote : Char} {content : List Char} (mark : quote ∈ quotes) (inside : Content quote content) :
      Literal (quote :: (content ++ [quote]))

inductive Expression : List Char → Prop where
  | empty : Expression []
  | plain {c : Char} {rest : List Char} (unmarked : c ∉ marks) (behind : Expression rest) : Expression (c :: rest)
  | literal {literal rest : List Char} (own : Literal literal) (behind : Expression rest) : Expression (literal ++ rest)
  | nested {opening closing : Char} {inner rest : List Char} (pair : (opening, closing) ∈ brackets)
      (inside : Expression inner) (behind : Expression rest) : Expression (opening :: (inner ++ closing :: rest))

private theorem isQuote_iff {c : Char} : isQuote c = true ↔ c ∈ quotes := by simp [isQuote, quotes, or_assoc]

private theorem opening_of_pair {opening closing : Char} (pair : (opening, closing) ∈ brackets) :
    isQuote opening = false ∧ isOpening opening = true := by
  have all : brackets.all (fun pair => !isQuote pair.1 && isOpening pair.1) = true := by decide
  simpa using List.all_eq_true.mp all _ pair

private theorem closing_of_pair {opening closing : Char} (pair : (opening, closing) ∈ brackets) :
    isQuote closing = false ∧ isOpening closing = false ∧ openingOf closing = some opening := by
  have all : brackets.all (fun pair => !isQuote pair.2 && !isOpening pair.2 && openingOf pair.2 = some pair.1) = true := by
    decide
  simpa [and_assoc] using List.all_eq_true.mp all _ pair

private theorem pair_of_closing {c bracket : Char} (closing : openingOf c = some bracket) : (bracket, c) ∈ brackets := by
  unfold openingOf at closing
  split_ifs at closing <;> cases closing <;> simp_all [brackets]

private theorem unmarked_of_none {c : Char} (unquoted : ¬ isQuote c = true) (unopened : ¬ isOpening c = true)
    (unclosed : openingOf c = none) : c ∉ marks := by
  unfold openingOf at unclosed
  split_ifs at unclosed
  simp_all [isQuote, isOpening, marks]

private theorem content_stays {quote : Char} {content : List Char} (inside : Content quote content) (stack rest : List Char) :
    balanceFrom (.literal quote) stack (content ++ rest) = balanceFrom (.literal quote) stack rest := by
  induction inside with
  | empty => rfl
  | plain other other' behind ih => rw [List.cons_append, balanceFrom_literal, if_neg other', if_neg other, ih]
  | escape behind ih => rw [List.cons_append, List.cons_append, balanceFrom_literal, if_pos rfl, balanceFrom_escape, ih]

private theorem neutral_of_literal {chars : List Char} (literal : Literal chars) : Neutral chars := by
  obtain @⟨quote, content, mark, inside⟩ := literal
  intro below rest
  have visible : quote ≠ '\\' := by
    rintro rfl
    exact absurd mark (by decide)
  rw [List.cons_append, List.append_assoc, balanceFrom_code, if_pos (isQuote_iff.mpr mark), content_stays inside,
    List.cons_append, balanceFrom_literal, if_neg visible, if_pos rfl]
  rfl

private theorem opening_shifts {opening closing : Char} (pair : (opening, closing) ∈ brackets) :
    Shifts [opening] [] [opening] := by
  intro below rest
  simp [balanceFrom_code, opening_of_pair pair]

private theorem closing_shifts {opening closing : Char} (pair : (opening, closing) ∈ brackets) :
    Shifts [closing] [opening] [] := by
  intro below rest
  simp [balanceFrom_code, closing_of_pair pair]

private theorem neutral_of_expression {chars : List Char} (expression : Expression chars) : Neutral chars := by
  induction expression with
  | empty => exact neutral_nil
  | @plain c rest unmarked _ ih =>
    have alone : Neutral [c] := neutral_unmarked (by simpa using unmarked)
    exact alone.append ih
  | literal own _ ih => exact (neutral_of_literal own).append ih
  | nested pair _ _ within ih =>
    have closed := (within.inside _).append ((closing_shifts pair).append ih)
    exact (opening_shifts pair).append closed

/-- What stands behind the start of an expression in which these brackets are open, innermost first:
the rest of what is in each of them, the bracket that closes it, and in the end an expression. -/
private inductive Closes : List Char → List Char → Prop where
  | closed {chars : List Char} (expression : Expression chars) : Closes [] chars
  | closing {opening closing : Char} {below inner rest : List Char} (pair : (opening, closing) ∈ brackets)
      (inside : Expression inner) (behind : Closes below rest) : Closes (opening :: below) (inner ++ closing :: rest)

private theorem Closes.behind {stack rest : List Char} (closes : Closes stack rest) (front : List Char)
    (grows : ∀ rest, Expression rest → Expression (front ++ rest)) : Closes stack (front ++ rest) := by
  cases closes with
  | closed expression => exact .closed (grows _ expression)
  | closing pair inside behind =>
    rw [← List.append_assoc]
    exact .closing pair (grows _ inside) behind

/-- A bracket that is closed again, with what is behind it, belongs to what it is in. -/
private theorem Closes.opened {opening : Char} {stack rest : List Char} (closes : Closes (opening :: stack) rest) :
    Closes stack (opening :: rest) := by
  obtain _ | @⟨_, closing, _, inner, later, pair, inside, behind⟩ := closes
  have grown := behind.behind (opening :: (inner ++ [closing])) fun rest expression => by
    simpa using Expression.nested pair inside expression
  simpa using grown

/-- The same, from wherever the check stands. -/
private def Completes : Region → List Char → List Char → Prop
  | .code, stack, chars => Closes stack chars
  | .literal quote, stack, chars =>
    ∃ content rest, chars = content ++ quote :: rest ∧ Content quote content ∧ Closes stack rest
  | .escape quote, stack, chars =>
    ∃ c content rest, chars = c :: (content ++ quote :: rest) ∧ Content quote content ∧ Closes stack rest

private theorem completes_of_balance {region : Region} {stack chars : List Char}
    (balanced : balanceFrom region stack chars = .ok ()) : Completes region stack chars := by
  fun_induction balanceFrom region stack chars with
  | case1 => exact .closed .empty
  | case2 | case3 | case4 => cases balanced
  | case5 stack c rest quote ih =>
    obtain ⟨content, later, rfl, inside, closes⟩ := ih balanced
    have grown := closes.behind _ fun _ => Expression.literal (.mk (isQuote_iff.mp quote) inside)
    simpa [Completes] using grown
  | case6 stack c rest _ _ ih => exact (ih balanced).opened
  | case7 stack c rest unquoted unopened unclosed ih =>
    have unmarked := unmarked_of_none unquoted unopened unclosed
    exact (ih balanced).behind [c] fun _ => .plain unmarked
  | case8 c rest _ _ top below closing ih =>
    have closes : Closes (top :: below) ([] ++ c :: rest) := .closing (pair_of_closing closing) .empty (ih balanced)
    exact closes
  | case9 | case10 => cases balanced
  | case11 quote stack rest ih =>
    obtain ⟨c, content, later, rfl, inside, closes⟩ := ih balanced
    exact ⟨'\\' :: c :: content, later, rfl, .escape inside, closes⟩
  | case12 stack quote rest _ ih => exact ⟨[], rest, rfl, .empty, ih balanced⟩
  | case13 quote stack c rest other' other ih =>
    obtain ⟨content, later, rfl, inside, closes⟩ := ih balanced
    exact ⟨c :: content, later, rfl, .plain other other' inside, closes⟩
  | case14 quote stack c rest ih =>
    obtain ⟨content, later, rfl, inside, closes⟩ := ih balanced
    exact ⟨c, content, later, rfl, inside, closes⟩

/-- The check accepts exactly the expressions of the grammar. -/
theorem balance_iff_expression (text : String) : balance text = .ok () ↔ Expression text.toList := by
  constructor
  · intro balanced
    have completes : Closes [] text.toList := completes_of_balance balanced
    cases completes with
    | closed expression => exact expression
  · intro expression
    exact balance_of_neutral (neutral_of_expression expression)

end Stencil.Proofs.BalancedGrammar
