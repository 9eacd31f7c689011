import Mathlib
import Stencil.Markup.Expectation
import Stencil.Markup.Grammar

/-! The grammar as rules, and what it is to run them. A run goes over a part of the source or fails, makes the pairs
that nodes are built from, and keeps track of the rules that failed farthest into the source: also of those in
alternatives that were given up, but not of those inside rules that are read as one piece. A look-ahead turns the
tracking around, since what matches in it was not to. -/

namespace Stencil.Proofs.GrammarRuns
open Markup

/-- What is compared with the source, or with the tags that wait for their closing tag. -/
inductive Terminal where
  | text (chars : List Char)
  | anyCase (chars : List Char)
  | member (isMember : Char → Bool)
  | finish
  | pop
  | drop

def Terminal.read (cursor : Cursor) : Terminal → Option Cursor
  | .text chars => if chars.isPrefixOf cursor.rest then some (cursor.skip chars.length) else none
  | .anyCase chars =>
    if lowerCase (cursor.rest.take chars.length) = chars then some (cursor.skip chars.length) else none
  | .member isMember => if cursor.rest.head?.any isMember then some (cursor.skip 1) else none
  | .finish => if cursor.rest.isEmpty then some cursor else none
  | .pop =>
    match cursor.opened with
    | [] => none
    | tag :: outer =>
      if tag.isPrefixOf cursor.rest then some { cursor.skip tag.length with opened := outer } else none
  | .drop =>
    match cursor.opened with
    | [] => none
    | _ :: outer => some { cursor with opened := outer }

inductive Expression where
  | terminal (terminal : Terminal)
  | both (first second : Expression)
  | either (first second : Expression)
  | optional (inner : Expression)
  | many (inner : Expression)
  | without (inner : Expression)
  | push (inner : Expression)
  | call (rule : Rule)

namespace Expression

def text (word : String) : Expression := .terminal (.text word.toList)

def anyCase (word : List Char) : Expression := .terminal (.anyCase word)

def member (isMember : Char → Bool) : Expression := .terminal (.member isMember)

def any : Expression := member fun _ => true

def sequence : List Expression → Expression
  | [] => text ""
  | [last] => last
  | first :: rest => both first (sequence rest)

def choice : List Expression → Expression
  | [] => text ""
  | [last] => last
  | first :: rest => either first (choice rest)

def some (inner : Expression) : Expression := both inner (many inner)

/-- A character at which something else does not start. -/
def charWithout (stop : Expression) : Expression := both (without stop) any

end Expression

namespace Grammar
open Expression

def gapChar : Expression := choice [text " ", text "\t", text "\r", text "\n"]

def nameChar : Expression := choice [member Char.isAlphanum, text "-", text "_", text ":", text "."]

def scriptTag : Expression := both (anyCase scriptName) (without nameChar)

def attributeValue : Expression :=
  choice [sequence [text "\"", call .doubleQuotedValue, text "\""],
    sequence [text "'", call .singleQuotedValue, text "'"], call .bareValue]

def attributes : Expression := both (many (both (some gapChar) (call .attribute))) (many gapChar)

def comment : Expression := sequence [text "<!--", many (charWithout (text "-->")), text "-->"]

def node : Expression :=
  choice [comment, call .emptyScript, call .script, call .voidElement, call .selfClosing, call .element, call .text]

def closing : Expression := sequence [text "</", .terminal .pop, many gapChar, text ">"]

/-- What a rule stands for. Nothing is read in front of a template, so its start needs no mark. -/
def body : Rule → Expression
  | .endOfInput => .terminal .finish
  | .template => both (many node) (call .endOfInput)
  | .text => some (charWithout (both (text "<") (choice [member Char.isAlpha, text "/", text "!"])))
  | .tagName => both (member Char.isAlpha) (many nameChar)
  | .voidTag => both (choice (voidNames.map anyCase)) (without nameChar)
  | .attributeName =>
    some (charWithout (choice [gapChar, text "=", text ">", text "/", text "\"", text "'", text "<"]))
  | .doubleQuotedValue => many (charWithout (text "\""))
  | .singleQuotedValue => many (charWithout (text "'"))
  | .bareValue =>
    some (charWithout (choice [gapChar, text ">", text "/>", text "\"", text "'", text "=", text "<", text "\x60"]))
  | .attribute =>
    both (call .attributeName) (optional (sequence [many gapChar, text "=", many gapChar, attributeValue]))
  | .script =>
    sequence [text "<", scriptTag, attributes, text ">", call .scriptBody, text "</", anyCase scriptName, many gapChar,
      text ">"]
  | .scriptBody => many (charWithout (both (text "</") (anyCase scriptName)))
  | .emptyScript => sequence [text "<", scriptTag, attributes, text "/>"]
  | .voidElement =>
    sequence [text "<", push (call .voidTag), attributes, optional (text "/"), text ">",
      either (both (many gapChar) closing) (.terminal .drop)]
  | .selfClosing => sequence [text "<", without scriptTag, call .tagName, attributes, text "/>"]
  | .element =>
    sequence [text "<", without scriptTag, push (call .tagName), attributes, text ">", many node, closing]

def isAtomic : Rule → Bool
  | .text | .tagName | .voidTag | .attributeName | .doubleQuotedValue | .singleQuotedValue | .bareValue | .scriptBody =>
    true
  | _ => false

end Grammar

/-- Whether a rule is run in order to match, or in a look-ahead that wants it to match or not to. -/
inductive Mode where
  | plain
  | wanted
  | unwanted
deriving DecidableEq

def Mode.negated : Mode → Mode
  | .unwanted => .wanted
  | _ => .unwanted

structure Scope where
  mode : Mode := .plain
  atomic : Bool := false

/-- The farthest place at which something was noted, by what was left of the source there, the rules that were
expected at it, and those that were not to match. -/
structure Tracker where
  left : Nat
  positives : List Rule
  negatives : List Rule
deriving DecidableEq

namespace Tracker

def count (tracker : Tracker) (left : Nat) : Nat :=
  if left = tracker.left then tracker.positives.length + tracker.negatives.length else 0

/-- Drops what the rules inside a rule have noted at its place, given the tracker from before they were run. -/
def rewound (tracker entered : Tracker) (left : Nat) : Tracker :=
  if left = tracker.left then
    if left = entered.left then
      { tracker with
        positives := tracker.positives.take entered.positives.length
        negatives := tracker.negatives.take entered.negatives.length }
    else { tracker with positives := [], negatives := [] }
  else if left < tracker.left then ⟨left, [], []⟩
  else tracker

/-- Notes a rule at its place, unless exactly one of the rules inside it has been noted there. -/
def track (tracker entered : Tracker) (scope : Scope) (rule : Rule) (left : Nat) : Tracker :=
  if scope.atomic then tracker
  else if tracker.count left = entered.count left + 1 then tracker
  else
    let tracker := tracker.rewound entered left
    if left = tracker.left then
      if scope.mode = .unwanted then { tracker with negatives := tracker.negatives ++ [rule] }
      else { tracker with positives := tracker.positives ++ [rule] }
    else tracker

/-- A rule is noted where it fails, or where it matches but was not to. -/
def ended (tracker entered : Tracker) (scope : Scope) (rule : Rule) (left : Nat) (matched : Bool) : Tracker :=
  if matched = decide (scope.mode = .unwanted) then tracker.track entered scope rule left else tracker

end Tracker

/-- The text that a rule went over, with the pairs of the rules inside it. -/
inductive Pair where
  | mk (rule : Rule) (text : List Char) (inner : List Pair)

def Pair.rule : Pair → Rule
  | .mk rule _ _ => rule

def taken (cursor next : Cursor) : List Char := cursor.rest.take (cursor.left - next.left)

/-- There are no pairs of look-aheads, and none inside atomic rules. -/
def pairsOf (scope : Scope) (rule : Rule) (text : List Char) (inner : List Pair) : List Pair :=
  if scope.mode = .plain ∧ scope.atomic = false then [.mk rule text inner] else inner

inductive Run : Scope → Expression → Cursor → Tracker → Option (Cursor × List Pair) → Tracker → Prop where
  | terminal {scope cursor tracker} (terminal : Terminal) :
      Run scope (.terminal terminal) cursor tracker ((terminal.read cursor).map (·, [])) tracker
  | bothFails {scope one two cursor tracker after} (first : Run scope one cursor tracker none after) :
      Run scope (.both one two) cursor tracker none after
  | both {scope one two cursor tracker middle pairs between result after}
      (first : Run scope one cursor tracker (some (middle, pairs)) between)
      (second : Run scope two middle between result after) :
      Run scope (.both one two) cursor tracker (result.map fun found => (found.1, pairs ++ found.2)) after
  | eitherFirst {scope one two cursor tracker found after} (first : Run scope one cursor tracker (some found) after) :
      Run scope (.either one two) cursor tracker (some found) after
  | eitherSecond {scope one two cursor tracker between result after} (first : Run scope one cursor tracker none between)
      (second : Run scope two cursor between result after) :
      Run scope (.either one two) cursor tracker result after
  | optional {scope one cursor tracker result after} (inner : Run scope one cursor tracker result after) :
      Run scope (.optional one) cursor tracker (some (result.getD (cursor, []))) after
  | manyStops {scope one cursor tracker after} (last : Run scope one cursor tracker none after) :
      Run scope (.many one) cursor tracker (some (cursor, [])) after
  | many {scope one cursor tracker middle pairs between next more after}
      (first : Run scope one cursor tracker (some (middle, pairs)) between)
      (later : Run scope (.many one) middle between (some (next, more)) after) :
      Run scope (.many one) cursor tracker (some (next, pairs ++ more)) after
  | without {scope one cursor tracker result after}
      (inner : Run { scope with mode := scope.mode.negated } one cursor tracker result after) :
      Run scope (.without one) cursor tracker (if result.isSome then none else some (cursor, [])) after
  | push {scope one cursor tracker result after} (inner : Run scope one cursor tracker result after) :
      Run scope (.push one) cursor tracker
        (result.map fun found => ({ found.1 with opened := taken cursor found.1 :: found.1.opened }, found.2)) after
  | call {scope rule cursor tracker result after}
      (inner : Run { scope with atomic := scope.atomic || Grammar.isAtomic rule } (Grammar.body rule) cursor tracker
        result after) :
      Run scope (.call rule) cursor tracker
        (result.map fun found => (found.1, pairsOf scope rule (taken cursor found.1) found.2))
        (after.ended tracker scope rule cursor.left result.isSome)

theorem Run.unique {scope : Scope} {expression : Expression} {cursor : Cursor} {tracker first second : Tracker}
    {one two : Option (Cursor × List Pair)} (left : Run scope expression cursor tracker one first)
    (right : Run scope expression cursor tracker two second) : one = two ∧ first = second := by
  induction left generalizing two second with
  | terminal terminal =>
    cases right
    exact ⟨rfl, rfl⟩
  | bothFails _ ih =>
    cases right with
    | bothFails other => exact ⟨rfl, (ih other).2⟩
    | both other _ => cases (ih other).1
  | both _ _ ihFirst ihSecond =>
    cases right with
    | bothFails other => cases (ihFirst other).1
    | both other later =>
      obtain ⟨same, rfl⟩ := ihFirst other
      cases same
      obtain ⟨rfl, rfl⟩ := ihSecond later
      exact ⟨rfl, rfl⟩
  | eitherFirst _ ih =>
    cases right with
    | eitherFirst other => exact ih other
    | eitherSecond other _ => cases (ih other).1
  | eitherSecond _ _ ihFirst ihSecond =>
    cases right with
    | eitherFirst other => cases (ihFirst other).1
    | eitherSecond other later =>
      obtain ⟨_, rfl⟩ := ihFirst other
      exact ihSecond later
  | optional _ ih =>
    cases right with
    | optional other =>
      obtain ⟨rfl, rfl⟩ := ih other
      exact ⟨rfl, rfl⟩
  | manyStops _ ih =>
    cases right with
    | manyStops other => exact ⟨rfl, (ih other).2⟩
    | many other _ => cases (ih other).1
  | many _ _ ihFirst ihLater =>
    cases right with
    | manyStops other => cases (ihFirst other).1
    | many other later =>
      obtain ⟨same, rfl⟩ := ihFirst other
      cases same
      obtain ⟨same, rfl⟩ := ihLater later
      cases same
      exact ⟨rfl, rfl⟩
  | without _ ih =>
    cases right with
    | without other =>
      obtain ⟨rfl, rfl⟩ := ih other
      exact ⟨rfl, rfl⟩
  | push _ ih =>
    cases right with
    | push other =>
      obtain ⟨rfl, rfl⟩ := ih other
      exact ⟨rfl, rfl⟩
  | call _ ih =>
    cases right with
    | call other =>
      obtain ⟨rfl, rfl⟩ := ih other
      exact ⟨rfl, rfl⟩

theorem Run.many_found {scope : Scope} {expression : Expression} {cursor : Cursor} {tracker after : Tracker}
    {result : Option (Cursor × List Pair)} (run : Run scope (.many expression) cursor tracker result after) :
    result.isSome = true := by
  cases run <;> rfl

/-- Rules that always go over a character. -/
def Rule.advances : Rule → Bool
  | .endOfInput | .template | .doubleQuotedValue | .singleQuotedValue | .scriptBody => false
  | _ => true

def Expression.advances : Expression → Bool
  | .terminal (.text chars) => !chars.isEmpty
  | .terminal (.anyCase chars) => !chars.isEmpty
  | .terminal (.member _) => true
  | .terminal _ => false
  | .both first second => first.advances || second.advances
  | .either first second => first.advances && second.advances
  | .push inner => inner.advances
  | .call rule => Rule.advances rule
  | _ => false

private theorem body_advances (rule : Rule) (sure : Rule.advances rule = true) : (Grammar.body rule).advances = true := by
  cases rule <;> first | rfl | cases sure

/-- A cursor that has not gone back, and has gone on if it had to. -/
def Farther (cursor next : Cursor) (sure : Bool) : Prop :=
  next.left ≤ cursor.left ∧ (sure = true → next.left < cursor.left)

private theorem skip_farther {cursor : Cursor} {chars : List Char} (enough : chars.length ≤ cursor.rest.length) :
    Farther cursor (cursor.skip chars.length) (!chars.isEmpty) := by
  rw [← cursor.left_eq] at enough
  refine ⟨Nat.sub_le _ _, ?_⟩
  intro some
  have positive : 0 < chars.length := List.length_pos_iff.mpr (by simpa using some)
  change cursor.left - chars.length < cursor.left
  omega

private theorem terminal_farther {terminal : Terminal} {cursor next : Cursor} (found : terminal.read cursor = some next) :
    Farther cursor next (Expression.terminal terminal).advances := by
  cases terminal with
  | text chars =>
    simp only [Terminal.read, Option.ite_none_right_eq_some, Option.some.injEq, List.isPrefixOf_iff_prefix] at found
    obtain ⟨starts, rfl⟩ := found
    exact skip_farther starts.length_le
  | anyCase chars =>
    simp only [Terminal.read, Option.ite_none_right_eq_some, Option.some.injEq] at found
    obtain ⟨same, rfl⟩ := found
    apply skip_farther
    have length := congrArg List.length same
    rw [lowerCase, List.length_map, List.length_take] at length
    omega
  | member isMember =>
    simp only [Terminal.read, Option.ite_none_right_eq_some, Option.some.injEq] at found
    obtain ⟨some, rfl⟩ := found
    have enough : 1 ≤ cursor.rest.length := by
      cases split : cursor.rest with
      | nil => simp [split] at some
      | cons c rest => simp
    exact @skip_farther cursor ['a'] enough
  | finish =>
    simp only [Terminal.read, Option.ite_none_right_eq_some, Option.some.injEq] at found
    obtain ⟨_, rfl⟩ := found
    exact ⟨Nat.le_refl _, nofun⟩
  | pop =>
    simp only [Terminal.read] at found
    split at found
    next => cases found
    next =>
      simp only [Option.ite_none_right_eq_some, Option.some.injEq] at found
      obtain ⟨_, rfl⟩ := found
      exact ⟨Nat.sub_le _ _, nofun⟩
  | drop =>
    simp only [Terminal.read] at found
    split at found
    next => cases found
    next =>
      cases found
      exact ⟨Nat.le_refl _, nofun⟩

theorem Run.farther {scope : Scope} {expression : Expression} {cursor next : Cursor} {tracker after : Tracker}
    {pairs : List Pair} (run : Run scope expression cursor tracker (some (next, pairs)) after) :
    Farther cursor next expression.advances := by
  suffices ∀ found, some (next, pairs) = some found → Farther cursor found.1 expression.advances from this _ rfl
  revert run
  generalize some (next, pairs) = result
  intro run
  induction run with
  | terminal terminal =>
    intro found same
    obtain ⟨next, read, rfl⟩ := Option.map_eq_some_iff.mp same
    exact terminal_farther read
  | bothFails => nofun
  | both _ _ ihFirst ihSecond =>
    intro found same
    obtain ⟨inner, reached, rfl⟩ := Option.map_eq_some_iff.mp same
    have first := ihFirst _ rfl
    have second := ihSecond _ reached
    refine ⟨second.1.trans first.1, ?_⟩
    intro sure
    rcases Bool.or_eq_true_iff.mp sure with sure | sure
    · exact second.1.trans_lt (first.2 sure)
    · exact (second.2 sure).trans_le first.1
  | eitherFirst _ ih =>
    intro found same
    have first := ih found same
    exact ⟨first.1, fun sure => first.2 (Bool.and_eq_true_iff.mp sure).1⟩
  | eitherSecond _ _ _ ih =>
    intro found same
    have second := ih found same
    exact ⟨second.1, fun sure => second.2 (Bool.and_eq_true_iff.mp sure).2⟩
  | @optional _ _ cursor _ result _ _ ih =>
    rintro found ⟨⟩
    cases result with
    | none => exact ⟨Nat.le_refl _, nofun⟩
    | some inner => exact ⟨(ih inner rfl).1, nofun⟩
  | manyStops =>
    rintro found ⟨⟩
    exact ⟨Nat.le_refl _, nofun⟩
  | many _ _ ihFirst ihLater =>
    rintro found ⟨⟩
    exact ⟨(ihLater _ rfl).1.trans (ihFirst _ rfl).1, nofun⟩
  | without =>
    intro found same
    split at same
    · cases same
    · cases same
      exact ⟨Nat.le_refl _, nofun⟩
  | push _ ih =>
    intro found same
    obtain ⟨inner, reached, rfl⟩ := Option.map_eq_some_iff.mp same
    exact ih inner reached
  | @call _ rule _ _ _ _ _ ih =>
    intro found same
    obtain ⟨inner, reached, rfl⟩ := Option.map_eq_some_iff.mp same
    have within := ih inner reached
    exact ⟨within.1, fun sure => within.2 (body_advances rule sure)⟩

/-- What building nodes from pairs falls back to where it meets a rule that nodes are not made of, or an element
without a name, or no template at all. -/
inductive Fallback where
  | emptyResult
  | unexpected (rule : Rule)
  | missingName
deriving DecidableEq

def isElement : Rule → Bool
  | .element | .voidElement | .selfClosing => true
  | _ => false

def isName : Rule → Bool
  | .tagName | .voidTag => true
  | _ => false

def isNode (rule : Rule) : Bool := isElement rule || rule = .text || rule = .script || rule = .emptyScript

def isDetail (rule : Rule) : Bool := isName rule || rule = .attribute || rule = .scriptBody

mutual

/-- All that building the node of a pair, and the nodes inside it, may fall back to. -/
def Pair.fallbacks : Pair → List Fallback
  | .mk rule _ inner =>
    if isElement rule then
      (if inner.any fun pair => isName pair.rule then [] else [.missingName]) ++ fallbacksAll isDetail inner
    else if isNode rule then []
    else [.unexpected rule]

def fallbacksAll (passed : Rule → Bool) : List Pair → List Fallback
  | [] => []
  | pair :: rest => (if passed pair.rule then [] else pair.fallbacks) ++ fallbacksAll passed rest

end

/-- The same for the whole result of a run. -/
def fallbacksOf : List Pair → List Fallback
  | [] => [.emptyResult]
  | .mk _ _ inner :: _ => fallbacksAll (· = .endOfInput) inner

/-- The rules that an expression calls itself. -/
def Expression.calls : Expression → List Rule
  | .terminal _ => []
  | .both first second => first.calls ++ second.calls
  | .either first second => first.calls ++ second.calls
  | .optional inner => inner.calls
  | .many inner => inner.calls
  | .without _ => []
  | .push inner => inner.calls
  | .call rule => [rule]

/-- Those of them that it cannot match without. -/
def Expression.needs : Expression → List Rule
  | .both first second => first.needs ++ second.needs
  | .push inner => inner.needs
  | .call rule => [rule]
  | _ => []

private structure Tame (expression : Expression) (pairs : List Pair) : Prop where
  called : ∀ pair ∈ pairs, pair.rule ∈ expression.calls ∧ (isNode pair.rule = true → pair.fallbacks = [])
  needed : ∀ rule ∈ expression.needs, ∃ pair ∈ pairs, pair.rule = rule

theorem fallbacksAll_nil {passed : Rule → Bool} {pairs : List Pair} :
    fallbacksAll passed pairs = [] ↔ ∀ pair ∈ pairs, passed pair.rule = true ∨ pair.fallbacks = [] := by
  induction pairs with
  | nil => simp [fallbacksAll]
  | cons pair rest ih =>
    rw [fallbacksAll, List.append_eq_nil_iff, ih, List.forall_mem_cons]
    cases passed pair.rule <;> simp

private theorem element_calls (rule : Rule) (element : isElement rule = true) :
    ((Grammar.body rule).calls.all fun inner => isDetail inner || isNode inner) = true ∧
      (Grammar.body rule).needs.any isName = true := by
  cases rule <;> first | exact ⟨rfl, rfl⟩ | cases element

private theorem pair_tame {rule : Rule} {text : List Char} {inner : List Pair}
    (tame : isElement rule = true → Tame (Grammar.body rule) inner) (node : isNode rule = true) :
    (Pair.mk rule text inner).fallbacks = [] := by
  rw [Pair.fallbacks]
  split
  next element =>
    obtain ⟨calls, needs⟩ := element_calls rule element
    obtain ⟨called, needed⟩ := tame element
    have named : (inner.any fun pair => isName pair.rule) = true := by
      obtain ⟨name, member, isName⟩ := List.any_eq_true.mp needs
      obtain ⟨pair, inside, rfl⟩ := needed name member
      exact List.any_eq_true.mpr ⟨pair, inside, isName⟩
    rw [if_pos named, List.nil_append, fallbacksAll_nil]
    intro pair inside
    rcases Bool.or_eq_true_iff.mp (List.all_eq_true.mp calls _ (called pair inside).1) with detail | node
    · exact .inl detail
    · exact .inr ((called pair inside).2 node)
  next => rfl

private theorem Run.tame {scope : Scope} {expression : Expression} {cursor : Cursor} {tracker after : Tracker}
    {result : Option (Cursor × List Pair)} (run : Run scope expression cursor tracker result after)
    (plain : scope.mode = .plain) (split : scope.atomic = false) : ∀ found ∈ result, Tame expression found.2 := by
  induction run with
  | terminal terminal =>
    rintro found same
    obtain ⟨next, _, rfl⟩ := Option.map_eq_some_iff.mp same
    exact ⟨nofun, nofun⟩
  | bothFails => nofun
  | both _ _ ihFirst ihSecond =>
    intro found same
    obtain ⟨inner, reached, rfl⟩ := Option.map_eq_some_iff.mp same
    have first := ihFirst plain split _ rfl
    have second := ihSecond plain split _ reached
    constructor
    · refine List.forall_mem_append.mpr ⟨?_, ?_⟩
      · intro pair member
        exact ⟨List.mem_append_left _ (first.called pair member).1, (first.called pair member).2⟩
      · intro pair member
        exact ⟨List.mem_append_right _ (second.called pair member).1, (second.called pair member).2⟩
    · refine List.forall_mem_append.mpr ⟨?_, ?_⟩
      · intro rule needed
        obtain ⟨pair, member, same⟩ := first.needed rule needed
        exact ⟨pair, List.mem_append_left _ member, same⟩
      · intro rule needed
        obtain ⟨pair, member, same⟩ := second.needed rule needed
        exact ⟨pair, List.mem_append_right _ member, same⟩
  | eitherFirst _ ih =>
    intro found same
    have first := ih plain split found same
    refine ⟨?_, nofun⟩
    intro pair member
    exact ⟨List.mem_append_left _ (first.called pair member).1, (first.called pair member).2⟩
  | eitherSecond _ _ _ ih =>
    intro found same
    have second := ih plain split found same
    refine ⟨?_, nofun⟩
    intro pair member
    exact ⟨List.mem_append_right _ (second.called pair member).1, (second.called pair member).2⟩
  | @optional _ _ _ _ result _ _ ih =>
    rintro found ⟨⟩
    cases result with
    | none => exact ⟨nofun, nofun⟩
    | some inner => exact ⟨(ih plain split inner rfl).called, nofun⟩
  | manyStops =>
    rintro found ⟨⟩
    exact ⟨nofun, nofun⟩
  | many _ _ ihFirst ihLater =>
    rintro found ⟨⟩
    have first := ihFirst plain split _ rfl
    have later := ihLater plain split _ rfl
    exact ⟨List.forall_mem_append.mpr ⟨first.called, later.called⟩, nofun⟩
  | without =>
    intro found same
    split at same
    · cases same
    · cases same
      exact ⟨nofun, nofun⟩
  | push _ ih =>
    intro found same
    obtain ⟨inner, reached, rfl⟩ := Option.map_eq_some_iff.mp same
    obtain ⟨called, needed⟩ := ih plain split inner reached
    exact ⟨called, needed⟩
  | @call scope rule cursor _ _ _ run ih =>
    intro found same
    obtain ⟨inner, reached, rfl⟩ := Option.map_eq_some_iff.mp same
    have single : pairsOf scope rule (taken cursor inner.1) inner.2 = [.mk rule (taken cursor inner.1) inner.2] :=
      if_pos ⟨plain, split⟩
    have inside : isElement rule = true → Tame (Grammar.body rule) inner.2 := by
      intro element
      have loose : Grammar.isAtomic rule = false := by cases rule <;> first | rfl | cases element
      exact ih plain (by rw [split, loose]; rfl) inner reached
    rw [single]
    constructor
    · intro pair member
      rw [List.mem_singleton.mp member]
      exact ⟨List.mem_singleton_self rule, pair_tame inside⟩
    · intro needed member
      exact ⟨_, List.mem_singleton_self _, (List.mem_singleton.mp member).symm⟩

theorem Run.of_call {scope : Scope} {rule : Rule} {cursor : Cursor} {tracker after : Tracker}
    {result : Option (Cursor × List Pair)} (run : Run scope (.call rule) cursor tracker result after) :
    ∃ inner between, Run { scope with atomic := scope.atomic || Grammar.isAtomic rule } (Grammar.body rule) cursor tracker
        inner between ∧
      result = inner.map (fun found => (found.1, pairsOf scope rule (taken cursor found.1) found.2)) ∧
      after = between.ended tracker scope rule cursor.left inner.isSome := by
  cases run with
  | call inner => exact ⟨_, _, inner, rfl, rfl⟩

theorem Run.fallbacks {cursor next : Cursor} {tracker after : Tracker} {pairs : List Pair}
    (run : Run {} (.call .template) cursor tracker (some (next, pairs)) after) : fallbacksOf pairs = [] := by
  obtain ⟨inner, _, body, made, _⟩ := run.of_call
  obtain ⟨found, rfl, same⟩ := Option.map_eq_some_iff.mp made.symm
  obtain ⟨rfl, rfl⟩ := Prod.mk.inj same
  have tame := body.tame rfl rfl found rfl
  change fallbacksAll (· = .endOfInput) found.2 = []
  rw [fallbacksAll_nil]
  intro pair member
  obtain ⟨called, node⟩ := tame.called pair member
  have known : ∀ rule ∈ (Grammar.body .template).calls, rule = .endOfInput ∨ isNode rule = true := by decide
  rcases known _ called with final | isNode
  · exact .inl (decide_eq_true final)
  · exact .inr (node isNode)

end Stencil.Proofs.GrammarRuns
