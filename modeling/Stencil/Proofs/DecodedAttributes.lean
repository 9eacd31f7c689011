import Stencil.Proofs.Literals
import Stencil.Proofs.LiteralScanning

/-! Quoted literals are literals of JSON: they are scanned as the text they were made of, whatever stands
behind them. So the canonical text of an attribute list is an array that can be decoded, and what it
decodes to is the list in the order of the names. -/

namespace Stencil.Proofs.DecodedAttributes
open Text Literals LiteralScanning
open Toml (isHexDigit valueIn)

private theorem control_digits : ∀ code < 32, ['0', '0', hexDigit (code / 16), hexDigit code].all isHexDigit = true ∧
    valueIn 16 ['0', '0', hexDigit (code / 16), hexDigit code] = code := by
  decide

private theorem reads_control {c : Char} (control : c.toNat < 32) :
    Reads json ['\\', 'u', '0', '0', hexDigit (c.toNat / 16), hexDigit c.toNat] [c] := by
  apply reads_escape
  intro rest
  obtain ⟨digits, value⟩ := control_digits c.toNat control
  have valid : c.toNat.isValidChar := .inl (by omega)
  have unit : unit? ('0' :: '0' :: hexDigit (c.toNat / 16) :: hexDigit c.toNat :: rest) = some c.toNat := by
    rw [unit?, if_pos digits, value]
  simp [json, unicode_of_valid unit valid]

private theorem reads_quotedChar (c : Char) : Reads json (quotedChar c) [c] := by
  unfold quotedChar
  split_ifs with quote backslash backspace formFeed lineFeed carriageReturn tab control
  · subst quote; exact reads_escape fun _ => rfl
  · subst backslash; exact reads_escape fun _ => rfl
  · subst backspace; exact reads_escape fun _ => rfl
  · subst formFeed; exact reads_escape fun _ => rfl
  · subst lineFeed; exact reads_escape fun _ => rfl
  · subst carriageReturn; exact reads_escape fun _ => rfl
  · subst tab; exact reads_escape fun _ => rfl
  · exact reads_control control
  · exact reads_plain (by simpa [json] using control) quote backslash

private theorem literal_quotedChars (chars rest : List Char) :
    literal? json (quotedChars chars ++ rest) = some (String.ofList chars, rest) := by
  have read := (reads_flatMap reads_quotedChar chars).literal rest
  simpa [quotedChars] using read

private theorem literal_quoted (text : String) (rest : List Char) :
    literal? json ((quoted text).toList ++ rest) = some (text, rest) := by
  rw [quoted_toList, literal_quotedChars, String.ofList_toList]

theorem quotedChars_append_inj {first second rest rest' : List Char}
    (same : quotedChars first ++ rest = quotedChars second ++ rest') : first = second ∧ rest = rest' := by
  have read := literal_quotedChars first rest
  rw [same, literal_quotedChars, Option.some.injEq, Prod.mk.injEq] at read
  exact ⟨(String.ofList_injective read.1).symm, read.2.symm⟩

private theorem quotedChar_visible {c d : Char} (member : d ∈ quotedChar c) : 0x20 ≤ d.toNat := by
  by_cases escaped : c ∈ escapes
  · have visible : (escapes.all fun c => (quotedChar c).all fun d => 0x20 ≤ d.toNat) = true := by decide +kernel
    simpa using List.all_eq_true.mp (List.all_eq_true.mp visible c escaped) d member
  · rw [quotedChar_kept escaped] at member
    rw [List.mem_singleton.mp member]
    by_contra control
    exact escaped (control_escaped (by omega))

private theorem quoted_visible (text : String) : ∀ c ∈ (quoted text).toList, 0x20 ≤ c.toNat := by
  intro c member
  rw [quoted_toList, quotedChars] at member
  rcases List.mem_cons.mp member with rfl | later
  · decide
  rcases List.mem_append.mp later with inside | last
  · obtain ⟨d, _, written⟩ := List.mem_flatMap.mp inside
    exact quotedChar_visible written
  · rw [List.mem_singleton.mp last]
    decide

/-- What may stand between the items and the marks of an array. -/
def isSpace (c : Char) : Bool := c = ' ' || c = '\t' || c = '\n' || c = '\r'

/-- The items of an array behind its first one, up to the closing bracket, and what is left behind that. -/
def others? : List Char → Option (List String × List Char)
  | [] => none
  | c :: rest =>
    if isSpace c then others? rest
    else if c = ']' then some ([], rest)
    else if c = ',' then
      match _ : literal? json (rest.dropWhile isSpace) with
      | none => none
      | some (item, left) => (others? left).map fun (items, left) => (item :: items, left)
    else none
termination_by chars => chars.length
decreasing_by
  · simp
  · have shorter := literal_shorter ‹_›
    have dropped := (List.dropWhile_sublist isSpace (l := rest)).length_le
    simp only [List.length_cons]
    omega

/-- An array of strings, and what is left behind it. -/
def array? : List Char → Option (List String × List Char)
  | '[' :: rest =>
    match rest.dropWhile isSpace with
    | ']' :: left => some ([], left)
    | inner => do
      let (item, left) ← literal? json inner
      let (items, left) ← others? left
      return (item :: items, left)
  | _ => none

private theorem others_item {rest left : List Char} {item : String}
    (read : literal? json (rest.dropWhile isSpace) = some (item, left)) :
    others? (',' :: rest) = (others? left).map fun (items, left) => (item :: items, left) := by
  rw [others?, if_neg (by decide), if_neg (by decide), if_pos rfl]
  split
  next failed => cases failed.symm.trans read
  next item' left' read' =>
    cases read'.symm.trans read
    rfl

private theorem quoted_unspaced (text : String) (rest : List Char) :
    ((quoted text).toList ++ rest).dropWhile isSpace = (quoted text).toList ++ rest := by
  rw [quoted_toList]
  rfl

private theorem others_read (texts : List String) (rest : List Char) :
    others? (texts.flatMap (fun text => [',', ' '] ++ (quoted text).toList) ++ ']' :: rest) = some (texts, rest) := by
  induction texts with
  | nil =>
    rw [List.flatMap_nil, List.nil_append, others?]
    rfl
  | cons text texts ih =>
    rw [List.flatMap_cons, List.append_assoc, List.append_assoc]
    generalize texts.flatMap (fun text => [',', ' '] ++ (quoted text).toList) ++ ']' :: rest = left at ih ⊢
    have read : literal? json ((' ' :: ((quoted text).toList ++ left)).dropWhile isSpace) = some (text, left) := by
      rw [List.dropWhile_cons_of_pos (by decide), quoted_unspaced, literal_quoted]
    rw [List.cons_append, List.singleton_append, others_item read, ih, Option.map_some]

private theorem array_read (texts : List String) :
    array? ("[" ++ ", ".intercalate (texts.map quoted) ++ "]").toList = some (texts, []) := by
  cases texts with
  | nil => rfl
  | cons text texts =>
    have written : ("[" ++ ", ".intercalate ((text :: texts).map quoted) ++ "]").toList =
        '[' :: ((quoted text).toList ++ (texts.flatMap (fun text => [',', ' '] ++ (quoted text).toList) ++ [']'])) := by
      simp [String.toList_intercalate, intercalate_cons, List.flatMap_map]
    rw [written]
    unfold array?
    simp only [quoted_unspaced]
    split
    next left same =>
      rw [quoted_toList] at same
      cases same
    next =>
      simp only [literal_quoted, others_read, Option.bind_eq_bind, Option.bind_some]
      rfl

/-- Attributes from their names and values in turn. -/
def pairs? : List String → Option (List Attribute)
  | [] => some []
  | [_] => none
  | name :: value :: rest => (pairs? rest).map (⟨name, value⟩ :: ·)

/-- The attributes that are written as an array, with nothing behind it. -/
def attributes? (text : String) : Option (List Attribute) :=
  match array? text.toList with
  | some (items, []) => pairs? items
  | _ => none

private theorem pairs_read (attributes : List Attribute) :
    pairs? (attributes.flatMap fun item => [item.name, item.value]) = some attributes := by
  induction attributes with
  | nil => rfl
  | cons item attributes ih => simp [pairs?, ih]

private theorem attributes_canonical (attributes : List Attribute) :
    attributes? (Attribute.canonical attributes) = some (Attribute.sorted attributes) := by
  unfold attributes?
  rw [Attribute.canonical, items_eq, array_read]
  exact pairs_read _

theorem sorted_perm (attributes : List Attribute) : (Attribute.sorted attributes).Perm attributes :=
  List.mergeSort_perm attributes _

private theorem names_transitive (first second third : Attribute) (one : decide (first.name ≤ second.name) = true)
    (other : decide (second.name ≤ third.name) = true) : decide (first.name ≤ third.name) = true := by
  simp only [decide_eq_true_eq] at one other ⊢
  exact le_trans one other

private theorem names_total (first second : Attribute) :
    (decide (first.name ≤ second.name) || decide (second.name ≤ first.name)) = true := by
  simpa using le_total first.name second.name

theorem sorted_ordered (attributes : List Attribute) :
    (Attribute.sorted attributes).Pairwise fun first second => first.name ≤ second.name := by
  have ordered := List.pairwise_mergeSort names_transitive names_total attributes
  exact ordered.imp of_decide_eq_true

theorem sorted_stable (attributes : List Attribute) (name : String) :
    (Attribute.sorted attributes).filter (·.name = name) = attributes.filter (·.name = name) := by
  have alike : (attributes.filter (·.name = name)).Pairwise fun first second => decide (first.name ≤ second.name) = true := by
    apply List.pairwise_of_forall_mem_list
    intro first member second member'
    simp only [List.mem_filter, decide_eq_true_eq] at member member'
    simp [member.2, member'.2]
  have kept := List.sublist_mergeSort names_transitive names_total alike List.filter_sublist
  have inside : (attributes.filter (·.name = name)).Sublist ((Attribute.sorted attributes).filter (·.name = name)) := by
    simpa [Attribute.sorted] using kept.filter (·.name = name)
  have length := ((sorted_perm attributes).filter (·.name = name)).length_eq
  exact (inside.eq_of_length length.symm).symm

/-- The canonical text of an attribute list forgets the order of the attributes and nothing else. -/
theorem canonical_perm {first second : List Attribute}
    (same : Attribute.canonical first = Attribute.canonical second) : first.Perm second := by
  have sorted : Attribute.sorted first = Attribute.sorted second := by
    apply Option.some.inj
    rw [← attributes_canonical first, same, attributes_canonical]
  exact (sorted_perm first).symm.trans (sorted ▸ sorted_perm second)

/-- The attributes of a list in the order of their names, in which those of one name keep their order. -/
structure Sorts (attributes sorted : List Attribute) : Prop where
  perm : sorted.Perm attributes
  ordered : sorted.Pairwise fun first second => first.name ≤ second.name
  stable : ∀ name, sorted.filter (·.name = name) = attributes.filter (·.name = name)

/-- A quoted literal is scanned as the text it was made of and ends where it did, without a control
character in it. Hence the canonical text of any attribute list decodes to the sorted list. -/
theorem canonical_decodes :
    (∀ text rest, literal? json ((quoted text).toList ++ rest) = some (text, rest)) ∧
      (∀ text, ∀ c ∈ (quoted text).toList, 0x20 ≤ c.toNat) ∧
      ∀ attributes, attributes? (Attribute.canonical attributes) = some (Attribute.sorted attributes) ∧
        Sorts attributes (Attribute.sorted attributes) := by
  refine ⟨literal_quoted, quoted_visible, ?_⟩
  intro attributes
  exact ⟨attributes_canonical attributes, sorted_perm attributes, sorted_ordered attributes, sorted_stable attributes⟩

/-- Values that look like the end of a literal and of the array are decoded like any other. -/
theorem canonical_decodes_marked :
    '\\' ∈ (quoted "\n").toList ∧ 0x20 ≤ '\\'.toNat ∧
      attributes? (Attribute.canonical [⟨"b", "\"]"⟩, ⟨"a", "\x01\", \""⟩]) = some [⟨"a", "\x01\", \""⟩, ⟨"b", "\"]"⟩] := by
  have sorted : Attribute.sorted [⟨"b", "\"]"⟩, ⟨"a", "\x01\", \""⟩] = [⟨"a", "\x01\", \""⟩, ⟨"b", "\"]"⟩] := by
    simp [Attribute.sorted, List.mergeSort, List.MergeSort.Internal.splitInTwo]
  have escaped : '\\' ∈ (quoted "\n").toList := by decide
  refine ⟨escaped, canonical_decodes.2.1 _ _ escaped, ?_⟩
  rw [(canonical_decodes.2.2 _).1, sorted]

end Stencil.Proofs.DecodedAttributes
