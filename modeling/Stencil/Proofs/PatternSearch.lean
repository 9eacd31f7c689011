import Stencil.Proofs.PathComponents

/-! Searches by patterns. A pattern is followed part by part, so all that it finds is below the parts in front of
its first wildcard, which lead to a directory. These parts are the base of the pattern, except that a relative
search leaves out the points that it starts with. -/

namespace Stencil.Proofs.PatternSearch
open FileTree Stencil.Path Build FileLocations PathComponents
open TemplateReading (bind_ok)

def isSpecial (c : Char) : Bool := c = '*' || c = '?' || c = '['

/-- The first part of a pattern is a literal character or something else, as the text has it. -/
private theorem readFrom_cons {position budget : Nat} {before : Option Char} {c : Char} {rest : List Char}
    {pattern : Pattern} (read : Pattern.readFrom position before (budget + 1) (c :: rest) = .ok pattern) :
    (isSpecial c = true ∧ pattern.literal? = none) ∨
      (isSpecial c = false ∧ ∃ later, pattern = .literal c :: later ∧
        Pattern.readFrom (position + 1) (some c) budget rest = .ok later) := by
  unfold Pattern.readFrom at read
  split at read
  next question =>
    obtain ⟨later, _, same⟩ := bind_ok.mp read
    cases same
    exact .inl ⟨by rw [question]; rfl, rfl⟩
  next notQuestion =>
    split at read
    next star =>
      have special : isSpecial c = true := by rw [star]; rfl
      split at read
      next =>
        obtain ⟨later, _, same⟩ := bind_ok.mp read
        cases same
        exact .inl ⟨special, rfl⟩
      next =>
        split at read
        next =>
          split at read
          next =>
            cases read
            exact .inl ⟨special, rfl⟩
          next =>
            obtain ⟨later, _, same⟩ := bind_ok.mp read
            cases same
            exact .inl ⟨special, rfl⟩
          next => cases read
        next => cases read
      next => cases read
    next notStar =>
      split at read
      next bracket =>
        have special : isSpecial c = true := by rw [bracket]; rfl
        split at read
        next => cases read
        next wildcard behind found =>
          obtain ⟨later, _, same⟩ := bind_ok.mp read
          cases same
          refine .inl ⟨special, ?_⟩
          unfold Pattern.class? at found
          split at found
          all_goals
            obtain ⟨_, _, same⟩ := Option.map_eq_some_iff.mp found
            cases same
            rfl
      next notBracket =>
        obtain ⟨later, readLater, same⟩ := bind_ok.mp read
        cases same
        exact .inr ⟨by simp [isSpecial, notQuestion, notStar, notBracket], later, rfl, readLater⟩

private theorem readFrom_literal {position budget : Nat} {before : Option Char} {chars : List Char} {pattern : Pattern}
    (enough : chars.length < budget) (read : Pattern.readFrom position before budget chars = .ok pattern) :
    pattern.literal? = if chars.any isSpecial then none else some chars := by
  induction budget generalizing position before chars pattern with
  | zero => omega
  | succ budget ih =>
    cases chars with
    | nil =>
      cases read
      rfl
    | cons c rest =>
      rw [List.length_cons] at enough
      rcases readFrom_cons read with ⟨special, wild⟩ | ⟨ordinary, later, rfl, readLater⟩
      · rw [wild, List.any_cons, special]
        rfl
      · rw [Pattern.literal?, ih (by omega) readLater, List.any_cons, ordinary, Bool.false_or]
        split <;> rfl

/-- A pattern is the text it was read from, unless that has a wildcard. -/
private theorem read_literal {text : String} {pattern : Pattern} (read : Pattern.read text = .ok pattern) :
    pattern.literal? = if Pattern.isPattern text then none else some text.toList :=
  readFrom_literal (Nat.lt_succ_self _) read

/-- The parts of a pattern in front of the first one with a wildcard. -/
def plainFront : List Pattern → List String
  | [] => []
  | part :: rest =>
    match part.literal? with
    | none => []
    | some name => String.ofList name :: plainFront rest

private def isPlain (segment : String) : Bool := !Pattern.isPattern segment

private theorem mapM_read {segments : List String} {parts : List Pattern}
    (read : segments.mapM Pattern.read = .ok parts) :
    List.Forall₂ (fun segment part => Pattern.read segment = .ok part) segments parts := by
  induction segments generalizing parts with
  | nil =>
    cases read
    exact .nil
  | cons segment segments ih =>
    rw [List.mapM_cons] at read
    obtain ⟨part, readPart, rest⟩ := bind_ok.mp read
    obtain ⟨later, readLater, same⟩ := bind_ok.mp rest
    cases same
    exact .cons readPart (ih readLater)

private theorem plainFront_eq {segments : List String} {parts : List Pattern}
    (read : List.Forall₂ (fun segment part => Pattern.read segment = .ok part) segments parts) :
    plainFront parts = segments.takeWhile isPlain := by
  induction read with
  | nil => rfl
  | @cons segment part segments parts readPart _ ih =>
    have literal := read_literal readPart
    cases wild : Pattern.isPattern segment with
    | true =>
      rw [wild, if_pos rfl] at literal
      rw [plainFront, literal, List.takeWhile_cons_of_neg (by simp [isPlain, wild])]
    | false =>
      rw [wild, if_neg (by simp)] at literal
      rw [plainFront, literal, List.takeWhile_cons_of_pos (by simp [isPlain, wild]), ← ih]
      simp only [String.ofList_toList]

private theorem takeWhile_steps (segments : List String) :
    (steps segments).takeWhile (fun component => !Pattern.isPattern component.text) =
      steps (segments.takeWhile isPlain) := by
  induction segments with
  | nil => rfl
  | cons segment segments ih =>
    cases made : component? segment with
    | none =>
      have idle : segment = "" ∨ segment = "." := by
        unfold component? at made
        split at made
        next idle => exact idle
        next => split at made <;> cases made
      have plain : isPlain segment = true := by rcases idle with rfl | rfl <;> rfl
      rw [List.takeWhile_cons_of_pos plain, steps, steps, List.filterMap_cons_none made, List.filterMap_cons_none made]
      exact ih
    | some component =>
      obtain ⟨text, _⟩ := component?_moves made
      rw [steps, List.filterMap_cons_some made]
      cases plain : isPlain segment with
      | false =>
        rw [List.takeWhile_cons_of_neg (by simpa [text, isPlain] using plain), List.takeWhile_cons_of_neg (by simp [plain])]
        rfl
      | true =>
        rw [List.takeWhile_cons_of_pos (by simpa [text, isPlain] using plain), List.takeWhile_cons_of_pos plain, steps,
          List.filterMap_cons_some made]
        exact congrArg (component :: ·) ih

private theorem any_segmentsOf (text : List Char) :
    text.any isSpecial = (segmentsOf text).any fun segment => segment.any isSpecial := by
  fun_induction segmentsOf text with
  | case1 => rfl
  | case2 rest ih => rw [List.any_cons, List.any_cons, ih]; rfl
  | case3 c rest other none ih => exact absurd none (ParentDirectories.segmentsOf_nonempty rest)
  | case4 c rest other first others split ih =>
    rw [split] at ih
    rw [List.any_cons, ih, List.any_cons, List.any_cons, List.any_cons, Bool.or_assoc]

/-- The parts of a pattern are its segments, apart from a first and a last one that are empty. -/
private theorem partsOf_segments (pattern : String) : ∃ front back,
    (Path.mk pattern).segments = front ++ Glob.partsOf
      (if (Path.mk pattern).isAbsolute then pattern.toList.drop 1 else pattern.toList) ++ back ∧
    (front = [] ∨ front = [""]) ∧ (back = [] ∨ back = [""]) := by
  have whole : ∃ front, (Path.mk pattern).segments = front ++
      (segmentsOf (if (Path.mk pattern).isAbsolute then pattern.toList.drop 1 else pattern.toList)).map String.ofList ∧
      (front = [] ∨ front = [""]) := by
    split
    next absolute =>
      have slash : pattern.toList.head? = some '/' := by simpa [isAbsolute] using absolute
      obtain ⟨rest, split⟩ := List.head?_eq_some_iff.mp slash
      refine ⟨[""], ?_, .inr rfl⟩
      rw [Path.segments, split]
      rfl
    next => exact ⟨[], rfl, .inl rfl⟩
  obtain ⟨front, split, frontKind⟩ := whole
  refine ⟨front, ?_⟩
  rw [split, Glob.partsOf]
  generalize (segmentsOf (if (Path.mk pattern).isAbsolute then pattern.toList.drop 1 else pattern.toList)).map
    String.ofList = segments
  split
  next last =>
    obtain ⟨others, same⟩ := List.getLast?_eq_some_iff.mp last
    refine ⟨[""], ?_, frontKind, .inr rfl⟩
    rw [same, List.dropLast_concat, List.append_assoc]
  next => exact ⟨[], by rw [List.append_nil], frontKind, .inl rfl⟩

private theorem steps_plainBack {back : List String} (kind : back = [] ∨ back = [""]) (segments : List String) :
    steps ((segments ++ back).takeWhile isPlain) = steps (segments.takeWhile isPlain) := by
  have still : steps (back.takeWhile isPlain) = [] := by rcases kind with rfl | rfl <;> rfl
  induction segments with
  | nil => exact still
  | cons segment segments ih =>
    rw [List.cons_append]
    cases plain : isPlain segment with
    | false => rw [List.takeWhile_cons_of_neg (by simp [plain]), List.takeWhile_cons_of_neg (by simp [plain])]
    | true =>
      rw [List.takeWhile_cons_of_pos plain, List.takeWhile_cons_of_pos plain, ← List.singleton_append, steps_append, ih,
        ← steps_append, List.singleton_append]

private theorem literalBase_eq (pattern : String) : literalBase pattern = lead ⟨pattern⟩ ++
    steps ((Glob.partsOf (if (Path.mk pattern).isAbsolute then pattern.toList.drop 1 else pattern.toList)).takeWhile
      isPlain) := by
  have leading : ∀ component ∈ lead ⟨pattern⟩, (!Pattern.isPattern component.text) = true := by
    obtain ⟨_, _, _, _, _, kind | kind | kind⟩ := lead_splits ⟨pattern⟩
    all_goals
      rw [kind]
      decide
  obtain ⟨front, back, split, frontKind, backKind⟩ := partsOf_segments pattern
  rw [literalBase, components_eq, List.takeWhile_append_of_pos leading, takeWhile_steps, split, List.append_assoc]
  rcases frontKind with rfl | rfl
  · rw [List.nil_append, steps_plainBack backKind]
  · rw [List.singleton_append, List.takeWhile_cons_of_pos rfl, ← List.singleton_append, steps_append,
      steps_plainBack backKind]
    rfl

private theorem parts_read {segments : List String} {parts : List Pattern}
    (read : List.Forall₂ (fun segment part => Pattern.read segment = .ok part) segments parts) :
    (∀ part ∈ parts, ∃ segment ∈ segments, Pattern.read segment = .ok part) ∧
      ∀ segment ∈ segments, ∃ part ∈ parts, Pattern.read segment = .ok part := by
  induction read with
  | nil => exact ⟨nofun, nofun⟩
  | cons readPart _ ih =>
    constructor
    · refine List.forall_mem_cons.mpr ⟨⟨_, List.mem_cons_self, readPart⟩, ?_⟩
      intro part member
      obtain ⟨segment, inside, readLater⟩ := ih.1 part member
      exact ⟨segment, List.mem_cons_of_mem _ inside, readLater⟩
    · refine List.forall_mem_cons.mpr ⟨⟨_, List.mem_cons_self, readPart⟩, ?_⟩
      intro segment member
      obtain ⟨part, inside, readLater⟩ := ih.2 segment member
      exact ⟨part, List.mem_cons_of_mem _ inside, readLater⟩

/-- A pattern as it is read. -/
private structure Understood (pattern : String) (glob : Glob) : Prop where
  start : glob.start = if (Path.mk pattern).isAbsolute then ⟨"/"⟩ else Glob.here
  base : literalBase pattern = lead ⟨pattern⟩ ++ steps (plainFront glob.parts)
  plain : ∀ part ∈ glob.parts, ∀ name, part.literal? = some name → '/' ∉ name
  wild : Pattern.isPattern pattern = true → ∃ part ∈ glob.parts, part.literal? = none

private theorem read_understood {pattern : String} {glob : Glob} (read : Glob.read pattern = .ok glob) :
    Understood pattern glob := by
  obtain ⟨_, _, rest⟩ := bind_ok.mp read
  obtain ⟨parts, readParts, same⟩ := bind_ok.mp rest
  cases same
  obtain ⟨front, back, split, frontKind, backKind⟩ := partsOf_segments pattern
  have base := literalBase_eq pattern
  generalize Glob.partsOf (if (Path.mk pattern).isAbsolute then pattern.toList.drop 1 else pattern.toList) = segments
    at readParts split base
  have each := mapM_read readParts
  obtain ⟨ofPart, ofSegment⟩ := parts_read each
  refine ⟨rfl, by rw [base, plainFront_eq each], ?_, ?_⟩
  · intro part member name literal
    obtain ⟨segment, inside, readPart⟩ := ofPart part member
    have text := read_literal readPart
    rw [literal] at text
    split at text
    next => cases text
    next =>
      cases text
      exact segments_plain ⟨pattern⟩ segment (by simp [split, inside])
  · intro wild
    have some : ∃ segment ∈ (Path.mk pattern).segments, Pattern.isPattern segment = true := by
      have any : pattern.toList.any isSpecial = true := wild
      rw [any_segmentsOf, List.any_eq_true] at any
      obtain ⟨chars, inside, special⟩ := any
      refine ⟨String.ofList chars, List.mem_map_of_mem inside, ?_⟩
      rw [Pattern.isPattern, String.toList_ofList]
      exact special
    obtain ⟨segment, inside, special⟩ := some
    have member : segment ∈ segments := by
      have notEmpty : segment ≠ "" := by
        rintro rfl
        cases special
      rw [split] at inside
      rcases frontKind with rfl | rfl <;> rcases backKind with rfl | rfl <;> simpa [notEmpty] using inside
    obtain ⟨part, partMember, readPart⟩ := ofSegment segment member
    exact ⟨part, partMember, by rw [read_literal readPart, if_pos special]⟩

/-- A step of a search into a directory: to where it is, above it, or to a name in it. -/
private inductive Turns (tree : FileTree) (path : Path) : Path → Prop where
  | above : Turns tree path (path.join ⟨".."⟩)
  | here : Turns tree path (path.join Glob.here)
  | child {name : String} (member : name ∈ tree.children path) : Turns tree path (Glob.enter path name)

variable {tree : FileTree} {onlyDirectories : Bool} {budget : Nat} {path found : Path}

private theorem pointed_turns {part : Pattern} {next : Path} (member : next ∈ Glob.pointed path part) :
    Turns tree path next := by
  unfold Glob.pointed at member
  split at member
  next =>
    rcases List.mem_append.mp member with above | here
    · split at above
      next =>
        cases List.mem_singleton.mp above
        exact .above
      next => cases above
    · split at here
      next =>
        cases List.mem_singleton.mp here
        exact .here
      next => cases here
  next => cases member

/-- A part without wildcards is looked up, and any other one is tried in a directory. -/
private theorem matchesFrom_cases {part : Pattern} {rest : List Pattern}
    (member : found ∈ Glob.matchesFrom tree onlyDirectories (budget + 1) (part :: rest) path) :
    (∃ name next, part.literal? = some name ∧ Glob.lookUp? tree path (String.ofList name) = some next ∧
      (rest = [] ∧ found = next ∨ found ∈ Glob.matchesFrom tree onlyDirectories budget rest next)) ∨
    (part.literal? = none ∧ tree.isDirectory path = true ∧ ∃ next, Turns tree path next ∧
      (found = next ∨ ∃ parts ⊆ part :: rest, found ∈ Glob.matchesFrom tree onlyDirectories budget parts next)) := by
  have arrived {next : Path} {remaining : List Pattern}
      (member : found ∈ if remaining.isEmpty then (if onlyDirectories && !tree.isDirectory next then [] else [next])
        else Glob.matchesFrom tree onlyDirectories budget remaining next) :
      remaining = [] ∧ found = next ∨ found ∈ Glob.matchesFrom tree onlyDirectories budget remaining next := by
    split at member
    next empty =>
      split at member
      next => cases member
      next => exact .inl ⟨List.isEmpty_iff.mp empty, List.mem_singleton.mp member⟩
    next => exact .inr member
  have accepted {next : Path} {remaining : List Pattern} {accepts : Bool} (inside : remaining ⊆ part :: rest)
      (member : found ∈ if accepts then
        (if remaining.isEmpty then (if onlyDirectories && !tree.isDirectory next then [] else [next])
          else Glob.matchesFrom tree onlyDirectories budget remaining next) else []) :
      found = next ∨ ∃ parts ⊆ part :: rest, found ∈ Glob.matchesFrom tree onlyDirectories budget parts next := by
    split at member
    next =>
      rcases arrived member with ⟨_, same⟩ | later
      · exact .inl same
      · exact .inr ⟨remaining, inside, later⟩
    next => cases member
  simp only [Glob.matchesFrom] at member
  split at member
  next name literal =>
    split at member
    next => cases member
    next next looked => exact .inl ⟨name, next, literal, looked, arrived member⟩
  next wild =>
    split at member
    next directory =>
      refine .inr ⟨wild, directory, ?_⟩
      rcases List.mem_append.mp member with points | names
      · obtain ⟨next, turns, goesOn⟩ := List.mem_flatMap.mp points
        refine ⟨next, pointed_turns turns, ?_⟩
        rcases arrived goesOn with ⟨_, same⟩ | later
        · exact .inl same
        · exact .inr ⟨rest, List.subset_cons_self _ _, later⟩
      · obtain ⟨name, child, goesOn⟩ := List.mem_flatMap.mp names
        refine ⟨Glob.enter path name, .child child, ?_⟩
        split at goesOn
        next =>
          have others : rest.dropWhile Pattern.isRecursive ⊆ rest := (List.dropWhile_sublist _).subset
          rcases List.mem_append.mp goesOn with ends | goesOn
          · split at ends
            next => cases ends
            next _ remaining split =>
              rw [split] at others
              exact accepted (List.Subset.trans (List.subset_cons_self _ _)
                (List.Subset.trans others (List.subset_cons_self _ _))) ends
          · split at goesOn
            next =>
              rcases List.mem_append.mp goesOn with last | deeper
              · split at last
                next => exact .inl (List.mem_singleton.mp last)
                next => cases last
              · exact .inr ⟨_, List.cons_subset_cons part others, deeper⟩
            next => cases goesOn
        next => exact accepted (List.subset_cons_self _ _) goesOn
    next => cases member

/-- A tree as file systems have them: no name has a slash, and what an entry is in is a directory. -/
structure Rooted (tree : FileTree) : Prop where
  names : ∀ entry ∈ tree.entries, ∀ name ∈ entry.1, '/' ∉ name.toList
  above : ∀ location, (tree.entry? location).isSome = true → tree.entry? location.dropLast = some .directory

private theorem lookup_member {entries : List (Location × Entry)} {location : Location} {entry : Entry}
    (held : entries.lookup location = some entry) : (location, entry) ∈ entries := by
  obtain ⟨before, after, split, _⟩ := List.lookup_eq_some_iff.mp held
  simp [split]

theorem rooted_iff : Rooted tree ↔ (∀ entry ∈ tree.entries, ∀ name ∈ entry.1, '/' ∉ name.toList) ∧
    (∀ entry ∈ tree.entries, (tree.entry? entry.1).isSome = true → tree.entry? entry.1.dropLast = some .directory) ∧
    tree.entry? tree.workingDir.dropLast = some .directory := by
  constructor
  · intro rooted
    refine ⟨rooted.names, fun entry _ => rooted.above entry.1, rooted.above tree.workingDir ?_⟩
    simp [FileTree.entry?]
  · rintro ⟨names, above, working⟩
    refine ⟨names, ?_⟩
    intro location held
    by_cases root : location = []
    · rw [root]
      simp [FileTree.entry?]
    · by_cases here : location = tree.workingDir
      · rwa [here]
      · obtain ⟨entry, found⟩ := Option.isSome_iff_exists.mp held
        rw [FileTree.entry?, if_neg (by simp [root, here])] at found
        exact above (location, entry) (lookup_member found) held

instance (tree : FileTree) : Decidable (Rooted tree) := decidable_of_iff _ rooted_iff.symm

private theorem children_plain (rooted : Rooted tree) {name : String} (child : name ∈ tree.children path) :
    '/' ∉ name.toList := by
  unfold FileTree.children at child
  split at child
  next => cases child
  next =>
    obtain ⟨⟨location, entry⟩, member, last⟩ := List.mem_filterMap.mp child
    dsimp only at last
    split at last
    next => exact rooted.names _ member name (List.mem_of_getLast? last)
    next => cases last

/-- A path that names behind it are joined to. -/
private structure Solid (path : Path) : Prop where
  text : path.text ≠ ""
  away : path.isCurrent = false

private theorem components_nonempty (text : path.text ≠ "") : path.components ≠ [] := by
  intro none
  rw [components_eq, List.append_eq_nil_iff] at none
  obtain ⟨first, others, split⟩ := List.exists_cons_of_ne_nil (segments_nonempty path)
  have idle : first = "" ∨ first = "." := by
    have still := steps_idle.mp none.2 first (by simp [split])
    unfold moves component? at still
    split at still
    next idle => exact idle
    next => split at still <;> cases still
  have absolute : ¬ path.isAbsolute = true := by
    intro absolute
    rw [lead, if_pos absolute] at none
    cases none.1
  rcases idle with rfl | rfl
  · cases others with
    | nil =>
      have whole := ofSegments_of path
      rw [split] at whole
      exact text (by rw [← whole]; rfl)
    | cons second others => exact absolute (isAbsolute_iff.mpr ⟨_, by simp, split⟩)
  · rw [lead, if_neg absolute, split] at none
    simp at none

private theorem join_solid {other : Path} (solid : Solid path) (relative : other.isAbsolute = false) :
    Solid (path.join other) ∧ (path.join other).components = path.components ++ steps other.segments := by
  have components := join_components solid.text relative
  refine ⟨⟨?_, ?_⟩, components⟩
  · have some : path.text.toList ≠ [] := by simpa using solid.text
    intro empty
    rw [join, if_neg (by simp [relative]), if_neg solid.text] at empty
    split at empty
    all_goals
      have chars := congrArg String.toList empty
      simp [solid.text] at chars
  · have away : path.components ≠ [.current] := by simpa [isCurrent] using solid.away
    rw [isCurrent, decide_eq_false_iff_not, components]
    intro current
    rcases List.append_eq_singleton_iff.mp current with ⟨none, _⟩ | ⟨same, _⟩
    · exact components_nonempty solid.text none
    · exact away same

theorem name_relative {name : String} (plain : '/' ∉ name.toList) :
    (Path.mk name).isAbsolute = false ∧ (Path.mk name).segments = [name] := by
  constructor
  · rw [isAbsolute, decide_eq_false_iff_not]
    intro slash
    exact plain (List.mem_of_head? slash)
  · rw [Path.segments, ParentDirectories.segmentsOf_plain plain]
    simp

private theorem enter_solid (solid : Solid path) {name : String} (plain : '/' ∉ name.toList) :
    Solid (Glob.enter path name) ∧ (Glob.enter path name).components = path.components ++ steps [name] := by
  obtain ⟨relative, segments⟩ := name_relative plain
  have joined := join_solid solid relative
  rw [segments] at joined
  rwa [Glob.enter, if_neg (by simp [solid.away])]

private theorem turns_beyond (rooted : Rooted tree) (solid : Solid path) {next : Path} (turns : Turns tree path next) :
    Solid next ∧ path.components <+: next.components := by
  cases turns with
  | above =>
    obtain ⟨solidNext, components⟩ := @join_solid path ⟨".."⟩ solid rfl
    exact ⟨solidNext, _, components.symm⟩
  | here =>
    obtain ⟨solidNext, components⟩ := @join_solid path Glob.here solid rfl
    exact ⟨solidNext, _, components.symm⟩
  | child member =>
    obtain ⟨solidNext, components⟩ := enter_solid solid (children_plain rooted member)
    exact ⟨solidNext, _, components.symm⟩

private theorem lookUp?_enter {name : String} {next : Path} (looked : Glob.lookUp? tree path name = some next) :
    next = Glob.enter path name ∧ (name ≠ "." → name ≠ ".." → tree.contains next = true) := by
  simp only [Glob.lookUp?, Option.ite_none_right_eq_some, Option.some.injEq] at looked
  obtain ⟨reached, rfl⟩ := looked
  refine ⟨rfl, ?_⟩
  intro notCurrent notParent
  rwa [if_neg (by simp [notCurrent, notParent])] at reached

/-- The parts of a pattern that are literal are names. -/
private def PlainParts (parts : List Pattern) : Prop :=
  ∀ part ∈ parts, ∀ name, part.literal? = some name → '/' ∉ name

private theorem found_beyond (rooted : Rooted tree) {parts : List Pattern} (plain : PlainParts parts) (solid : Solid path)
    (member : found ∈ Glob.matchesFrom tree onlyDirectories budget parts path) : path.components <+: found.components := by
  induction budget generalizing parts path with
  | zero => cases member
  | succ budget ih =>
    cases parts with
    | nil => cases member
    | cons part rest =>
      rcases matchesFrom_cases member with ⟨name, next, literal, looked, goesOn⟩ | ⟨_, _, next, turns, goesOn⟩
      · obtain ⟨rfl, _⟩ := lookUp?_enter looked
        obtain ⟨solidNext, components⟩ := @enter_solid path solid (String.ofList name)
          (by simpa using plain part List.mem_cons_self name literal)
        have beyond : path.components <+: (Glob.enter path (String.ofList name)).components := ⟨_, components.symm⟩
        rcases goesOn with ⟨_, rfl⟩ | later
        · exact beyond
        · exact beyond.trans (ih (fun part inside => plain part (List.mem_cons_of_mem _ inside)) solidNext later)
      · obtain ⟨solidNext, beyond⟩ := turns_beyond rooted solid turns
        rcases goesOn with rfl | ⟨parts, inside, later⟩
        · exact beyond
        · exact beyond.trans (ih (fun part member => plain part (inside member)) solidNext later)

private theorem literal_goesOn {part : Pattern} {rest : List Pattern} {name : List Char} {next : Path}
    (literal : part.literal? = some name) (wild : ∃ other ∈ part :: rest, other.literal? = none)
    (goesOn : rest = [] ∧ found = next ∨ found ∈ Glob.matchesFrom tree onlyDirectories budget rest next) :
    (∃ other ∈ rest, other.literal? = none) ∧ found ∈ Glob.matchesFrom tree onlyDirectories budget rest next := by
  obtain ⟨other, inside, none⟩ := wild
  rcases List.mem_cons.mp inside with rfl | later
  · rw [literal] at none
    cases none
  · refine ⟨⟨other, later, none⟩, ?_⟩
    rcases goesOn with ⟨rfl, _⟩ | goesOn
    · cases later
    · exact goesOn

/-- The search comes to a directory by the parts without wildcards, and goes on from there. -/
private theorem found_below (rooted : Rooted tree) {parts : List Pattern} (plain : PlainParts parts) (solid : Solid path)
    (wild : ∃ part ∈ parts, part.literal? = none)
    (member : found ∈ Glob.matchesFrom tree onlyDirectories budget parts path) :
    ∃ stop, tree.isDirectory stop = true ∧ stop.components = path.components ++ steps (plainFront parts) ∧
      stop.components <+: found.components := by
  induction budget generalizing parts path with
  | zero => cases member
  | succ budget ih =>
    cases parts with
    | nil => cases member
    | cons part rest =>
      have beyond := found_beyond rooted plain solid member
      rcases matchesFrom_cases member with ⟨name, next, literal, looked, goesOn⟩ | ⟨none, directory, _⟩
      · obtain ⟨rfl, _⟩ := lookUp?_enter looked
        obtain ⟨solidNext, components⟩ := @enter_solid path solid (String.ofList name)
          (by simpa using plain part List.mem_cons_self name literal)
        obtain ⟨wildLater, later⟩ := literal_goesOn literal wild goesOn
        obtain ⟨stop, directory, whole, below⟩ :=
          ih (fun part inside => plain part (List.mem_cons_of_mem _ inside)) solidNext wildLater later
        refine ⟨stop, directory, ?_, below⟩
        rw [whole, components, plainFront, literal, List.append_assoc, ← steps_append]
        rfl
      · refine ⟨path, directory, ?_, beyond⟩
        rw [plainFront, none]
        exact (List.append_nil _).symm

private theorem lookUp?_unnamed {next : Path} (current : path.isCurrent = true) : Glob.lookUp? tree path "" ≠ some next := by
  intro looked
  obtain ⟨rfl, reached⟩ := lookUp?_enter looked
  have empty : Glob.enter path "" = ⟨""⟩ := if_pos current
  have missing := reached (by decide) (by decide)
  rw [empty] at missing
  cases missing

/-- A relative search leaves out the points that it starts with. -/
private theorem found_relative (rooted : Rooted tree) {parts : List Pattern} (plain : PlainParts parts)
    (current : path.isCurrent = true) (wild : ∃ part ∈ parts, part.literal? = none)
    (member : found ∈ Glob.matchesFrom tree onlyDirectories budget parts path) :
    ∃ stop, tree.isDirectory stop = true ∧
      (stop.components = steps (plainFront parts) ∨ stop.components = .current :: steps (plainFront parts)) ∧
      steps (plainFront parts) <+: found.components := by
  induction budget generalizing parts path with
  | zero => cases member
  | succ budget ih =>
    cases parts with
    | nil => cases member
    | cons part rest =>
      rcases matchesFrom_cases member with ⟨name, next, literal, looked, goesOn⟩ | ⟨none, directory, _⟩
      · obtain ⟨wildLater, later⟩ := literal_goesOn literal wild goesOn
        have plainLater : PlainParts rest := fun part inside => plain part (List.mem_cons_of_mem _ inside)
        have plainName : '/' ∉ (String.ofList name).toList := by
          simpa using plain part List.mem_cons_self name literal
        have front : steps (plainFront (part :: rest)) = steps [String.ofList name] ++ steps (plainFront rest) := by
          rw [plainFront, literal, ← steps_append]
          rfl
        obtain ⟨entered, _⟩ := lookUp?_enter looked
        rw [Glob.enter, if_pos current] at entered
        rw [front]
        by_cases point : String.ofList name = "."
        · rw [point] at entered ⊢
          exact ih plainLater (by rw [entered]; decide) wildLater later
        · have named : String.ofList name ≠ "" := by
            intro empty
            rw [empty] at looked
            exact lookUp?_unnamed current looked
          obtain ⟨relative, segments⟩ := name_relative plainName
          have components : next.components = steps [String.ofList name] := by
            rw [components_eq, entered, lead, relative, segments]
            simp [point]
          have solid : Solid next := by
            refine ⟨by rw [entered]; exact named, ?_⟩
            rw [isCurrent, decide_eq_false_iff_not, components]
            intro same
            have inside : Component.current ∈ steps [String.ofList name] := by simp [same]
            exact (step_ordinary inside).2 rfl
          obtain ⟨stop, directory, whole, below⟩ := found_below rooted plainLater solid wildLater later
          rw [components] at whole
          exact ⟨stop, directory, .inl whole, whole ▸ below⟩
      · have front : plainFront (part :: rest) = [] := by rw [plainFront, none]
        have start : path.components = [.current] := by simpa [isCurrent] using current
        refine ⟨path, directory, .inr ?_, ?_⟩
        · rw [front, start]
          rfl
        · rw [front]
          exact List.nil_prefix

/-- Components without a point at the start, which makes no difference to where they lead. -/
def unpointed (components : List Component) : List Component := components.filter (· ≠ .current)

private theorem unpointed_steps (segments : List String) : unpointed (steps segments) = steps segments := by
  apply List.filter_eq_self.mpr
  intro component member
  simpa using (step_ordinary member).2

theorem components_unpointed (path : Path) :
    unpointed path.components = (if path.isAbsolute then [.root] else []) ++ steps path.segments := by
  rw [components_eq, unpointed, List.filter_append, lead]
  congr 1
  · split
    · rfl
    · split <;> rfl
  · exact unpointed_steps path.segments

/-- The search goes through the base of the pattern, but a point at the start of the base is not part of what
it finds. -/
theorem found_below_base (rooted : Rooted tree) {pattern : String} {glob : Glob} (read : Glob.read pattern = .ok glob)
    (wild : Pattern.isPattern pattern = true)
    (member : found ∈ Glob.matchesFrom tree onlyDirectories budget glob.parts glob.start) :
    (∃ stop, tree.isDirectory stop = true ∧ unpointed stop.components = unpointed (literalBase pattern)) ∧
      (literalBase pattern <+: found.components ∨
        ∃ front, literalBase pattern = .current :: front ∧ front <+: found.components) := by
  obtain ⟨start, base, plain, some⟩ := read_understood read
  rw [start] at member
  rw [base]
  cases absolute : (Path.mk pattern).isAbsolute with
  | true =>
    rw [absolute, if_pos rfl] at member
    obtain ⟨stop, directory, whole, below⟩ := found_below rooted plain ⟨by decide, by decide⟩ (some wild) member
    have root : lead ⟨pattern⟩ = [.root] := by rw [lead, if_pos absolute]
    rw [root]
    have same : stop.components = [.root] ++ steps (plainFront glob.parts) := whole
    exact ⟨⟨stop, directory, by rw [same]⟩, .inl (same ▸ below)⟩
  | false =>
    rw [absolute, if_neg (by simp)] at member
    obtain ⟨stop, directory, whole, below⟩ := found_relative rooted plain (by decide) (some wild) member
    have point : unpointed (.current :: steps (plainFront glob.parts)) = unpointed (steps (plainFront glob.parts)) := rfl
    have same : unpointed stop.components = unpointed (steps (plainFront glob.parts)) := by
      rcases whole with whole | whole
      · rw [whole]
      · rw [whole, point]
    rw [lead, absolute, if_neg (by simp)]
    split
    next =>
      refine ⟨⟨stop, directory, same⟩, .inr ⟨_, rfl, below⟩⟩
    next => exact ⟨⟨stop, directory, same⟩, .inl below⟩

end Stencil.Proofs.PatternSearch
