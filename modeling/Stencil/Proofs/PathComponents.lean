import Stencil.Proofs.ParentDirectories

/-! Components of paths. A path is put together from its segments, and the segments that lead somewhere are
its components; so joining paths joins their components, and what is below the first components of a path
is a path with the others. -/

namespace Stencil.Proofs.PathComponents
open Stencil.Path FileLocations ParentDirectories

/-- The path with these segments. -/
def ofSegments (segments : List String) : Path := ⟨"/".intercalate segments⟩

def Plain (segments : List String) : Prop := ∀ segment ∈ segments, '/' ∉ segment.toList

private theorem segmentsOf_chars (text : List Char) : ∀ segment ∈ segmentsOf text, '/' ∉ segment := by
  fun_induction segmentsOf text with
  | case1 => simp
  | case2 rest ih => simpa using ih
  | case3 c rest other none ih => exact absurd none (segmentsOf_nonempty rest)
  | case4 c rest other first others split ih =>
    rw [split] at ih
    obtain ⟨here, later⟩ := List.forall_mem_cons.mp ih
    refine List.forall_mem_cons.mpr ⟨?_, later⟩
    simp only [List.mem_cons, not_or]
    exact ⟨Ne.symm other, here⟩

theorem segments_plain (path : Path) : Plain path.segments := by
  intro segment member
  obtain ⟨chars, inside, rfl⟩ := List.mem_map.mp member
  simpa using segmentsOf_chars _ chars inside

theorem segments_nonempty (path : Path) : path.segments ≠ [] := by
  simpa [segments] using segmentsOf_nonempty path.text.toList

private theorem intercalate_toList (segments : List String) :
    ("/".intercalate segments).toList = ['/'].intercalate (segments.map String.toList) := by
  simp [String.toList_intercalate]

theorem ofSegments_segments {segments : List String} (nonempty : segments ≠ []) (plain : Plain segments) :
    (ofSegments segments).segments = segments := by
  have split : segmentsOf (['/'].intercalate (segments.map String.toList)) = segments.map String.toList := by
    induction segments with
    | nil => exact absurd rfl nonempty
    | cons first others ih =>
      obtain ⟨here, later⟩ := List.forall_mem_cons.mp plain
      cases others with
      | nil => simpa using segmentsOf_plain here
      | cons second others =>
        rw [List.map_cons, List.map_cons, List.intercalate_cons_cons, List.append_assoc, List.singleton_append,
          segmentsOf_slash, segmentsOf_plain here]
        exact congrArg (first.toList :: ·) (ih (by simp) later)
  rw [Path.segments, ofSegments, intercalate_toList, split]
  simp [Function.comp_def]

private theorem intercalate_segmentsOf (text : List Char) : ['/'].intercalate (segmentsOf text) = text := by
  fun_induction segmentsOf text with
  | case1 => rfl
  | case2 rest ih =>
    obtain ⟨first, others, split⟩ := List.exists_cons_of_ne_nil (segmentsOf_nonempty rest)
    rw [split] at ih ⊢
    rw [List.intercalate_cons_cons, ih]
    rfl
  | case3 c rest other none ih => exact absurd none (segmentsOf_nonempty rest)
  | case4 c rest other first others split ih =>
    rw [split] at ih
    cases others with
    | nil => simpa using ih
    | cons second others => simpa [List.intercalate_cons_cons] using ih

/-- A path is nothing but its segments. -/
theorem ofSegments_of (path : Path) : ofSegments path.segments = path := by
  have text : "/".intercalate path.segments = path.text := by
    apply String.toList_inj.mp
    rw [intercalate_toList, Path.segments, List.map_map]
    simpa [Function.comp_def] using intercalate_segmentsOf path.text.toList
  rw [ofSegments, text]

theorem isAbsolute_iff {path : Path} : path.isAbsolute = true ↔ ∃ rest, rest ≠ [] ∧ path.segments = "" :: rest := by
  unfold isAbsolute Path.segments
  generalize path.text.toList = chars
  cases chars with
  | nil => simp [segmentsOf]
  | cons c rest =>
    by_cases slash : c = '/'
    · simp [segmentsOf, slash, segmentsOf_nonempty]
    · obtain ⟨first, others, split⟩ := List.exists_cons_of_ne_nil (segmentsOf_nonempty rest)
      simp [segmentsOf, slash, split]

theorem component?_moves {segment : String} {component : Component} (made : component? segment = some component) :
    component.text = segment ∧ moves segment = true := by
  refine ⟨?_, by simp [moves, made]⟩
  unfold component? at made
  split at made
  next => cases made
  next =>
    split at made
    next parent =>
      cases made
      exact parent.symm
    next =>
      cases made
      rfl

/-- What the segments of a path lead through, wherever the path starts. -/
def steps (segments : List String) : List Component := segments.filterMap component?

@[simp] theorem steps_nil : steps [] = [] := rfl

theorem steps_append (first second : List String) : steps (first ++ second) = steps first ++ steps second :=
  List.filterMap_append

theorem steps_text (segments : List String) : (steps segments).map Component.text = segments.filter moves := by
  induction segments with
  | nil => rfl
  | cons segment rest ih =>
    cases made : component? segment with
    | none =>
      have idle : ¬ moves segment = true := by simp [moves, made]
      rw [steps, List.filterMap_cons_none made, List.filter_cons_of_neg idle]
      exact ih
    | some component =>
      obtain ⟨text, moving⟩ := component?_moves made
      rw [steps, List.filterMap_cons_some made, List.filter_cons_of_pos moving, List.map_cons, text]
      exact congrArg (segment :: ·) ih

theorem steps_idle {segments : List String} : steps segments = [] ↔ ∀ segment ∈ segments, moves segment = false := by
  simp [steps, List.filterMap_eq_nil_iff, moves, Option.isSome_eq_false_iff]

/-- How a path starts: at the root, at a point that is written, or with its first step. -/
def lead (path : Path) : List Component :=
  if path.isAbsolute then [.root] else if path.segments.head? = some "." then [.current] else []

theorem components_eq (path : Path) : path.components = lead path ++ steps path.segments := rfl

/-- The start of a path is its first segment or none. -/
theorem lead_splits (path : Path) : ∃ front rest, path.segments = front ++ rest ∧ steps front = [] ∧
    (lead path).map Component.text = front ∧
    (lead path = [.root] ∨ lead path = [.current] ∨ lead path = []) := by
  unfold lead
  split
  next absolute =>
    obtain ⟨rest, _, split⟩ := isAbsolute_iff.mp absolute
    exact ⟨[""], rest, split, rfl, rfl, .inl rfl⟩
  next =>
    split
    next point =>
      obtain ⟨rest, split⟩ := List.head?_eq_some_iff.mp point
      exact ⟨["."], rest, split, rfl, rfl, .inr (.inl rfl)⟩
    next => exact ⟨[], path.segments, rfl, rfl, rfl, .inr (.inr rfl)⟩

theorem step_ordinary {segments : List String} {component : Component} (member : component ∈ steps segments) :
    component ≠ .root ∧ component ≠ .current := by
  obtain ⟨segment, _, made⟩ := List.mem_filterMap.mp member
  unfold component? at made
  split at made
  next => cases made
  next =>
    split at made
    next =>
      cases made
      exact ⟨nofun, nofun⟩
    next =>
      cases made
      exact ⟨nofun, nofun⟩

/-- A slash at the end of a path is not doubled by joining another path to it. -/
theorem join_segments {path other : Path} (nonempty : path.text ≠ "") (relative : other.isAbsolute = false) :
    ∃ front, front ≠ [] ∧ (path.segments = front ∨ path.segments = front ++ [""]) ∧
      (path.join other).segments = front ++ other.segments := by
  by_cases slash : path.text.toList.getLast? = some '/'
  · obtain ⟨front, split⟩ := List.getLast?_eq_some_iff.mp slash
    refine ⟨(segmentsOf front).map String.ofList, by simpa using segmentsOf_nonempty front, .inr ?_, ?_⟩
    · simp [Path.segments, split, segmentsOf_slash, segmentsOf]
    · simp [join, relative, nonempty, Path.segments, split, segmentsOf_slash]
  · refine ⟨path.segments, segments_nonempty path, .inl rfl, ?_⟩
    simp [join, relative, nonempty, slash, Path.segments, segmentsOf_slash]

theorem join_isAbsolute {path other : Path} (nonempty : path.text ≠ "") (relative : other.isAbsolute = false) :
    (path.join other).isAbsolute = path.isAbsolute := by
  have some : path.text.toList ≠ [] := by simpa using nonempty
  unfold join
  rw [if_neg (by simp [relative]), if_neg nonempty]
  split
  · rw [isAbsolute, isAbsolute, String.toList_append, List.head?_append_of_ne_nil _ some]
  · rw [isAbsolute, isAbsolute, String.toList_append, String.toList_append, List.append_assoc,
      List.head?_append_of_ne_nil _ some]

theorem join_components {path other : Path} (nonempty : path.text ≠ "") (relative : other.isAbsolute = false) :
    (path.join other).components = path.components ++ steps other.segments := by
  obtain ⟨front, some, split, joined⟩ := join_segments nonempty relative
  have same : path.segments.head? = front.head? ∧ steps path.segments = steps front := by
    rcases split with split | split
    · rw [split]
      exact ⟨rfl, rfl⟩
    · rw [split, List.head?_append_of_ne_nil _ some, steps_append]
      exact ⟨rfl, List.append_nil _⟩
  have sameLead : lead (path.join other) = lead path := by
    rw [lead, lead, join_isAbsolute nonempty relative, joined, List.head?_append_of_ne_nil _ some, same.1]
  rw [components_eq, components_eq, sameLead, joined, steps_append, same.2, List.append_assoc]

private theorem segmentsBehind_splits (count : Nat) (segments : List String) (enough : count ≤ (steps segments).length) :
    ∃ front rest, segments = front ++ rest ∧ segmentsBehind count segments = rest ∧ (steps front).length = count ∧
      ∀ segment ∈ rest.head?, moves segment = true := by
  induction segments generalizing count with
  | nil =>
    obtain rfl : count = 0 := by simpa using enough
    exact ⟨[], [], rfl, rfl, rfl, nofun⟩
  | cons segment segments ih =>
    cases made : component? segment with
    | none =>
      have idle : steps (segment :: segments) = steps segments := List.filterMap_cons_none made
      rw [idle] at enough
      obtain ⟨front, rest, split, behind, length, moving⟩ := ih count enough
      refine ⟨segment :: front, rest, by rw [split]; rfl, ?_, ?_, moving⟩
      · rw [← behind]
        cases count with
        | zero => simp [segmentsBehind, made]
        | succ count => simp [segmentsBehind, made]
      · rw [← length]
        exact congrArg List.length (List.filterMap_cons_none made)
    | some component =>
      have longer : steps (segment :: segments) = component :: steps segments := List.filterMap_cons_some made
      rw [longer, List.length_cons] at enough
      cases count with
      | zero =>
        refine ⟨[], segment :: segments, rfl, by simp [segmentsBehind, made], rfl, ?_⟩
        simp [moves, made]
      | succ count =>
        obtain ⟨front, rest, split, behind, length, moving⟩ := ih count (by omega)
        refine ⟨segment :: front, rest, by rw [split]; rfl, by simpa [segmentsBehind, made] using behind, ?_, moving⟩
        rw [steps, List.filterMap_cons_some made, List.length_cons]
        exact congrArg (· + 1) length

/-- A path below its first components. -/
structure Cut (path : Path) (base : List Component) (front rest : List String) : Prop where
  segments : path.segments = front ++ rest
  taken : base = lead path ++ steps front
  components : path.components = base ++ steps rest
  texts : (base.map Component.text).Sublist front
  moving : (base.map Component.text).filter moves = front.filter moves
  starts : ∀ segment ∈ rest.head?, moves segment = true

theorem below?_cut {path : Path} {base : List Component} (nonempty : base ≠ []) (spelled : base <+: path.components) :
    ∃ front rest, Cut path base front rest ∧ path.below? base = some (ofSegments rest) := by
  obtain ⟨opening, tail, split, still, texts, kinds⟩ := lead_splits path
  have whole : path.components = lead path ++ steps tail := by
    rw [components_eq, split, steps_append, still, List.nil_append]
  obtain ⟨inner, same⟩ : ∃ inner, base = lead path ++ inner := by
    rw [whole] at spelled
    obtain ⟨first, others, rfl⟩ := List.exists_cons_of_ne_nil nonempty
    rcases kinds with kind | kind | kind
    · rw [kind] at spelled ⊢
      exact ⟨others, by rw [(List.cons_prefix_cons.mp spelled).1]; rfl⟩
    · rw [kind] at spelled ⊢
      exact ⟨others, by rw [(List.cons_prefix_cons.mp spelled).1]; rfl⟩
    · exact ⟨first :: others, by rw [kind]; rfl⟩
  have spelledInner : inner <+: steps tail := by
    rw [whole, same] at spelled
    exact (List.prefix_append_right_inj _).mp spelled
  obtain ⟨front, rest, splitTail, behind, length, starts⟩ :=
    segmentsBehind_splits inner.length tail spelledInner.length_le
  have taken : steps front = inner := by
    have cut := List.prefix_iff_eq_take.mp spelledInner
    rw [splitTail, steps_append, ← length, List.take_left] at cut
    exact cut.symm
  refine ⟨opening ++ front, rest, ?_, ?_⟩
  · refine ⟨?_, ?_, ?_, ?_, ?_, starts⟩
    · rw [split, splitTail, List.append_assoc]
    · rw [steps_append, still, taken, same, List.nil_append]
    · rw [whole, splitTail, steps_append, taken, same, List.append_assoc]
    · rw [same, List.map_append, texts, ← taken, steps_text]
      exact (List.Sublist.refl opening).append List.filter_sublist
    · rw [same, List.map_append, texts, ← taken, steps_text, List.filter_append, List.filter_append, List.filter_filter]
      simp
  · have within : base.isPrefixOf path.components = true := List.isPrefixOf_iff_prefix.mpr spelled
    subst same
    unfold below?
    rw [if_pos within]
    rcases kinds with kind | kind | kind
    · rw [kind] at texts ⊢
      obtain rfl : opening = [""] := texts.symm
      simp [split, behind, ofSegments]
    · rw [kind] at texts ⊢
      obtain rfl : opening = ["."] := texts.symm
      simp [split, behind, ofSegments]
    · rw [kind] at texts nonempty ⊢
      obtain rfl : opening = [] := texts.symm
      obtain ⟨first, others, rfl⟩ := List.exists_cons_of_ne_nil nonempty
      have ordinary := step_ordinary (spelledInner.subset List.mem_cons_self)
      rw [List.length_cons] at behind
      simp [ordinary.1, ordinary.2, split, Nat.add_comm, behind, ofSegments]

private theorem moves_nonempty {segment : String} (moving : moves segment = true) : segment ≠ "" := by
  rintro rfl
  cases moving

private theorem ofSegments_relative {segments : List String} (plain : Plain segments)
    (starts : ∀ segment ∈ segments.head?, moves segment = true) : (ofSegments segments).isAbsolute = false := by
  rw [Bool.eq_false_iff]
  intro absolute
  obtain ⟨rest, _, split⟩ := isAbsolute_iff.mp absolute
  cases segments with
  | nil => cases absolute
  | cons segment others =>
    rw [ofSegments_segments (by simp) plain] at split
    exact moves_nonempty (starts segment rfl) (List.cons.inj split).1

variable {path : Path} {base : List Component} {front rest : List String}

private theorem Cut.plain (cut : Cut path base front rest) : Plain (base.map Component.text) ∧ Plain rest := by
  have all := segments_plain path
  rw [cut.segments] at all
  obtain ⟨inFront, inRest⟩ := List.forall_mem_append.mp all
  exact ⟨fun segment member => inFront segment (cut.texts.subset member), inRest⟩

/-- The rest is a relative path that starts with its first step. -/
theorem Cut.below (cut : Cut path base front rest) (some : rest ≠ []) :
    (ofSegments rest).segments = rest ∧ (ofSegments rest).components = steps rest := by
  have plain := cut.plain.2
  have split := ofSegments_segments some plain
  refine ⟨split, ?_⟩
  have point : ¬ rest.head? = Option.some "." := by
    intro point
    have moving := cut.starts "." (by simp [point])
    cases moving
  rw [components_eq, lead, ofSegments_relative plain cut.starts, split, if_neg (by simp), if_neg point, List.nil_append]

/-- A base that is not the root alone does not end in a slash. -/
private theorem Cut.last (cut : Cut path base front rest) (other : base ≠ [.root]) :
    (base.map Component.text).getLast? ≠ some "" := by
  rw [cut.taken, List.map_append, steps_text, List.getLast?_append]
  intro last
  cases inner : (front.filter moves).getLast? with
  | some segment =>
    rw [inner, Option.some_or, Option.some.injEq] at last
    exact moves_nonempty (List.mem_filter.mp (List.mem_of_getLast? inner)).2 last
  | none =>
    have still : front.filter moves = [] := List.getLast?_eq_none_iff.mp inner
    have onlyLead : base = lead path := by
      rw [← steps_text, List.map_eq_nil_iff] at still
      rw [cut.taken, still, List.append_nil]
    rw [inner, Option.none_or] at last
    obtain ⟨_, _, _, _, _, kind | kind | kind⟩ := lead_splits path
    · exact other (onlyLead.trans kind)
    · rw [kind] at last
      simp [Component.text] at last
    · rw [kind] at last
      cases last

private theorem lead_cons {first : String} {others : List String} (split : path.segments = first :: others)
    (some : first = "" → others ≠ []) :
    lead path = if first = "" then [.root] else if first = "." then [.current] else [] := by
  have absolute : path.isAbsolute = true ↔ first = "" := by
    rw [isAbsolute_iff, split]
    constructor
    · rintro ⟨rest, _, same⟩
      exact (List.cons.inj same).1
    · intro same
      exact ⟨others, some same, by rw [same]⟩
  rw [lead, split, List.head?_cons]
  simp only [absolute, Option.some.injEq]

private theorem isAbsolute_of_lead {other : Path} (same : lead other = lead path) : other.isAbsolute = path.isAbsolute := by
  unfold lead at same
  cases first : other.isAbsolute with
  | false =>
    cases second : path.isAbsolute with
    | false => rfl
    | true =>
      rw [first, second] at same
      simp only [Bool.false_eq_true, ite_false, ite_true] at same
      split at same <;> cases same
  | true =>
    cases second : path.isAbsolute with
    | true => rfl
    | false =>
      rw [first, second] at same
      simp only [Bool.false_eq_true, ite_false, ite_true] at same
      split at same <;> cases same

private theorem Cut.joined_segments (cut : Cut path base front rest) (nonempty : base ≠ []) (some : rest ≠ []) :
    ((ofComponents base).join (ofSegments rest)).segments = base.map Component.text ++ rest := by
  obtain ⟨plainBase, plainRest⟩ := cut.plain
  have relative := ofSegments_relative plainRest cut.starts
  have restSegments := ofSegments_segments some plainRest
  by_cases root : base = [.root]
  · subst root
    have text : (ofComponents [.root]).text ≠ "" := by decide
    have slash : (ofComponents [.root]).text.toList.getLast? = Option.some '/' := by decide
    rw [join, if_neg (by simp [relative]), if_neg text, if_pos slash]
    rw [Path.segments, String.toList_append]
    change (segmentsOf ([] ++ '/' :: (ofSegments rest).text.toList)).map String.ofList = _
    rw [segmentsOf_slash, List.map_append]
    exact congrArg ([""] ++ ·) restSegments
  · have same : ofComponents base = ofSegments (base.map Component.text) := by rw [ofComponents, if_neg root, ofSegments]
    have segments := ofSegments_segments (by simpa using nonempty) plainBase
    rw [← same] at segments
    have text : (ofComponents base).text ≠ "" := by
      intro empty
      refine cut.last root ?_
      rw [← segments, Path.segments, empty]
      rfl
    obtain ⟨front', _, split, joined⟩ := join_segments text relative
    rcases split with split | split
    · rw [joined, restSegments, ← split, segments]
    · refine absurd ?_ (cut.last root)
      rw [← segments, split, List.getLast?_concat]

/-- A path that is spelled like the base starts like the path that the base is taken from. -/
private theorem Cut.lead_spelled (cut : Cut path base front rest) (nonempty : base ≠ []) {other : Path} {more : List String}
    (split : other.segments = base.map Component.text ++ more) (longer : base = [.root] → more ≠ []) :
    lead other = lead path := by
  obtain ⟨first, others, rfl⟩ := List.exists_cons_of_ne_nil nonempty
  rw [List.map_cons, List.cons_append] at split
  have taken := cut.taken
  obtain ⟨_, _, _, _, _, kind | kind | kind⟩ := lead_splits path
  · rw [kind] at taken ⊢
    rw [(List.cons.inj taken).1] at split longer
    refine lead_cons split ?_
    intro _
    cases others with
    | nil => simpa using longer rfl
    | cons second others => simp
  · rw [kind] at taken ⊢
    rw [(List.cons.inj taken).1] at split
    exact lead_cons split nofun
  · rw [kind] at taken ⊢
    have member : first.text ∈ front.filter moves := by
      rw [← steps_text, ← show first :: others = steps front from taken]
      simp
    have moving := (List.mem_filter.mp member).2
    have away : first.text ≠ "" ∧ first.text ≠ "." := by
      constructor
      · exact moves_nonempty moving
      · intro point
        rw [point] at moving
        cases moving
    rw [lead_cons split (fun none => absurd none away.1), if_neg away.1, if_neg away.2]

/-- The base with the rest behind it is the same path, in another spelling. -/
theorem Cut.joined (cut : Cut path base front rest) (nonempty : base ≠ []) (some : rest ≠ []) :
    ((ofComponents base).join (ofSegments rest)).segments = base.map Component.text ++ rest ∧
      lead ((ofComponents base).join (ofSegments rest)) = lead path := by
  have joined := cut.joined_segments nonempty some
  exact ⟨joined, cut.lead_spelled nonempty joined fun _ => some⟩

private theorem steps_filter (segments : List String) : steps (segments.filter moves) = steps segments := by
  induction segments with
  | nil => rfl
  | cons segment segments ih =>
    cases moving : moves segment with
    | false =>
      have none : component? segment = none := by simpa [moves] using moving
      rw [List.filter_cons_of_neg (by simp [moving]), ih]
      exact (List.filterMap_cons_none none).symm
    | true =>
      obtain ⟨component, made⟩ := Option.isSome_iff_exists.mp moving
      rw [List.filter_cons_of_pos moving, steps, steps, List.filterMap_cons_some made, List.filterMap_cons_some made]
      exact congrArg (component :: ·) ih

private theorem Cut.steps_spelled (cut : Cut path base front rest) : steps (base.map Component.text) = steps front := by
  rw [← steps_filter (base.map Component.text), cut.moving, steps_filter]

theorem Cut.joined_components (cut : Cut path base front rest) (nonempty : base ≠ []) (some : rest ≠ []) :
    ((ofComponents base).join (ofSegments rest)).components = path.components := by
  obtain ⟨segments, same⟩ := cut.joined nonempty some
  rw [components_eq, components_eq, same, segments, cut.segments, steps_append, steps_append, cut.steps_spelled]

/-- The plainest path with components that some path has got has got no others. -/
theorem ofComponents_components (nonempty : base ≠ []) (spelled : base <+: path.components) :
    (ofComponents base).components = base := by
  obtain ⟨front, rest, cut, _⟩ := below?_cut nonempty spelled
  by_cases root : base = [.root]
  · rw [root]
    rfl
  · have segments : (ofComponents base).segments = base.map Component.text := by
      rw [ofComponents, if_neg root]
      exact ofSegments_segments (by simpa using nonempty) cut.plain.1
    have start := cut.lead_spelled nonempty (by rw [segments, List.append_nil]) fun only => absurd only root
    rw [components_eq, start, segments, cut.steps_spelled, ← cut.taken]

private theorem intercalate_sublist {kept all : List (List Char)} (fewer : kept.Sublist all) :
    (['/'].intercalate kept).Sublist (['/'].intercalate all) := by
  induction fewer with
  | slnil => exact .refl _
  | @cons kept all segment fewer ih =>
    cases all with
    | nil =>
      rw [List.sublist_nil.mp fewer]
      exact List.nil_sublist _
    | cons second others =>
      rw [List.intercalate_cons_cons]
      exact ih.trans (List.sublist_append_right _ _)
  | @cons_cons kept all segment fewer ih =>
    cases kept with
    | nil =>
      cases all with
      | nil => exact .refl _
      | cons second others =>
        rw [List.intercalate_cons_cons, List.append_assoc]
        simp
    | cons first others =>
      cases all with
      | nil => cases fewer
      | cons second others' =>
        rw [List.intercalate_cons_cons, List.intercalate_cons_cons]
        exact (List.Sublist.refl _).append ih

/-- A path with fewer segments can be named if the other one can. -/
private theorem nameable_sublist {other : Path} (fewer : other.segments.Sublist path.segments) (nonempty : other.text ≠ "")
    (nameable : Nameable path) : Nameable other := by
  have text : other.text.toList.Sublist path.text.toList := by
    have chars := intercalate_sublist (fewer.map String.toList)
    rw [← intercalate_toList, ← intercalate_toList] at chars
    have same (path : Path) : "/".intercalate path.segments = path.text := congrArg Path.text (ofSegments_of path)
    rwa [same, same] at chars
  refine ⟨fun member => nameable.plain (text.subset member), ?_, nonempty⟩
  have size := String.utf8Len_le_of_sublist text
  rw [String.utf8Len_toList, String.utf8Len_toList] at size
  exact size.trans nameable.short

/-- Idle segments in front of the rest of a path do not matter to where it leads. -/
theorem locate_alike {tree : FileTree} {other : Path} {kept : List String} {place : Location}
    (split : path.segments = front ++ rest) (splitOther : other.segments = kept ++ rest) (some : rest ≠ [])
    (fewer : kept.Sublist front) (moving : kept.filter moves = front.filter moves) (start : lead other = lead path)
    (nonempty : other.text ≠ "") (located : tree.locate path = .ok place) : tree.locate other = .ok place := by
  obtain ⟨nameable, followed⟩ := locate_ok.mp located
  have sameOrigin : origin tree other = origin tree path := by rw [origin, origin, isAbsolute_of_lead start]
  have shorter : other.segments.Sublist path.segments := by
    rw [split, splitOther]
    exact fewer.append (.refl rest)
  refine locate_ok.mpr ⟨nameable_sublist shorter nonempty nameable, ?_⟩
  rw [split] at followed
  obtain ⟨between, reached, later⟩ := follow_append.mp followed
  obtain ⟨segment, more, rfl⟩ := List.exists_cons_of_ne_nil some
  have inside := origin_directory tree path
  have enters : Enters tree (origin tree path) front between := ⟨reached, (follow_cons.mp later).1⟩
  rw [enters_moves inside, ← moving, ← enters_moves inside] at enters
  rw [sameOrigin, splitOther]
  exact follow_append.mpr ⟨between, enters.1, later⟩

/-- A name is its stem alone, or its stem, a point and its extension. -/
private theorem stemOf_cases (name : String) : stemOf name = name ∧ extensionOf name = "" ∨
    stemOf name ≠ "" ∧ name = stemOf name ++ "." ++ extensionOf name := by
  have whole : stemOf name = name → extensionOf name = "" := by
    intro same
    have long : name.toList.length ≤ name.length + 1 := by
      rw [String.length_toList]
      omega
    rw [extensionOf, same, List.drop_eq_nil_of_le long, String.ofList_nil]
  have parts : name.toList.reverse.takeWhile (· ≠ '.') ++ name.toList.reverse.dropWhile (· ≠ '.') = name.toList.reverse :=
    List.takeWhile_append_dropWhile
  have point := List.head?_dropWhile_not (· ≠ '.') name.toList.reverse
  unfold stemOf at whole ⊢
  cases behind : name.toList.reverse.dropWhile (· ≠ '.') with
  | nil =>
    simp only [behind] at whole ⊢
    exact .inl ⟨trivial, whole trivial⟩
  | cons c before =>
    rw [behind] at parts point
    simp only [List.head?_cons, decide_eq_false_iff_not, not_not] at point
    subst point
    simp only [behind] at whole ⊢
    cases before with
    | nil => exact .inl ⟨rfl, whole rfl⟩
    | cons d before =>
      refine .inr ⟨by simp, ?_⟩
      have chars : name.toList = (d :: before).reverse ++ '.' :: (name.toList.reverse.takeWhile (· ≠ '.')).reverse := by
        simpa using congrArg List.reverse parts.symm
      generalize (name.toList.reverse.takeWhile (· ≠ '.')).reverse = extension at chars
      have stem : stemOf name = String.ofList (d :: before).reverse := by
        simp only [stemOf, behind]
        rfl
      have size : (stemOf name).length + 1 = ((d :: before).reverse ++ ['.']).length := by
        rw [stem, String.length_ofList, List.length_append, List.length_singleton]
      have dropped : name.toList.drop ((stemOf name).length + 1) = extension := by
        rw [chars, size, List.append_cons _ _ extension, List.drop_left]
      apply String.toList_inj.mp
      rw [extensionOf, dropped, chars]
      simp

private theorem stemOf_pointed {stem : String} (nonempty : stem ≠ "") : stemOf (stem ++ ".") = stem := by
  have some : stem.toList ≠ [] := by simpa using nonempty
  simp [stemOf, some]

/-- The text in front of the last segment. -/
private def opened (segments : List String) : List Char := segments.flatMap fun segment => segment.toList ++ ['/']

private theorem ofSegments_concat (front : List String) (last : String) :
    (ofSegments (front ++ [last])).text.toList = opened front ++ last.toList := by
  rw [ofSegments, intercalate_toList]
  induction front with
  | nil => simp [opened]
  | cons first others ih =>
    obtain ⟨second, more, split⟩ := List.exists_cons_of_ne_nil
      (show others ++ [last] ≠ [] by simp)
    rw [split] at ih
    rw [List.cons_append, split, List.map_cons, List.map_cons, List.intercalate_cons_cons]
    rw [List.map_cons] at ih
    rw [ih]
    simp [opened]

private theorem opened_reverse (front : List String) :
    (opened front).reverse.dropWhile (· ≠ '/') = (opened front).reverse := by
  rcases List.eq_nil_or_concat front with rfl | ⟨others, last, rfl⟩
  · rfl
  · simp [opened]

theorem fileName?_named {segments : List String} {name : String} (split : path.segments = segments ++ [name])
    (named : component? name = some (.name name)) : path.fileName? = some name := by
  have last : path.components.getLast? = some (.name name) := by
    have single : steps [name] = [.name name] := List.filterMap_cons_some named
    rw [components_eq, split, steps_append, single, ← List.append_assoc, List.getLast?_concat]
  rw [fileName?, last]

private theorem trimEnd_named {name : String} (plain : '/' ∉ name.toList) (nonempty : name ≠ "") (other : name ≠ ".")
    (behind : List Char) : trimEnd (name.toList.reverse ++ behind) = name.toList.reverse ++ behind := by
  cases reversed : name.toList.reverse with
  | nil => exact absurd (by simpa using reversed) nonempty
  | cons c rest =>
    have chars : ∀ d ∈ c :: rest, d ≠ '/' := by
      intro d member same
      rw [← reversed, List.mem_reverse] at member
      exact plain (same ▸ member)
    have first := chars c List.mem_cons_self
    rw [List.cons_append]
    unfold trimEnd
    split
    next same => exact absurd (List.cons.inj same).1 first
    next same => exact absurd (List.cons.inj same).1 first
    next rest' same =>
      obtain ⟨rfl, later⟩ := List.cons.inj same
      cases rest with
      | nil =>
        have point : name.toList = ['.'] := by simpa using congrArg List.reverse reversed
        exact absurd (String.toList_inj.mp point) other
      | cons d rest =>
        exact absurd (List.cons.inj later).1 (chars d (by simp))
    next => rfl

private theorem named_cases {name : String} (named : component? name = some (.name name)) :
    name ≠ "" ∧ name ≠ "." ∧ name ≠ ".." := by
  unfold component? at named
  split at named
  next => cases named
  next away =>
    split at named
    next => cases named
    next notParent =>
      rw [not_or] at away
      exact ⟨away.1, away.2, notParent⟩

theorem component?_name {name : String} (nonempty : name ≠ "") (notCurrent : name ≠ ".") (notParent : name ≠ "..") :
    component? name = some (.name name) := by
  simp [component?, nonempty, notCurrent, notParent]

/-- What is left of a name without its extension is still a name, with the same stem, unless it is taken for a
parent directory. -/
private theorem shown_named {name : String} (named : component? name = some (.name name)) (visible : stemOf name ≠ ".") :
    ∃ shown : String, name.toList = shown.toList ++ (extensionOf name).toList ∧
      component? shown = some (.name shown) ∧ stemOf shown = stemOf name := by
  rcases stemOf_cases name with ⟨_, none⟩ | ⟨some, parts⟩
  · exact ⟨name, by simp [none], named, rfl⟩
  · have chars : name.toList = (stemOf name ++ ".").toList ++ (extensionOf name).toList := by
      rw [← String.toList_append, ← parts]
    refine ⟨stemOf name ++ ".", chars, ?_, stemOf_pointed some⟩
    generalize stemOf name = stem at some visible
    have nonempty : stem.toList ≠ [] := by simpa using some
    have other : stem.toList ≠ ['.'] := fun point => visible (String.toList_inj.mp (by simpa using point))
    refine component?_name ?_ ?_ ?_
    · intro same
      simpa using congrArg String.toList same
    · intro same
      exact nonempty (by simpa using congrArg String.toList same)
    · intro same
      have chars : stem.toList ++ ['.'] = ['.'] ++ ['.'] := by simpa using congrArg String.toList same
      exact other (List.append_cancel_right chars)

variable {segments : List String} {name : String}

private theorem plain_concat {last : String} (split : path.segments = segments ++ [name]) (plain : '/' ∉ last.toList) :
    Plain (segments ++ [last]) := by
  have all := segments_plain path
  rw [split] at all
  refine List.forall_mem_append.mpr ⟨(List.forall_mem_append.mp all).1, ?_⟩
  intro segment member
  rwa [List.mem_singleton.mp member]

private theorem text_named (split : path.segments = segments ++ [name]) :
    path.text.toList = opened segments ++ name.toList := by
  rw [← ofSegments_concat, ← split, ofSegments_of]

private theorem withoutExtension_named (split : path.segments = segments ++ [name])
    (named : component? name = some (.name name)) {shown : String}
    (chars : name.toList = shown.toList ++ (extensionOf name).toList) :
    path.withoutExtension = ofSegments (segments ++ [shown]) := by
  have back : path.text.toList.reverse =
      (extensionOf name).toList.reverse ++ (opened segments ++ shown.toList).reverse := by
    rw [text_named split, chars, ← List.append_assoc, List.reverse_append]
  have size : (extensionOf name).length = (extensionOf name).toList.reverse.length := by
    rw [List.length_reverse, String.length_toList]
  have text : path.text.toList.reverse.drop (extensionOf name).length = (opened segments ++ shown.toList).reverse := by
    rw [back, size, List.drop_left]
  rw [withoutExtension, fileName?_named split named]
  simp only [text, List.reverse_reverse]
  rw [← ofSegments_concat, String.ofList_toList]

private theorem frontReversed_named (split : path.segments = segments ++ [name])
    (named : component? name = some (.name name)) : path.frontReversed = (opened segments).reverse := by
  obtain ⟨nonempty, notCurrent, _⟩ := named_cases named
  have plain : '/' ∉ name.toList := segments_plain path name (by simp [split])
  have passed : ∀ c ∈ name.toList.reverse, decide (c ≠ '/') = true := by
    intro c member
    rw [decide_eq_true_eq]
    rintro rfl
    exact plain (List.mem_reverse.mp member)
  rw [frontReversed, text_named split, List.reverse_append, trimEnd_named plain nonempty notCurrent,
    List.dropWhile_append_of_pos passed, opened_reverse]

private theorem withExtension_named (split : path.segments = segments ++ [name]) (named : component? name = some (.name name))
    (visible : stemOf name ≠ ".") (extension : String) :
    path.withExtension extension = ofSegments (segments ++ [stemOf name ++ "." ++ extension]) := by
  obtain ⟨shown, chars, kept, sameStem⟩ := shown_named named visible
  have bare := withoutExtension_named split named chars
  have plainName : '/' ∉ name.toList := segments_plain path name (by simp [split])
  rw [chars, List.mem_append, not_or] at plainName
  have splitBare := ofSegments_segments (by simp) (plain_concat split plainName.1)
  have stem : (ofSegments (segments ++ [shown])).stem? = some (stemOf name) := by
    rw [stem?, fileName?_named splitBare kept, Option.map_some, sameStem]
  have text : String.ofList (opened segments) ++ stemOf name ++ "." ++ extension =
      (ofSegments (segments ++ [stemOf name ++ "." ++ extension])).text := by
    apply String.toList_inj.mp
    rw [ofSegments_concat]
    simp
  unfold withExtension
  rw [bare]
  simp only [stem]
  rw [frontReversed_named splitBare kept, List.reverse_reverse, text]

/-- A stem that is nothing but a point is taken for a parent directory once it has lost its extension. -/
private theorem withExtension_hidden (split : path.segments = segments ++ [name])
    (named : component? name = some (.name name)) (hidden : stemOf name = ".") (extension : String) :
    path.withExtension extension = ofSegments (segments ++ [".."]) := by
  obtain ⟨_, notCurrent, _⟩ := named_cases named
  have chars : name.toList = "..".toList ++ (extensionOf name).toList := by
    rcases stemOf_cases name with ⟨same, _⟩ | ⟨_, parts⟩
    · exact absurd (same.symm.trans hidden) notCurrent
    · rw [hidden] at parts
      nth_rewrite 1 [parts]
      simp
  have bare := withoutExtension_named split named chars
  have splitBare := ofSegments_segments (by simp) (@plain_concat _ _ _ ".." split (by decide))
  have parent : (ofSegments (segments ++ [".."])).components.getLast? = some .parent := by
    have single : steps [".."] = [.parent] := rfl
    rw [components_eq, splitBare, steps_append, single, ← List.append_assoc, List.getLast?_concat]
  unfold withExtension
  rw [bare]
  simp [stem?, fileName?, parent]

/-- What becomes of a name that gets a new extension. -/
def renamed (name extension : String) : Component :=
  if stemOf name = "." then .parent else .name (stemOf name ++ "." ++ extension)

/-- Components that differ in the last segment alone. -/
private theorem components_concat {last : String} {component : Component} (split : path.segments = segments ++ [name])
    (named : component? name = some (.name name)) (made : component? last = some component) (plain : '/' ∉ last.toList)
    {before : List Component} (components : path.components = before ++ [.name name]) :
    (ofSegments (segments ++ [last])).components = before ++ [component] := by
  have splitOther := ofSegments_segments (by simp) (plain_concat split plain)
  have sameLead : lead (ofSegments (segments ++ [last])) = lead path := by
    cases segments with
    | nil =>
      have alone {path : Path} {segment : String} {component : Component} (single : path.segments = [segment])
          (made : component? segment = some component) : lead path = [] := by
        obtain ⟨_, moving⟩ := component?_moves made
        have absolute : ¬ path.isAbsolute = true := by
          rw [isAbsolute_iff, single]
          rintro ⟨rest, some, same⟩
          exact some (List.cons.inj same).2.symm
        rw [lead, if_neg absolute, single]
        refine if_neg ?_
        rintro ⟨⟩
        cases moving
      rw [alone splitOther made, alone split named]
    | cons first others => rw [lead_cons splitOther fun _ => by simp, lead_cons split fun _ => by simp]
  have single : steps [name] = [.name name] := List.filterMap_cons_some named
  have singleOther : steps [last] = [component] := List.filterMap_cons_some made
  rw [components_eq, split, steps_append, single, ← List.append_assoc] at components
  rw [components_eq, sameLead, splitOther, steps_append, singleOther, ← List.append_assoc,
    List.append_cancel_right components]

private theorem pointed_long {stem extension : String} (some : stem ≠ "") : stem ++ "." ++ extension ≠ "." := by
  have nonempty : stem.toList ≠ [] := by simpa using some
  intro same
  have chars : stem.toList ++ '.' :: extension.toList = ['.'] := by simpa using congrArg String.toList same
  rcases List.append_eq_singleton_iff.mp chars with ⟨none, _⟩ | ⟨_, none⟩
  · exact nonempty none
  · cases none

private theorem pointed_other {stem extension : String} (visible : stem ≠ ".") (some : stem ≠ "") :
    stem ++ "." ++ extension ≠ ".." := by
  intro same
  have chars : stem.toList ++ '.' :: extension.toList = ['.', '.'] := by simpa using congrArg String.toList same
  cases split : stem.toList with
  | nil => exact some (by simpa using split)
  | cons c rest =>
    rw [split, List.cons_append] at chars
    obtain ⟨rfl, later⟩ := List.cons.inj chars
    rcases List.append_eq_singleton_iff.mp later with ⟨none, _⟩ | ⟨_, none⟩
    · exact visible (String.toList_inj.mp (by rw [split, none]; rfl))
    · cases none

theorem withExtension_components (split : path.segments = segments ++ [name])
    (named : component? name = some (.name name)) {before : List Component}
    (components : path.components = before ++ [.name name]) (extension : String) (plain : '/' ∉ extension.toList) :
    (path.withExtension extension).components = before ++ [renamed name extension] := by
  by_cases hidden : stemOf name = "."
  · rw [withExtension_hidden split named hidden, renamed, if_pos hidden]
    exact components_concat split named rfl (by decide) components
  · have some : stemOf name ≠ "" := by
      rcases stemOf_cases name with ⟨same, _⟩ | ⟨some, _⟩
      · rw [same]
        exact (named_cases named).1
      · exact some
    rw [withExtension_named split named hidden, renamed, if_neg hidden]
    have plainStem : '/' ∉ (stemOf name).toList := by
      have plainName : '/' ∉ name.toList := segments_plain path name (by simp [split])
      rcases stemOf_cases name with ⟨same, _⟩ | ⟨_, parts⟩
      · exact same.symm ▸ plainName
      · intro inside
        rw [parts] at plainName
        exact plainName (by simp [inside])
    exact components_concat split named (component?_name (by simp) (pointed_long some) (pointed_other hidden some))
      (by simp [plainStem, plain]) components

end Stencil.Proofs.PathComponents
