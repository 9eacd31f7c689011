import Stencil.Proofs.BuildEffects
import Stencil.Proofs.PatternSearch

/-! Inputs that patterns match. What a pattern finds is below its base, so an input keeps its path from there on. A
point at the start of a pattern is the exception: it belongs to the base of the pattern, but not to what is found. -/

namespace Stencil.Proofs.MatchedInputs
open FileTree Stencil.Path Build FileLocations PathComponents PatternSearch
open BuildEffects (Meet)
open TemplateReading (bind_ok mapError_ok)

variable {tree : FileTree} {path : Path}

private theorem isFile_iff : tree.isFile path = true ↔
    ∃ location content, tree.locate path = .ok location ∧ file? tree location = some content := by
  unfold FileTree.isFile
  constructor
  · intro file
    split at file
    next content found =>
      obtain ⟨location, located, held⟩ := find_ok.mp found
      exact ⟨location, content, located, file?_some.mpr held⟩
    next => cases file
  · rintro ⟨location, content, located, held⟩
    rw [find_ok.mpr ⟨location, located, file?_some.mp held⟩]

private theorem directory_not_file {stop : Path} (directory : tree.isDirectory stop = true) (file : tree.isFile path = true) :
    unpointed stop.components ≠ unpointed path.components := by
  intro same
  rw [components_unpointed, components_unpointed] at same
  obtain ⟨absolute, alike⟩ : stop.isAbsolute = path.isAbsolute ∧ steps stop.segments = steps path.segments := by
    cases first : stop.isAbsolute <;> cases second : path.isAbsolute <;> simp [first, second] at same
    · exact ⟨rfl, same⟩
    · exact absurd rfl (step_ordinary (show Component.root ∈ steps stop.segments by simp [same])).1
    · exact absurd rfl (step_ordinary (show Component.root ∈ steps path.segments by simp [← same])).1
    · exact ⟨rfl, same⟩
  obtain ⟨location, content, located, held⟩ := isFile_iff.mp file
  obtain ⟨place, leads⟩ : ∃ place, LeadsTo tree stop place := by
    unfold FileTree.isDirectory at directory
    split at directory
    next found => exact find_ok.mp found
    next => cases directory
  have enters := (leadsTo_iff.mp leads).2
  rw [← steps_text, alike, steps_text, show origin tree stop = origin tree path by rw [origin, origin, absolute]] at enters
  obtain ⟨sameLocated, inside⟩ := leadsTo_iff.mpr ⟨(locate_ok.mp located).1, enters⟩
  rw [located, Except.ok.injEq] at sameLocated
  rw [← sameLocated, file?_some.mp held] at inside
  cases inside

private theorem file_named (rooted : Rooted tree) (file : tree.isFile path = true) :
    ∃ front name, path.segments = front ++ [name] ∧ component? name = some (.name name) := by
  obtain ⟨location, content, located, held⟩ := isFile_iff.mp file
  have held := file?_some.mp held
  obtain ⟨front, name, split⟩ : ∃ front name, path.segments = front ++ [name] := by
    rcases List.eq_nil_or_concat path.segments with none | ⟨front, name, split⟩
    · exact absurd none (segments_nonempty path)
    · exact ⟨front, name, by simpa using split⟩
  refine ⟨front, name, split, ?_⟩
  have followed := (locate_ok.mp located).2
  rw [split] at followed
  obtain ⟨between, _, last⟩ := follow_append.mp followed
  obtain ⟨inside, _, arrived⟩ := follow_cons.mp last
  obtain rfl : FileTree.step between name = location := by simpa [follow] using arrived
  have stays : moves name = true := by
    by_contra idle
    rw [(step_idle (by simpa using idle) between).1, inside] at held
    cases held
  have notParent : name ≠ ".." := by
    rintro rfl
    rw [show FileTree.step between ".." = between.dropLast by rfl, rooted.above between (by rw [inside]; rfl)] at held
    cases held
  apply component?_name
  · rintro rfl
    cases stays
  · rintro rfl
    cases stays
  · exact notParent

private theorem mapM_id {found : List (Except Glob.Fault Path)} {paths : List Path} (all : found.mapM id = .ok paths) :
    ∀ path ∈ paths, .ok path ∈ found := by
  induction found generalizing paths with
  | nil =>
    cases all
    nofun
  | cons first others ih =>
    rw [List.mapM_cons] at all
    obtain ⟨path, isFirst, rest⟩ := bind_ok.mp all
    obtain ⟨later, isLater, same⟩ := bind_ok.mp rest
    cases same
    obtain rfl : first = .ok path := isFirst
    refine List.forall_mem_cons.mpr ⟨List.mem_cons_self, ?_⟩
    intro other member
    exact List.mem_cons_of_mem _ (ih isLater other member)

private theorem expand_member {matching : Glob.Matching} {pattern : String} {files : List Path}
    (expanded : Glob.expand matching tree pattern = .ok files) :
    ∃ glob, Glob.read pattern = .ok glob ∧ ∀ file ∈ files, .ok file ∈ matching tree glob ∧ tree.isFile file = true := by
  obtain ⟨glob, read, rest⟩ := bind_ok.mp expanded
  obtain ⟨found, all, same⟩ := bind_ok.mp rest
  cases same
  refine ⟨glob, mapError_ok.mp read, ?_⟩
  intro file member
  obtain ⟨inside, isFile⟩ := List.mem_filter.mp (List.mem_mergeSort.mp member)
  exact ⟨mapM_id all file inside, isFile⟩

/-- An input that keeps its path below the base of its pattern: with the base in front of it, it is the same file,
and its target is as far below the directory of all targets. -/
structure Kept (tree : FileTree) (base : List Component) (input : Input) (between : List Component) (name : String) :
    Prop where
  path : input.path.components = base ++ between ++ [.name name]
  relative : input.relative.components = between ++ [.name name]
  joined : ((ofComponents base).join input.relative).components = input.path.components
  meet : Meet tree ((ofComponents base).join input.relative) input.path
  target : ∀ dir emit, ∃ below, targetOf dir emit input = dir.join below ∧
    below.components = between ++ [renamed name emit.extension]

/-- An input that keeps only its name, since it is not spelled with the point that its pattern starts with. -/
structure Dropped (base : List Component) (input : Input) (front between : List Component) (name : String) : Prop where
  pointed : base = .current :: front
  apart : ¬ base <+: input.path.components
  path : input.path.components = front ++ between ++ [.name name]
  relative : input.relative = ⟨name⟩
  joined : ((ofComponents base).join input.relative).components = base ++ [.name name]
  target : ∀ dir emit, ∃ below, targetOf dir emit input = dir.join below ∧
    below.components = [renamed name emit.extension]

private theorem extension_plain (emit : Emit) : '/' ∉ emit.extension.toList := by
  cases emit <;> decide

private theorem targetOf_below {input : Input} {front : List String} {between : List Component} {name : String}
    (split : input.relative.segments = front ++ [name]) (named : component? name = some (.name name))
    (relative : input.relative.components = between ++ [.name name]) (dir : Path) (emit : Emit) :
    ∃ below, targetOf dir emit input = dir.join below ∧ below.components = between ++ [renamed name emit.extension] :=
  ⟨_, rfl, withExtension_components split named relative emit.extension (extension_plain emit)⟩

private theorem steps_named {name : String} (named : component? name = some (.name name)) : steps [name] = [.name name] :=
  List.filterMap_cons_some named

private theorem kept_input (rooted : Rooted tree) {pattern : String} {stop : Path}
    (directory : tree.isDirectory stop = true) (reached : unpointed stop.components = unpointed (literalBase pattern))
    (file : tree.isFile path = true) (spelled : literalBase pattern <+: path.components) :
    ∃ between name, Kept tree (literalBase pattern) (matchedInput pattern path) between name := by
  obtain ⟨segments, name, split, named⟩ := file_named rooted file
  obtain ⟨location, content, located, held⟩ := isFile_iff.mp file
  by_cases none : literalBase pattern = []
  · have relative : (matchedInput pattern path).relative = path := by
      rw [matchedInput, none, below?]
      rfl
    have joined : (ofComponents (literalBase pattern)).join path = path := by
      rw [none, join]
      split
      · rfl
      · exact if_pos rfl
    have components : path.components = (lead path ++ steps segments) ++ [.name name] := by
      rw [components_eq, split, steps_append, steps_named named, List.append_assoc]
    refine ⟨lead path ++ steps segments, name, ?_, ?_, ?_, ?_, ?_⟩
    · rw [none, List.nil_append]
      exact components
    · rw [relative, components]
    · rw [relative, joined]
      rfl
    · rw [relative, joined]
      exact ⟨location, content, located, located, held⟩
    · exact targetOf_below (by rw [relative, split]) named (by rw [relative, components])
  · obtain ⟨front, rest, cut, below⟩ := below?_cut none spelled
    have some : rest ≠ [] := by
      rintro rfl
      apply directory_not_file directory file
      rw [reached, cut.components, steps_nil, List.append_nil]
    obtain ⟨between, rfl⟩ : ∃ between, rest = between ++ [name] := by
      rcases List.eq_nil_or_concat rest with empty | ⟨between, last, same⟩
      · exact absurd empty some
      · rw [List.concat_eq_append] at same
        have whole := cut.segments
        rw [split, same, ← List.append_assoc] at whole
        exact ⟨between, by rw [same, (List.append_inj' whole rfl).2]⟩
    have relative : (matchedInput pattern path).relative = ofSegments (between ++ [name]) := by
      rw [matchedInput, below]
      rfl
    obtain ⟨restSegments, restComponents⟩ := cut.below some
    obtain ⟨joined, start⟩ := cut.joined none some
    rw [steps_append, steps_named named, ← relative] at restComponents
    rw [← relative] at restSegments
    refine ⟨steps between, name, ?_, restComponents, ?_, ?_, targetOf_below restSegments named restComponents⟩
    · rw [← steps_named named, List.append_assoc, ← steps_append]
      exact cut.components
    · rw [relative]
      exact cut.joined_components none some
    · rw [relative]
      refine ⟨location, content, ?_, located, held⟩
      refine locate_alike cut.segments joined some cut.texts cut.moving start ?_ located
      intro empty
      have short : ((ofComponents (literalBase pattern)).join (ofSegments (between ++ [name]))).segments.length = 1 := by
        rw [Path.segments, empty]
        rfl
      have long : 0 < (literalBase pattern).length := List.length_pos_iff.mpr none
      rw [joined] at short
      simp only [List.length_append, List.length_map, List.length_cons, List.length_nil] at short
      omega

private theorem dropped_input (rooted : Rooted tree) {pattern : String} {stop : Path} {front : List Component}
    (directory : tree.isDirectory stop = true) (reached : unpointed stop.components = unpointed (literalBase pattern))
    (file : tree.isFile path = true) (pointed : literalBase pattern = .current :: front)
    (spelled : front <+: path.components) (apart : ¬ literalBase pattern <+: path.components) :
    ∃ between name, Dropped (literalBase pattern) (matchedInput pattern path) front between name := by
  obtain ⟨segments, name, split, named⟩ := file_named rooted file
  have relative : (matchedInput pattern path).relative = ⟨name⟩ := by
    have missed : path.below? (literalBase pattern) = none := by
      unfold below?
      exact if_neg (by rwa [List.isPrefixOf_iff_prefix])
    rw [matchedInput, missed, nameOf, fileName?_named split named]
    rfl
  obtain ⟨absolute, alone⟩ := name_relative (segments_plain path name (by simp [split]))
  have single : (Path.mk name).components = [] ++ [.name name] := by
    have point : name ≠ "." := by
      rintro rfl
      cases named
    rw [components_eq, lead, absolute, alone, steps_named named]
    simp [point]
  have based : (ofComponents (literalBase pattern)).components = literalBase pattern :=
    @ofComponents_components ⟨pattern⟩ _ (by simp [pointed]) (List.takeWhile_prefix _)
  have text : (ofComponents (literalBase pattern)).text ≠ "" := by
    intro empty
    rw [Path.components, Path.segments, isAbsolute, empty, pointed] at based
    cases based
  obtain ⟨behind, whole⟩ := spelled
  have components : path.components = (lead path ++ steps segments) ++ [.name name] := by
    rw [components_eq, split, steps_append, steps_named named, List.append_assoc]
  obtain ⟨between, rfl⟩ : ∃ between, behind = between ++ [.name name] := by
    rcases List.eq_nil_or_concat behind with rfl | ⟨between, last, same⟩
    · refine absurd ?_ (directory_not_file directory file)
      rw [reached, pointed, ← whole, List.append_nil]
      rfl
    · rw [List.concat_eq_append] at same
      rw [same, ← List.append_assoc, components] at whole
      exact ⟨between, by rw [same, (List.append_inj' whole rfl).2]⟩
  refine ⟨between, name, pointed, apart, ?_, relative, ?_, ?_⟩
  · rw [List.append_assoc]
    exact whole.symm
  · rw [relative, join_components text absolute, based, alone, steps_named named]
  · exact @targetOf_below (matchedInput pattern path) [] [] name (by rw [relative, alone]; rfl) named
      (by rw [relative, single])

/-- Every file that a pattern matches keeps its path below the base of the pattern, except that a pattern which
starts with a point leaves only the name of a file that is not spelled with that point. -/
theorem matched_inputs_below_base {tree : FileTree} {matching : Glob.Matching} {pattern : String} {files : List Path}
    (rooted : Rooted tree) (finds : ∀ glob path, .ok path ∈ matching tree glob → .ok path ∈ Glob.entries tree glob)
    (wild : Pattern.isPattern pattern = true) (expanded : Glob.expand matching tree pattern = .ok files) :
    inputsOf matching tree pattern = .ok (files.map (matchedInput pattern)) ∧
    ∀ file ∈ files, tree.isFile file = true ∧
      ((∃ between name, Kept tree (literalBase pattern) (matchedInput pattern file) between name) ∨
        ∃ front between name, Dropped (literalBase pattern) (matchedInput pattern file) front between name) := by
  refine ⟨by rw [inputsOf, if_pos wild, expanded], ?_⟩
  intro file member
  obtain ⟨glob, read, each⟩ := expand_member expanded
  obtain ⟨found, isFile⟩ := each file member
  refine ⟨isFile, ?_⟩
  obtain ⟨path, inside, same⟩ := List.mem_map.mp (finds glob file found)
  cases same
  obtain ⟨⟨stop, directory, reached⟩, below⟩ := found_below_base rooted read wild inside
  by_cases spelled : literalBase pattern <+: file.components
  · exact .inl (kept_input rooted directory reached isFile spelled)
  · rcases below with spelledToo | ⟨front, pointed, spelledFront⟩
    · exact absurd spelledToo spelled
    · exact .inr ⟨front, dropped_input rooted directory reached isFile pointed spelledFront spelled⟩

/-- A file in a directory below the base, which is spelled with two slashes. -/
theorem matched_inputs_below_base_nested :
    let tree := (FileTree.mk [] ["w"]).plant ["w", "views", "a", "list.html"] []
    let pattern := "views//**/*.html"
    let files := [Path.mk "views/a/list.html"]
    inputsOf Glob.entries tree pattern = .ok (files.map (matchedInput pattern)) ∧
    ∀ file ∈ files, tree.isFile file = true ∧
      ((∃ between name, Kept tree (literalBase pattern) (matchedInput pattern file) between name) ∨
        ∃ front between name, Dropped (literalBase pattern) (matchedInput pattern file) front between name) := by
  intro tree pattern files
  obtain ⟨rooted, expanded⟩ : Rooted tree ∧ Glob.expand Glob.entries tree pattern = .ok files := by decide +kernel
  exact matched_inputs_below_base rooted (fun _ _ member => member) (by decide) expanded

/-- A file that loses the directory it is in to the point at the start of its pattern. -/
theorem leading_point_drops_directories :
    let tree := (FileTree.mk [] ["w"]).plant ["w", "views", "a", "list.html"] []
    let pattern := "./views/**/*.html"
    let input : Input := ⟨⟨"views/a/list.html"⟩, ⟨"list.html"⟩⟩
    inputsOf Glob.entries tree pattern = .ok [input] ∧
      ¬ Meet tree ((ofComponents (literalBase pattern)).join input.relative) input.path ∧
      targetOf ⟨"out"⟩ .module input = ⟨"out/list.js"⟩ := by
  decide +kernel

end Stencil.Proofs.MatchedInputs
