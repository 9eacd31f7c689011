import Stencil.Proofs.FileLocations

/-! The directory that a path is in. A path leads somewhere only through its parent, and below its parent it leads
where it leads in every larger tree; so a directory that a larger tree has can be made in every smaller one. -/

namespace Stencil.Proofs.ParentDirectories
open FileTree Stencil.Path FileLocations

variable {tree new final : FileTree} {path parent : Path} {place : Location}

theorem segmentsOf_nonempty (text : List Char) : segmentsOf text ≠ [] := by
  fun_induction segmentsOf text <;> simp

theorem segmentsOf_slash (front back : List Char) :
    segmentsOf (front ++ '/' :: back) = segmentsOf front ++ segmentsOf back := by
  induction front with
  | nil => simp [segmentsOf]
  | cons c front ih =>
    by_cases slash : c = '/'
    · simp [segmentsOf, slash, ih]
    · obtain ⟨first, others, split⟩ := List.exists_cons_of_ne_nil (segmentsOf_nonempty front)
      simp [segmentsOf, slash, ih, split]

theorem segmentsOf_plain {name : List Char} (plain : '/' ∉ name) : segmentsOf name = [name] := by
  induction name with
  | nil => rfl
  | cons c name ih =>
    simp only [List.mem_cons, not_or] at plain
    simp [segmentsOf, Ne.symm plain.1, ih plain.2]

private theorem trimEnd_suffix (text : List Char) : trimEnd text <:+ text := by
  fun_induction trimEnd text with
  | case1 => exact List.suffix_rfl
  | case2 rest _ ih => exact ih.trans (List.suffix_cons _ _)
  | case3 rest ih => exact ih.trans (List.suffix_cons _ _)
  | case4 => exact List.suffix_rfl

private theorem trimEnd_trimEnd (text : List Char) : trimEnd (trimEnd text) = trimEnd text := by
  fun_induction trimEnd text with
  | case1 => rfl
  | case2 rest _ ih => exact ih
  | case3 rest ih => exact ih
  | case4 text _ _ _ =>
    unfold trimEnd
    split <;> simp_all

private theorem trimEnd_nonempty {text : List Char} (nonempty : text ≠ []) : trimEnd text ≠ [] := by
  fun_induction trimEnd text with
  | case1 => exact nonempty
  | case2 rest more ih => exact ih more
  | case3 rest ih => exact ih (by simp)
  | case4 => exact nonempty

/-- The segments of a text that lead away from a directory. -/
def waypoints (text : List Char) : List String := ((segmentsOf text).map String.ofList).filter moves

private theorem waypoints_nil : waypoints [] = [] := by decide

private theorem waypoints_slash (front back : List Char) : waypoints (front ++ '/' :: back) = waypoints front ++ waypoints back := by
  simp [waypoints, segmentsOf_slash]

private theorem waypoints_trimEnd (text : List Char) : waypoints (trimEnd text).reverse = waypoints text.reverse := by
  fun_induction trimEnd text with
  | case1 => rfl
  | case2 rest _ ih => rw [ih, List.reverse_cons, waypoints_slash, waypoints_nil, List.append_nil]
  | case3 rest ih =>
    have point : waypoints ['.'] = [] := by decide
    rw [ih, List.reverse_cons, List.reverse_cons, List.reverse_cons, List.append_assoc, List.singleton_append,
      waypoints_slash, waypoints_slash, point, waypoints_nil]
  | case4 => rfl

private theorem segments_trimEnd (text : List Char) (longer : trimEnd text ≠ ['/']) :
    (segmentsOf (trimEnd text).reverse).length ≤ (segmentsOf text.reverse).length := by
  fun_induction trimEnd text with
  | case1 => exact le_rfl
  | case2 rest _ ih =>
    rw [List.reverse_cons, segmentsOf_slash, List.length_append]
    exact (ih longer).trans (Nat.le_add_right _ _)
  | case3 rest ih =>
    refine (ih longer).trans ?_
    simp [segmentsOf_slash, segmentsOf]
  | case4 => exact le_rfl

private theorem trimEnd_slash {rest : List Char} (longer : trimEnd ('/' :: rest) ≠ ['/']) : trimEnd ('/' :: rest) = trimEnd rest := by
  cases rest with
  | nil => exact absurd rfl longer
  | cons c rest => simp [trimEnd]

/-- A path without slashes or points at its end that can be left out. -/
def Trimmed (path : Path) : Prop := trimEnd path.text.toList.reverse = path.text.toList.reverse

private theorem parent?_text (above : path.parent? = some parent) :
    parent.text.toList.reverse = trimEnd path.frontReversed := by
  unfold parent? at above
  split at above <;> cases above
  simp

theorem parent?_trimmed (above : path.parent? = some parent) : Trimmed parent := by
  rw [Trimmed, parent?_text above, trimEnd_trimEnd]

private theorem parent?_start (above : path.parent? = some parent) : parent.text.toList <+: path.text.toList := by
  rw [← List.reverse_suffix, parent?_text above]
  calc trimEnd path.frontReversed <:+ path.frontReversed := trimEnd_suffix _
    _ <:+ trimEnd path.text.toList.reverse := List.dropWhile_suffix _
    _ <:+ path.text.toList.reverse := trimEnd_suffix _

private theorem parent?_nameable (nameable : Nameable path) (above : path.parent? = some parent) (nonempty : parent.text ≠ "") :
    Nameable parent where
  plain member := nameable.plain ((parent?_start above).subset member)
  short := by
    obtain ⟨rest, same⟩ := parent?_start above
    have whole : parent.text ++ String.ofList rest = path.text := by
      rw [← String.toList_inj, String.toList_append, String.toList_ofList, same]
    have size := nameable.short
    rw [← whole, String.utf8ByteSize_append] at size
    omega
  nonempty := nonempty

private theorem parent?_isAbsolute (above : path.parent? = some parent) (nonempty : parent.text ≠ "") :
    parent.isAbsolute = path.isAbsolute := by
  obtain ⟨rest, same⟩ := parent?_start above
  have some : parent.text.toList ≠ [] := by simpa using nonempty
  rw [isAbsolute, isAbsolute, ← same, List.head?_append_of_ne_nil _ some]

/-- A path is the way to its parent and a name. The parent of a bare name is the empty path. -/
structure Splits (path parent : Path) (front : List String) (name : String) : Prop where
  segments : path.segments = front ++ [name]
  bare : parent.text = "" → front = []
  waypoints : parent.text ≠ "" → front.filter moves = parent.segments.filter moves
  shorter : parent.text ≠ "" → parent.text ≠ "/" → parent.segments.length ≤ front.length

private theorem frontReversed_cases (path : Path) :
    path.frontReversed = [] ∨ ∃ rest, path.frontReversed = '/' :: rest := by
  have starts := List.head?_dropWhile_not (· ≠ '/') (trimEnd path.text.toList.reverse)
  rw [← frontReversed] at starts
  cases front : path.frontReversed with
  | nil => exact .inl rfl
  | cons c rest =>
    rw [front] at starts
    have slash : c = '/' := by simpa using starts
    exact .inr ⟨rest, by rw [slash]⟩

private theorem trimmed_text (trimmed : Trimmed path) :
    ∃ name, '/' ∉ name ∧ path.text.toList = path.frontReversed.reverse ++ name := by
  refine ⟨(path.text.toList.reverse.takeWhile (· ≠ '/')).reverse, ?_, ?_⟩
  · intro member
    simpa using List.mem_takeWhile_imp (List.mem_reverse.mp member)
  · rw [frontReversed, trimmed, ← List.reverse_append, List.takeWhile_append_dropWhile, List.reverse_reverse]

private theorem parent?_splits (trimmed : Trimmed path) (above : path.parent? = some parent) :
    ∃ front name, Splits path parent front name := by
  have back := parent?_text above
  obtain ⟨name, plain, whole⟩ := trimmed_text trimmed
  rcases frontReversed_cases path with front | ⟨rest, front⟩
  · rw [front] at whole back
    have empty : parent.text = "" := by simpa [trimEnd] using back
    refine ⟨[], String.ofList name, ?_, fun _ => rfl, fun nonempty => absurd empty nonempty,
      fun nonempty => absurd empty nonempty⟩
    simp [segments, whole, segmentsOf_plain plain]
  · rw [front] at whole back
    have text : parent.text.toList = (trimEnd ('/' :: rest)).reverse := by rw [← back, List.reverse_reverse]
    have nonempty : parent.text ≠ "" := by
      intro empty
      refine trimEnd_nonempty (List.cons_ne_nil '/' rest) ?_
      rw [← back, empty]
      rfl
    refine ⟨(segmentsOf rest.reverse).map String.ofList, String.ofList name, ?_, fun empty => absurd empty nonempty, ?_, ?_⟩
    · simp [segments, whole, segmentsOf_slash, segmentsOf_plain plain]
    · intro _
      change waypoints rest.reverse = waypoints parent.text.toList
      rw [text, waypoints_trimEnd, List.reverse_cons, waypoints_slash, waypoints_nil, List.append_nil]
    · intro _ other
      have longer : trimEnd ('/' :: rest) ≠ ['/'] := by
        intro root
        rw [root] at text
        exact other (by simpa using congrArg String.ofList text)
      have dropped := trimEnd_slash longer
      rw [dropped] at text longer
      rw [segments, text, List.length_map, List.length_map]
      exact segments_trimEnd rest longer

/-- A path without a parent goes nowhere from where it starts. -/
private theorem parent?_none (alone : path.parent? = none) : path.segments.filter moves = [] := by
  have ends : path.components.getLast? = none ∨ path.components.getLast? = some .root := by
    unfold parent? at alone
    split at alone
    · left; assumption
    · right; assumption
    · cases alone
  have still : path.segments.filterMap component? = [] := by
    by_contra moving
    obtain ⟨last, ended⟩ := Option.ne_none_iff_exists'.mp (mt List.getLast?_eq_none_iff.mp moving)
    have whole : path.components.getLast? = some last := by
      rw [components, List.getLast?_append, ended]
      rfl
    obtain ⟨segment, _, made⟩ := List.mem_filterMap.mp (List.mem_of_getLast? ended)
    rcases ends with none | root
    · rw [whole] at none
      cases none
    · rw [whole] at root
      cases root
      unfold component? at made
      split at made
      · cases made
      · split at made <;> cases made
  rw [List.filter_eq_nil_iff]
  intro segment member
  have idle := List.filterMap_eq_nil_iff.mp still segment member
  simp [moves, idle]

theorem leadsTo_origin (nameable : Nameable path) (alone : path.parent? = none) : LeadsTo tree path (origin tree path) := by
  refine leadsTo_iff.mpr ⟨nameable, ?_⟩
  rw [parent?_none alone]
  exact ⟨rfl, origin_directory tree path⟩

private theorem leadsTo_parent {front : List String} {name : String} {between : Location} (nameable : Nameable path)
    (above : path.parent? = some parent) (splits : Splits path parent front name) (nonempty : parent.text ≠ "") :
    LeadsTo tree parent between ↔ Enters tree (origin tree path) front between := by
  have start : origin tree parent = origin tree path := by
    rw [origin, origin, parent?_isAbsolute above nonempty]
  rw [leadsTo_iff, start, ← splits.waypoints nonempty, ← enters_moves (origin_directory tree path)]
  exact and_iff_right (parent?_nameable nameable above nonempty)

/-- A path leads somewhere only through its parent. -/
theorem locate_through_parent (trimmed : Trimmed path) (above : path.parent? = some parent) (nonempty : parent.text ≠ "")
    (located : tree.locate path = .ok place) : ∃ between, LeadsTo tree parent between := by
  obtain ⟨front, name, splits⟩ := parent?_splits trimmed above
  obtain ⟨nameable, led⟩ := locate_ok.mp located
  rw [splits.segments] at led
  obtain ⟨between, led, last⟩ := follow_append.mp led
  exact ⟨between, (leadsTo_parent nameable above splits nonempty).mpr ⟨led, (follow_cons.mp last).1⟩⟩

/-- Below a directory a path leads where it leads in a larger tree. -/
theorem locate_below_parent (grows : Grows tree final) (trimmed : Trimmed path) (above : path.parent? = some parent)
    (located : final.locate path = .ok place) (leads : parent.text = "" ∨ ∃ between, LeadsTo tree parent between) :
    tree.locate path = .ok place := by
  obtain ⟨front, name, splits⟩ := parent?_splits trimmed above
  obtain ⟨nameable, led⟩ := locate_ok.mp located
  rw [splits.segments] at led
  obtain ⟨_, _, last⟩ := follow_append.mp led
  have short := (follow_cons.mp last).2.1
  have enters : ∃ between, Enters tree (origin tree path) front between := by
    by_cases bare : parent.text = ""
    · rw [splits.bare bare]
      exact ⟨_, rfl, origin_directory tree path⟩
    · obtain ⟨between, leads⟩ := leads.resolve_left bare
      exact ⟨between, (leadsTo_parent nameable above splits bare).mp leads⟩
  obtain ⟨between, led, inside⟩ := enters
  have reached : tree.locate path = .ok (step between name) := by
    rw [locate_nameable tree nameable, splits.segments]
    exact follow_append.mpr ⟨between, led, follow_cons.mpr ⟨inside, short, rfl⟩⟩
  rw [reached, ← located, locate_mono grows reached]

/-- A path to a file ends in a name. -/
theorem trimmed_of_file {content : List UInt8} (located : tree.locate path = .ok place) (held : file? tree place = some content) :
    Trimmed path := by
  have outside : tree.entry? place ≠ some .directory := by simp [file?_some.mp held]
  have ends {front : List Char} {name : List Char} (plain : '/' ∉ name) (text : path.text.toList = front ++ '/' :: name) :
      moves (String.ofList name) = true := by
    by_contra idle
    have led := (locate_ok.mp located).2
    rw [segments, text, segmentsOf_slash, segmentsOf_plain plain, List.map_append] at led
    obtain ⟨between, _, last⟩ := follow_append.mp led
    obtain ⟨inside, _, stays⟩ := follow_cons.mp last
    rw [(step_idle (by simpa using idle) between).1] at stays
    cases stays
    exact outside inside
  have back : path.text.toList = path.text.toList.reverse.reverse := (List.reverse_reverse _).symm
  unfold Trimmed
  generalize path.text.toList.reverse = text at back
  fun_cases trimEnd text with
  | case1 => rfl
  | case2 rest =>
    have moving := ends (List.not_mem_nil) (back.trans List.reverse_cons)
    exact absurd moving (by decide)
  | case3 rest =>
    have moving := @ends rest.reverse ['.'] (by decide) (by simp [back])
    exact absurd moving (by decide)
  | case4 => rfl

/-- A directory is made or is there already, if the larger tree has it and the way to it is open. -/
private theorem makeDirectory_below (grows : Grows tree final) (located : tree.locate path = .ok place)
    (leads : LeadsTo final path place) :
    (∃ new, tree.makeDirectory path = .ok new ∧ Grows new final ∧ LeadsTo new path place) ∨
      tree.makeDirectory path = .error .alreadyExists ∧ LeadsTo tree path place := by
  cases held : tree.entry? place with
  | none =>
    have free : tree.entry? place ≠ some .directory := by simp [held]
    refine .inl ⟨_, makeDirectory_ok.mpr ⟨place, located, held, rfl⟩, ?_, ?_⟩
    · exact put_below grows free (fun _ => leads.2) (fun _ other => by cases other)
    · exact ⟨locate_mono (put_directory_adds held).grows located, entry?_put_self _ free⟩
  | some entry =>
    have present : tree.makeDirectory path = .error .alreadyExists := by
      simp [makeDirectory, located, held, bind, Except.bind]
    cases entry with
    | directory => exact .inr ⟨present, located, held⟩
    | file content =>
      obtain ⟨_, other⟩ := grows.file place content held
      rw [leads.2] at other
      cases other

/-- Directories that a larger tree has are made as far as they are missing. The budget is enough, since the parent of a
path has fewer segments, unless it is the root, which is there. -/
private theorem ensureWithin_below (grows : Grows tree final) {budget : Nat} (trimmed : Trimmed path)
    (leads : path.text = "" ∨ ∃ place, LeadsTo final path place) (some : 0 < budget)
    (enough : path.text ≠ "" → path.text ≠ "/" → path.segments.length < budget) :
    ∃ new, tree.ensureWithin path budget = (new, none) ∧ Grows new final ∧
      (path.text = "" ∨ ∃ place, LeadsTo new path place) := by
  induction budget generalizing path with
  | zero => cases some
  | succ budget ih =>
    by_cases empty : path.text = ""
    · exact ⟨tree, by simp [ensureWithin, empty], grows, .inl empty⟩
    obtain ⟨place, leads⟩ := leads.resolve_left empty
    rcases locate_below grows leads.1 with located | missing
    · rcases makeDirectory_below grows located leads with ⟨new, made, below, led⟩ | ⟨present, led⟩
      · exact ⟨new, by simp [ensureWithin, empty, made], below, .inr ⟨place, led⟩⟩
      · exact ⟨tree, by simp [ensureWithin, empty, present, led.isDirectory], grows, .inr ⟨place, led⟩⟩
    · have absent : tree.makeDirectory path = .error .notFound := by
        simp [makeDirectory, missing, bind, Except.bind]
      cases above : path.parent? with
      | none =>
        have here := @leadsTo_origin tree path (locate_ok.mp leads.1).1 above
        rw [here.1] at missing
        cases missing
      | some parent =>
        obtain ⟨front, name, splits⟩ := parent?_splits trimmed above
        have other : path.text ≠ "/" := by
          intro root
          obtain rfl : path = ⟨"/"⟩ := congrArg Path.mk root
          cases above
        have length : path.segments.length = front.length + 1 := by simp [splits.segments]
        have room := enough empty other
        obtain ⟨new, ensured, below, led⟩ := ih (parent?_trimmed above)
          (or_iff_not_imp_left.mpr fun nonempty => locate_through_parent trimmed above nonempty leads.1) (by omega)
          (fun nonempty longer => by have := splits.shorter nonempty longer; omega)
        have located := locate_below_parent below trimmed above leads.1 led
        rcases makeDirectory_below below located leads with ⟨later, made, below, led⟩ | ⟨present, led⟩
        · exact ⟨later, by simp [ensureWithin, empty, absent, above, ensured, made], below, .inr ⟨place, led⟩⟩
        · exact ⟨new, by simp [ensureWithin, empty, absent, above, ensured, present, led.isDirectory], below, .inr ⟨place, led⟩⟩

theorem ensureDirectory_below (grows : Grows tree final) (trimmed : Trimmed path)
    (leads : path.text = "" ∨ ∃ place, LeadsTo final path place) :
    ∃ new, tree.ensureDirectory path = (new, none) ∧ Grows new final ∧ (path.text = "" ∨ ∃ place, LeadsTo new path place) :=
  ensureWithin_below grows trimmed leads (Nat.succ_pos _) (fun _ _ => Nat.lt_succ_self _)

end Stencil.Proofs.ParentDirectories
