import Stencil.Files.Build
import Stencil.Proofs.TemplateReading

/-! Paths and what they lead to while a tree grows. Nothing that a build does removes an entry or makes a file of
a directory, so a path that leads somewhere leads there ever after. -/

namespace Stencil.Proofs.FileLocations
open FileTree Stencil.Path
open TemplateReading (bind_ok)

private theorem lookup_putEntry (entries : List (Location × Entry)) (location other : Location) (entry : Entry) :
    (putEntry location entry entries).lookup other = if other = location then some entry else entries.lookup other := by
  induction entries with
  | nil =>
    by_cases same : other = location
    · simp [putEntry, same]
    · simp [putEntry, same, List.lookup_cons, beq_eq_false_iff_ne.mpr same]
  | cons head rest ih =>
    obtain ⟨key, old⟩ := head
    by_cases found : key = location
    · subst found
      by_cases same : other = key
      · simp [putEntry, same]
      · simp [putEntry, same, List.lookup_cons, beq_eq_false_iff_ne.mpr same]
    · by_cases same : other = key
      · subst same
        simp [putEntry, found]
      · simp [putEntry, found, List.lookup_cons, beq_eq_false_iff_ne.mpr same, ih]

theorem entry?_put_other (tree : FileTree) {location other : Location} (entry : Entry) (different : other ≠ location) :
    FileTree.entry? (tree.put location entry) other = tree.entry? other := by
  simp [put, entry?, lookup_putEntry, different]

theorem entry?_put_self {tree : FileTree} {location : Location} (entry : Entry)
    (free : tree.entry? location ≠ some .directory) : FileTree.entry? (tree.put location entry) location = some entry := by
  unfold entry? at free ⊢
  split at free
  next => exact absurd rfl free
  next ordinary => simp [put, ordinary, lookup_putEntry]

/-- The content of the file at a location, if there is one. -/
def file? (tree : FileTree) (location : Location) : Option (List UInt8) :=
  match tree.entry? location with
  | some (.file content) => some content
  | _ => none

theorem file?_some {tree : FileTree} {location : Location} {content : List UInt8} :
    file? tree location = some content ↔ tree.entry? location = some (.file content) := by
  unfold file?
  split <;> simp_all

/-- Directories stay directories, and files stay files with whatever content. -/
structure Grows (old new : FileTree) : Prop where
  workingDir : new.workingDir = old.workingDir
  directory : ∀ location, old.entry? location = some .directory → new.entry? location = some .directory
  file : ∀ location content, old.entry? location = some (.file content) →
    ∃ later, new.entry? location = some (.file later)

theorem Grows.refl (tree : FileTree) : Grows tree tree :=
  ⟨rfl, fun _ held => held, fun _ content held => ⟨content, held⟩⟩

theorem Grows.trans {first second third : FileTree} (earlier : Grows first second) (later : Grows second third) :
    Grows first third where
  workingDir := later.workingDir.trans earlier.workingDir
  directory location held := later.directory location (earlier.directory location held)
  file location content held := by
    obtain ⟨between, held⟩ := earlier.file location content held
    exact later.file location between held

theorem Grows.file?_some {old new : FileTree} {location : Location} {content : List UInt8} (grows : Grows old new)
    (held : file? old location = some content) : ∃ later, file? new location = some later := by
  obtain ⟨later, held⟩ := grows.file location content (FileLocations.file?_some.mp held)
  exact ⟨later, FileLocations.file?_some.mpr held⟩

/-- All that is new are directories. -/
structure AddsDirectories (old new : FileTree) : Prop where
  workingDir : new.workingDir = old.workingDir
  entry : ∀ location, new.entry? location = old.entry? location ∨
    old.entry? location = none ∧ new.entry? location = some .directory

theorem AddsDirectories.refl (tree : FileTree) : AddsDirectories tree tree := ⟨rfl, fun _ => .inl rfl⟩

theorem AddsDirectories.trans {first second third : FileTree} (earlier : AddsDirectories first second)
    (later : AddsDirectories second third) : AddsDirectories first third where
  workingDir := later.workingDir.trans earlier.workingDir
  entry location := by
    rcases later.entry location with kept | ⟨free, made⟩
    · rw [kept]
      exact earlier.entry location
    · rcases earlier.entry location with kept | ⟨_, made'⟩
      · exact .inr ⟨kept ▸ free, made⟩
      · rw [made'] at free
        cases free

theorem AddsDirectories.grows {old new : FileTree} (adds : AddsDirectories old new) : Grows old new where
  workingDir := adds.workingDir
  directory location held := by
    rcases adds.entry location with kept | ⟨free, _⟩
    · rw [kept, held]
    · rw [free] at held
      cases held
  file location content held := by
    rcases adds.entry location with kept | ⟨free, _⟩
    · exact ⟨content, kept.trans held⟩
    · rw [free] at held
      cases held

theorem AddsDirectories.file? {old new : FileTree} (adds : AddsDirectories old new) (location : Location) :
    file? new location = file? old location := by
  rcases adds.entry location with kept | ⟨free, made⟩
  · simp [FileLocations.file?, kept]
  · simp [FileLocations.file?, free, made]

theorem put_directory_adds {tree : FileTree} {location : Location} (free : tree.entry? location = none) :
    AddsDirectories tree (tree.put location .directory) where
  workingDir := rfl
  entry other := by
    by_cases same : other = location
    · subst same
      exact .inr ⟨free, entry?_put_self .directory (by simp [free])⟩
    · exact .inl (entry?_put_other tree .directory same)

theorem put_file_grows {tree : FileTree} {location : Location} (content : List UInt8)
    (free : tree.entry? location ≠ some .directory) : Grows tree (tree.put location (.file content)) where
  workingDir := rfl
  directory other held := by
    have different : other ≠ location := by
      rintro rfl
      exact free held
    rw [entry?_put_other tree _ different, held]
  file other old held := by
    by_cases same : other = location
    · subst same
      exact ⟨content, entry?_put_self _ free⟩
    · exact ⟨old, (entry?_put_other tree _ same).trans held⟩

/-- A tree stays below a larger one when it gets an entry of the kind that the larger one has. -/
theorem put_below {tree final : FileTree} {location : Location} {entry : Entry} (grows : Grows tree final)
    (free : tree.entry? location ≠ some .directory)
    (directory : entry = .directory → final.entry? location = some .directory)
    (file : ∀ content, entry = .file content → ∃ later, final.entry? location = some (.file later)) :
    Grows (tree.put location entry) final where
  workingDir := grows.workingDir
  directory other held := by
    by_cases same : other = location
    · subst same
      rw [entry?_put_self entry free] at held
      exact directory (Option.some.inj held)
    · rw [entry?_put_other tree entry same] at held
      exact grows.directory other held
  file other content held := by
    by_cases same : other = location
    · subst same
      rw [entry?_put_self entry free] at held
      exact file content (Option.some.inj held)
    · rw [entry?_put_other tree entry same] at held
      exact grows.file other content held

variable {tree old new final : FileTree} {start place : Location}

theorem follow_cons {segment : String} {rest : List String} :
    tree.follow start (segment :: rest) = .ok place ↔ tree.entry? start = some .directory ∧
      segment.utf8ByteSize ≤ nameLimit ∧ tree.follow (step start segment) rest = .ok place := by
  simp only [follow]
  split
  next missing => simp [missing]
  next held => simp [held]
  next held => split <;> simp [held] <;> omega

theorem follow_append {front back : List String} :
    tree.follow start (front ++ back) = .ok place ↔
      ∃ between, tree.follow start front = .ok between ∧ tree.follow between back = .ok place := by
  induction front generalizing start with
  | nil => simp [follow]
  | cons segment front ih => simp only [List.cons_append, follow_cons, ih, and_assoc, exists_and_left]

private theorem follow_mono (grows : Grows old new) {segments : List String} (led : old.follow start segments = .ok place) :
    new.follow start segments = .ok place := by
  induction segments generalizing start with
  | nil => exact led
  | cons segment rest ih =>
    obtain ⟨held, short, led⟩ := follow_cons.mp led
    exact follow_cons.mpr ⟨grows.directory start held, short, ih led⟩

/-- In a smaller tree a way through directories is open as far as these are there. -/
private theorem follow_below (grows : Grows tree final) {segments : List String}
    (led : final.follow start segments = .ok place) :
    tree.follow start segments = .ok place ∨ tree.follow start segments = .error .notFound := by
  induction segments generalizing start with
  | nil => exact .inl led
  | cons segment rest ih =>
    obtain ⟨held, short, led⟩ := follow_cons.mp led
    cases earlier : tree.entry? start with
    | none => exact .inr (by simp [follow, earlier])
    | some entry =>
      cases entry with
      | directory => simpa [follow, earlier, Nat.not_lt.mpr short] using ih led
      | file content =>
        obtain ⟨_, other⟩ := grows.file start content earlier
        rw [held] at other
        cases other

/-- Segments lead to a directory. -/
def Enters (tree : FileTree) (start : Location) (segments : List String) (place : Location) : Prop :=
  tree.follow start segments = .ok place ∧ tree.entry? place = some .directory

/-- Whether a segment leads away from a directory. -/
def moves (segment : String) : Bool := (component? segment).isSome

private theorem moves_false {segment : String} : moves segment = false ↔ segment = "" ∨ segment = "." := by
  unfold moves component?
  split
  next idle => simp [idle]
  next busy => split <;> simp [busy]

theorem step_idle {segment : String} (idle : moves segment = false) (start : Location) :
    step start segment = start ∧ segment.utf8ByteSize ≤ nameLimit := by
  rcases moves_false.mp idle with rfl | rfl
  · exact ⟨rfl, by decide⟩
  · exact ⟨rfl, by decide⟩

theorem Enters.inside {segments : List String} (enters : Enters tree start segments place) :
    tree.entry? start = some .directory := by
  cases segments with
  | nil =>
    cases enters.1
    exact enters.2
  | cons segment rest => exact (follow_cons.mp enters.1).1

/-- Segments that stay where they are do not matter to where a directory is. -/
theorem enters_moves (inside : tree.entry? start = some .directory) (segments : List String) :
    Enters tree start segments place ↔ Enters tree start (segments.filter moves) place := by
  induction segments generalizing start with
  | nil => rfl
  | cons segment rest ih =>
    cases moving : moves segment with
    | false =>
      obtain ⟨stays, short⟩ := step_idle moving start
      rw [List.filter_cons_of_neg (by simp [moving]), ← ih inside, Enters, follow_cons, stays, Enters]
      simp [inside, short]
    | true =>
      rw [List.filter_cons_of_pos moving, Enters, Enters, follow_cons, follow_cons, and_assoc, and_assoc, and_assoc, and_assoc]
      refine and_congr_right' (and_congr_right' ?_)
      by_cases next : tree.entry? (step start segment) = some .directory
      · exact ih next
      · exact iff_of_false (fun enters => next (Enters.inside enters)) (fun enters => next (Enters.inside enters))

variable {path parent : Path}

/-- Where the segments of a path start. -/
def origin (tree : FileTree) (path : Path) : Location := if path.isAbsolute then [] else tree.workingDir

/-- What can be said of a path without a tree: it may name something. -/
structure Nameable (path : Path) : Prop where
  plain : '\x00' ∉ path.text.toList
  short : path.text.utf8ByteSize ≤ pathLimit
  nonempty : path.text ≠ ""

theorem origin_directory (tree : FileTree) (path : Path) : tree.entry? (origin tree path) = some .directory := by
  unfold origin
  split <;> simp [ entry?]

theorem Grows.origin (grows : Grows old new) (path : Path) : origin new path = origin old path := by
  simp [FileLocations.origin, grows.workingDir]

theorem locate_nameable (tree : FileTree) (nameable : Nameable path) :
    tree.locate path = tree.follow (origin tree path) path.segments := by
  simp [locate, nameable.plain, Nat.not_lt.mpr nameable.short, nameable.nonempty, origin]

theorem locate_ok : tree.locate path = .ok place ↔
    Nameable path ∧ tree.follow (origin tree path) path.segments = .ok place := by
  constructor
  · intro located
    have nameable : Nameable path := by
      unfold locate at located
      split at located
      next => cases located
      next plain =>
        split at located
        next => cases located
        next short =>
          split at located
          next => cases located
          next nonempty => exact ⟨plain, Nat.not_lt.mp short, nonempty⟩
    exact ⟨nameable, locate_nameable tree nameable ▸ located⟩
  · rintro ⟨nameable, led⟩
    rw [locate_nameable tree nameable, led]

theorem locate_mono (grows : Grows old new) (located : old.locate path = .ok place) : new.locate path = .ok place := by
  obtain ⟨nameable, led⟩ := locate_ok.mp located
  exact locate_ok.mpr ⟨nameable, grows.origin path ▸ follow_mono grows led⟩

theorem locate_below (grows : Grows tree final) (located : final.locate path = .ok place) :
    tree.locate path = .ok place ∨ tree.locate path = .error .notFound := by
  obtain ⟨nameable, led⟩ := locate_ok.mp located
  rw [grows.origin path] at led
  rw [locate_nameable tree nameable]
  exact follow_below grows led

/-- A path leads to a directory. -/
def LeadsTo (tree : FileTree) (path : Path) (place : Location) : Prop :=
  tree.locate path = .ok place ∧ tree.entry? place = some .directory

theorem leadsTo_iff : LeadsTo tree path place ↔
    Nameable path ∧ Enters tree (origin tree path) (path.segments.filter moves) place := by
  rw [LeadsTo, locate_ok, and_assoc, ← enters_moves (origin_directory tree path), Enters]

theorem LeadsTo.isDirectory (leads : LeadsTo tree path place) : tree.isDirectory path = true := by
  simp [FileTree.isDirectory, find, leads.1, leads.2, bind, Except.bind, pure, Except.pure]

theorem find_ok {entry : Entry} : tree.find path = .ok entry ↔
    ∃ location, tree.locate path = .ok location ∧ tree.entry? location = some entry := by
  unfold find
  rw [bind_ok]
  refine exists_congr fun location => and_congr_right fun _ => ?_
  split <;> simp_all [pure, Except.pure]

theorem readText_ok {text : String} : tree.readText path = .ok text ↔ ∃ location content,
    tree.locate path = .ok location ∧ file? tree location = some content ∧ textOf? content = some text := by
  unfold readText
  rw [bind_ok]
  constructor
  · rintro ⟨entry, found, read⟩
    obtain ⟨location, located, held⟩ := find_ok.mp found
    cases entry with
    | directory => cases read
    | file content =>
      refine ⟨location, content, located, file?_some.mpr held, ?_⟩
      dsimp only at read
      split at read
      next => cases read
      next decoded => cases read; exact decoded
  · rintro ⟨location, content, located, held, decoded⟩
    refine ⟨.file content, find_ok.mpr ⟨location, located, file?_some.mp held⟩, ?_⟩
    simp [decoded, pure, Except.pure]

theorem makeDirectory_ok : tree.makeDirectory path = .ok new ↔ ∃ location,
    tree.locate path = .ok location ∧ tree.entry? location = none ∧ new = tree.put location .directory := by
  unfold makeDirectory
  rw [bind_ok]
  refine exists_congr fun location => and_congr_right fun _ => ?_
  split
  next held => simp [held]
  next free => simp [free, pure, Except.pure, @eq_comm _ new]

theorem writeText_ok {text : String} : tree.writeText path text = .ok new ↔ ∃ location,
    tree.locate path = .ok location ∧ tree.entry? location ≠ some .directory ∧
      new = tree.put location (.file text.toUTF8.toList) := by
  unfold writeText
  rw [bind_ok]
  refine exists_congr fun location => and_congr_right fun _ => ?_
  split
  next held => simp [held]
  next other =>
    have free : tree.entry? location ≠ some .directory := other
    simp [free, pure, Except.pure, @eq_comm _ new]

theorem ensureWithin_adds (tree : FileTree) (path : Path) (budget : Nat) :
    AddsDirectories tree (tree.ensureWithin path budget).1 := by
  induction budget generalizing tree path with
  | zero => exact .refl tree
  | succ budget ih =>
    have made {tree new : FileTree} (made : tree.makeDirectory path = .ok new) : AddsDirectories tree new := by
      obtain ⟨location, _, free, rfl⟩ := makeDirectory_ok.mp made
      exact put_directory_adds free
    unfold ensureWithin
    split
    · exact .refl tree
    · split
      next first => exact made first
      next =>
        split
        · exact .refl tree
        next parent _ =>
          have rest := ih tree parent
          split
          next later fault ensured =>
            rw [ensured] at rest
            exact rest
          next later ensured =>
            rw [ensured] at rest
            split
            next second => exact rest.trans (made second)
            next => split <;> exact rest
      next => split <;> exact .refl tree

end Stencil.Proofs.FileLocations
