import Stencil.Proofs.BuildEffects
import Stencil.Proofs.ParentDirectories

/-! Builds in another order. If a build completes, each of its jobs can be done in every tree between the first and
the last one of that build, so the jobs can be done in any order, and they leave the same files. That takes that the
jobs keep out of each other's way: their targets are different files, none of them is an input, and no input is behind
a directory that is not there at first. -/

namespace Stencil.Proofs.BuildOrder
open Build FileTree FileLocations ParentDirectories BuildEffects
open TemplateReading (bind_ok)

section Inputs
variable {matching : Glob.Matching} {tree : FileTree}

private theorem allInputs_cons {input : String} {rest : List String} {found : List Input} :
    allInputs matching tree (input :: rest) = .ok found ↔ ∃ first later, inputsOf matching tree input = .ok first ∧
      allInputs matching tree rest = .ok later ∧ found = first ++ later := by
  simp only [allInputs, bind_ok, pure, Except.pure, Except.ok.injEq, @eq_comm _ found]
  grind

private theorem allInputs_perm {inputs others : List String} (perm : inputs.Perm others) {found : List Input}
    (resolved : allInputs matching tree inputs = .ok found) :
    ∃ again, allInputs matching tree others = .ok again ∧ found.Perm again := by
  induction perm generalizing found with
  | nil => exact ⟨found, resolved, .refl found⟩
  | cons input _ ih =>
    obtain ⟨first, later, expanded, rest, rfl⟩ := allInputs_cons.mp resolved
    obtain ⟨again, rest, perm⟩ := ih rest
    exact ⟨first ++ again, allInputs_cons.mpr ⟨first, again, expanded, rest, rfl⟩, perm.append_left first⟩
  | swap one two rest =>
    obtain ⟨second, _, expandedTwo, others, rfl⟩ := allInputs_cons.mp resolved
    obtain ⟨first, later, expandedOne, fewer, rfl⟩ := allInputs_cons.mp others
    have swapped := allInputs_cons.mpr ⟨second, later, expandedTwo, fewer, rfl⟩
    refine ⟨first ++ (second ++ later), allInputs_cons.mpr ⟨first, _, expandedOne, swapped, rfl⟩, ?_⟩
    rw [← List.append_assoc, ← List.append_assoc]
    exact List.perm_append_comm.append_right later
  | trans _ _ ihFirst ihSecond =>
    obtain ⟨between, resolved, first⟩ := ihFirst resolved
    obtain ⟨again, resolved, second⟩ := ihSecond resolved
    exact ⟨again, resolved, first.trans second⟩

private theorem resolve_ok {inputs : List String} {found : List Input} :
    resolve tree inputs matching = .ok found ↔ allInputs matching tree inputs = .ok found ∧ found ≠ [] := by
  simp only [resolve, bind_ok]
  constructor
  · rintro ⟨all, resolved, checked⟩
    split at checked
    next => cases checked
    next some =>
      cases checked
      exact ⟨resolved, by simpa using some⟩
  · rintro ⟨resolved, some⟩
    exact ⟨found, resolved, by simp [some, pure, Except.pure]⟩

theorem resolve_perm {inputs others : List String} (perm : inputs.Perm others) {found : List Input}
    (resolved : resolve tree inputs matching = .ok found) :
    ∃ again, resolve tree others matching = .ok again ∧ found.Perm again := by
  obtain ⟨resolved, some⟩ := resolve_ok.mp resolved
  obtain ⟨again, resolved, perm⟩ := allInputs_perm perm resolved
  refine ⟨again, resolve_ok.mpr ⟨resolved, ?_⟩, perm⟩
  rintro rfl
  exact some perm.eq_nil

end Inputs

variable {request : Request} {config : Config} {emit : Emit} {tree current final : FileTree} {job : Job}
  {jobs others : List Job}

theorem prepare_below (below : Grows current final) {target : Path} {location : Location} {content : List UInt8}
    (located : final.locate target = .ok location) (held : file? final location = some content) :
    ∃ between, prepare current target = (between, none) ∧ Grows between final ∧ between.locate target = .ok location := by
  have trimmed := trimmed_of_file located held
  cases above : target.parent? with
  | none =>
    have here := @leadsTo_origin final target (locate_ok.mp located).1 above
    cases here.1.symm.trans located
    cases here.2.symm.trans (file?_some.mp held)
  | some parent =>
    have leads : parent.text = "" ∨ ∃ place, LeadsTo final parent place :=
      or_iff_not_imp_left.mpr fun nonempty => locate_through_parent trimmed above nonempty located
    obtain ⟨between, ensured, below, led⟩ := ensureDirectory_below below (parent?_trimmed above) leads
    refine ⟨between, ?_, below, locate_below_parent below trimmed above located led⟩
    simp [prepare, above, ensured]

private theorem located_before (grows : Grows tree final) {path : Path} {place : Location}
    (located : final.locate path = .ok place) (reached : (final.locate path).isOk → (tree.locate path).isOk) :
    tree.locate path = .ok place := by
  rcases locate_below grows located with same | missing
  · exact same
  · rw [located, missing] at reached
    cases reached rfl

/-- What a completed build has done can be done in every tree between the first and the last one of that build, if the
input can be reached from the first one on and nobody has written to it. -/
theorem writes_below (held : Holds request config emit tree final job)
    (reached : (final.locate job.input.path).isOk → (tree.locate job.input.path).isOk) (grows : Grows tree current)
    (below : Grows current final)
    (unspoilt : ∀ place, tree.locate job.input.path = .ok place → file? current place = file? tree place) :
    ∃ text new, Writes request config emit current job text new ∧ Grows new final := by
  obtain ⟨place, source, text, location, input, decoded, output, target, written⟩ := held
  obtain ⟨content, stored, decoded⟩ := Option.bind_eq_some_iff.mp decoded
  have first : tree.locate job.input.path = .ok place := located_before (grows.trans below) input reached
  have built : build current request config emit job.input.path = .ok text :=
    build_ok.mpr ⟨place, content, source, locate_mono grows first, (unspoilt place first).trans stored, decoded, output⟩
  obtain ⟨between, prepared, below, located⟩ := prepare_below below target written
  have free : between.entry? location ≠ some .directory := by
    intro directory
    cases (below.directory location directory).symm.trans (file?_some.mp written)
  refine ⟨text, _, ⟨built, between, prepared, writeText_ok.mpr ⟨location, located, free, rfl⟩⟩, ?_⟩
  exact put_below below free (fun other => by cases other) (fun _ _ => ⟨_, file?_some.mp written⟩)

theorem writesAll_below (held : ∀ job ∈ jobs, Holds request config emit tree final job) (spares : SparesInputs final jobs)
    (reached : ∀ job ∈ jobs, (final.locate job.input.path).isOk → (tree.locate job.input.path).isOk)
    (grows : Grows tree current) (below : Grows current final)
    (unspoilt : ∀ job ∈ jobs, ∀ place, tree.locate job.input.path = .ok place → file? current place = file? tree place) :
    ∃ new, WritesAll request config emit current jobs new ∧ Grows new final := by
  induction jobs generalizing current with
  | nil => exact ⟨current, .nil current, below⟩
  | cons job rest ih =>
    simp only [List.forall_mem_cons] at held reached unspoilt
    obtain ⟨text, new, writes, below⟩ := writes_below held.1 reached.1 grows below unspoilt.1
    obtain ⟨location, effect⟩ := writes.effect
    have later : ∀ other ∈ rest, ∀ place, tree.locate other.input.path = .ok place → file? new place = file? tree place := by
      intro other member place located
      rw [← unspoilt.2 other member place located]
      apply effect.others
      rintro rfl
      obtain ⟨content, stored⟩ := below.file?_some effect.content
      exact spares job List.mem_cons_self other (List.mem_cons_of_mem _ member)
        ⟨place, content, locate_mono below effect.target, locate_mono (grows.trans (effect.grows.trans below)) located, stored⟩
    obtain ⟨last, all, below⟩ := ih held.2
      (fun one first two second => spares one (List.mem_cons_of_mem _ first) two (List.mem_cons_of_mem _ second))
      reached.2 (grows.trans effect.grows) below later
    exact ⟨last, .cons writes all, below⟩

/-- The jobs keep out of each other's way in the tree that they leave. -/
structure Independent (tree final : FileTree) (jobs : List Job) : Prop where
  inputs : SparesInputs final jobs
  targets : jobs.Pairwise fun one two => ¬ Meet final one.target two.target
  reached : ∀ job ∈ jobs, (final.locate job.input.path).isOk → (tree.locate job.input.path).isOk

instance (tree final : FileTree) (jobs : List Job) : Decidable (Independent tree final jobs) :=
  decidable_of_iff (SparesInputs final jobs ∧ (jobs.Pairwise fun one two => ¬ Meet final one.target two.target) ∧
      ∀ job ∈ jobs, (final.locate job.input.path).isOk → (tree.locate job.input.path).isOk)
    ⟨fun ⟨inputs, targets, reached⟩ => ⟨inputs, targets, reached⟩,
      fun independent => ⟨independent.inputs, independent.targets, independent.reached⟩⟩

theorem Independent.perm (independent : Independent tree final jobs) (perm : jobs.Perm others) :
    Independent tree final others where
  inputs one first two second := independent.inputs one (perm.mem_iff.mpr first) two (perm.mem_iff.mpr second)
  targets := perm.pairwise independent.targets fun apart meet => apart meet.symm
  reached job member := independent.reached job (perm.mem_iff.mpr member)

theorem Independent.below (independent : Independent tree final jobs) (below : Grows current final) :
    Independent tree current jobs where
  inputs one first two second meet := independent.inputs one first two second (meet.mono below)
  targets := independent.targets.imp fun apart meet => apart (meet.mono below)
  reached job member located := by
    cases found : current.locate job.input.path with
    | error fault =>
      rw [found] at located
      cases located
    | ok place => exact independent.reached job member (by rw [locate_mono below found]; rfl)

theorem writesAll_holds (all : WritesAll request config emit tree jobs final) (independent : Independent tree final jobs) :
    ∀ job ∈ jobs, Holds request config emit tree final job := by
  intro job member
  obtain ⟨before, after, split⟩ := List.append_of_mem member
  refine (all.leaves (.refl final) independent.inputs).holds before job after split fun later behind => ?_
  have targets := split ▸ independent.targets
  exact (List.pairwise_cons.mp (List.pairwise_append.mp targets).2.1).1 later behind

theorem writesAll_reordered (all : WritesAll request config emit tree jobs final)
    (independent : Independent tree final jobs) (perm : jobs.Perm others) :
    ∃ other, WritesAll request config emit tree others other ∧ Grows other final := by
  have turned := independent.perm perm
  exact writesAll_below (fun job member => writesAll_holds all independent job (perm.mem_iff.mpr member)) turned.inputs
    turned.reached (.refl tree) all.grows (fun _ _ _ _ => rfl)

/-- In two trees, one above the other, in which a job is done, its target has the same content. -/
theorem holds_alike {first second : FileTree} (grows : Grows second first)
    (left : Holds request config emit tree first job) (right : Holds request config emit tree second job) :
    ∃ location, first.locate job.target = .ok location ∧ file? second location = file? first location := by
  obtain ⟨place, source, text, location, input, decoded, output, target, held⟩ := left
  obtain ⟨place', source', text', location', input', decoded', output', target', held'⟩ := right
  cases input.symm.trans (locate_mono grows input')
  cases decoded.symm.trans decoded'
  cases output.unique output'
  cases target.symm.trans (locate_mono grows target')
  exact ⟨location, target, held'.trans held.symm⟩

theorem same_entries {first second : FileTree} (grows : Grows first second) (back : Grows second first) {location : Location}
    (same : file? second location = file? first location) : second.entry? location = first.entry? location := by
  cases held : first.entry? location with
  | some entry =>
    cases entry with
    | directory => exact grows.directory location held
    | file content => exact file?_some.mp (same.trans (file?_some.mpr held))
  | none =>
    cases held' : second.entry? location with
    | none => rfl
    | some entry =>
      cases entry with
      | directory => cases held.symm.trans (back.directory location held')
      | file content => cases held.symm.trans (file?_some.mp (same.symm.trans (file?_some.mpr held')))

/-- The jobs of a completed build can be done in any order, with the same entries in the end. -/
theorem writesAll_perm (all : WritesAll request config emit tree jobs final) (independent : Independent tree final jobs)
    (perm : jobs.Perm others) : ∃ other, WritesAll request config emit tree others other ∧
      ∀ location, other.entry? location = final.entry? location := by
  obtain ⟨other, turned, below⟩ := writesAll_reordered all independent perm
  have independent' : Independent tree other others := (independent.below below).perm perm
  obtain ⟨again, all', above⟩ := writesAll_reordered turned independent' perm.symm
  cases all.unique all'
  refine ⟨other, turned, fun location => same_entries above below ?_⟩
  by_cases target : ∃ job ∈ jobs, final.locate job.target = .ok location
  · obtain ⟨job, member, located⟩ := target
    obtain ⟨place, located', same⟩ := holds_alike below (writesAll_holds all independent job member)
      (writesAll_holds turned independent' job (perm.mem_iff.mp member))
    cases located.symm.trans located'
    exact same
  · have outside : ∀ job ∈ jobs, final.locate job.target ≠ .ok location := fun job member located => target ⟨job, member, located⟩
    rw [all.others outside]
    refine turned.others fun job member located => ?_
    exact outside job (perm.mem_iff.mpr member) (locate_mono below located)

private theorem build_inputs (request : Request) (inputs : List String) (tree : FileTree) (config : Config) (emit : Emit)
    (path : Path) : build tree { request with inputs } config emit path = build tree request config emit path := rfl

private theorem runJobs_inputs (request : Request) (inputs : List String) (tree : FileTree) (config : Config) (emit : Emit)
    (jobs : List Job) : runJobs { request with inputs } config emit tree jobs = runJobs request config emit tree jobs := by
  induction jobs generalizing tree with
  | nil => rfl
  | cons job rest ih => simp only [runJobs, build_inputs, ih]

/-- How a build into a directory ends does not depend on how its inputs were called. -/
private theorem run_ends {matching : Glob.Matching} {found : List Input} {dir : String} (inputs : List String)
    (somewhere : outputDirOf request config = some dir) (resolved : resolve tree inputs matching = .ok found) :
    let emit := request.emit.getD config.emit
    Ends request config emit tree (found.map (jobFor ⟨dir⟩ emit)) (run tree { request with inputs } config matching) := by
  intro emit
  have same : run tree { request with inputs } config matching = runToDirectory tree request config emit ⟨dir⟩ found := by
    have directed : outputDirOf { request with inputs } config = some dir := somewhere
    rw [@run_toDirectory { request with inputs } config tree matching found resolved dir directed]
    simp only [runToDirectory, runJobs_inputs]
    rfl
  rw [same]
  exact runToDirectory_ends ⟨dir⟩ found

private theorem apart_perm (perm : jobs.Perm others) (apart : jobs.Pairwise Apart) : others.Pairwise Apart :=
  perm.pairwise apart fun different => Ne.symm different

/-- If a build completes, a build that has the same jobs in another order cannot end otherwise. -/
theorem ends_reordered {first second : Outcome} (perm : jobs.Perm others) (one : Ends request config emit tree jobs first)
    (two : Ends request config emit tree others second) (independent : Independent tree first.tree jobs) {count : Nat}
    (completed : first.result = .ok count) :
    second.result = .ok count ∧ ∀ location, second.tree.entry? location = first.tree.entry? location := by
  cases one with
  | rejected => cases completed
  | stopped => cases completed
  | completed apart all =>
    cases completed
    obtain ⟨other, turned, same⟩ := writesAll_perm all independent perm
    cases two with
    | rejected split earlier repeated => exact absurd (apart_perm perm apart) (not_apart split earlier repeated)
    | completed _ turned' =>
      cases turned.unique turned'
      exact ⟨by rw [perm.length_eq], same⟩
    | stopped _ split earlier fails =>
      subst split
      obtain ⟨between, earlier', _ | ⟨writes, _⟩⟩ := writesAll_append.mp turned
      cases earlier.unique earlier'
      exact absurd writes fails.not_writes

theorem run_resolves {matching : Glob.Matching} {count : Nat} (completed : (run tree request config matching).result = .ok count) :
    ∃ found, resolve tree request.inputs matching = .ok found := by
  cases resolved : resolve tree request.inputs matching with
  | ok found => exact ⟨found, rfl⟩
  | error fault =>
    simp only [run, resolved] at completed
    cases completed

/-- The order of the inputs does not matter to a build whose jobs keep out of each other's way. -/
theorem run_reordered (matching : Glob.Matching) (tree : FileTree) (request : Request) (config : Config)
    (inputs : List String) (dir : String) (perm : request.inputs.Perm inputs) (somewhere : outputDirOf request config = some dir) :
    let first := run tree request config matching
    let second := run tree { request with inputs } config matching
    (∀ found, resolve tree request.inputs matching = .ok found → ∀ final ∈ [first.tree, second.tree],
      Independent tree final (found.map (jobFor ⟨dir⟩ (request.emit.getD config.emit)))) →
    ∀ count, (first.result = .ok count ↔ second.result = .ok count) ∧
      (first.result = .ok count → ∀ location, second.tree.entry? location = first.tree.entry? location) := by
  intro first second independent count
  have forth (completed : first.result = .ok count) : second.result = .ok count ∧
      ∀ location, second.tree.entry? location = first.tree.entry? location := by
    obtain ⟨found, resolved⟩ := run_resolves completed
    obtain ⟨again, resolved', reordered⟩ := resolve_perm perm resolved
    exact ends_reordered (reordered.map _) (run_ends request.inputs somewhere resolved) (run_ends inputs somewhere resolved')
      (independent found resolved first.tree List.mem_cons_self) completed
  have back (completed : second.result = .ok count) : first.result = .ok count := by
    obtain ⟨again, resolved'⟩ := run_resolves completed
    obtain ⟨found, resolved, reordered⟩ := resolve_perm perm.symm resolved'
    have keeps := (independent found resolved second.tree (by simp)).perm (reordered.symm.map _)
    exact (ends_reordered (reordered.map _) (run_ends inputs somewhere resolved') (run_ends request.inputs somewhere resolved)
      keeps completed).1
  exact ⟨⟨fun completed => (forth completed).1, back⟩, fun completed => (forth completed).2⟩

/-- A file and a pattern, either of which may come first. -/
theorem run_reordered_pattern :
    let tree := ((FileTree.mk [] ["w"]).plant ["w", "a.html"] "one".toUTF8.toList).plant
      ["w", "v", "m", "b.html"] "two".toUTF8.toList
    let request : Request := { inputs := ["a.html", "v/*/*.html"], outputDir := some "out" }
    let config : Config := { options := { keyToken := .fixed "k" } }
    let first := run tree request config
    let second := run tree { request with inputs := ["v/*/*.html", "a.html"] } config
    first.result = .ok 2 ∧ second.result = .ok 2 ∧ ∀ location, second.tree.entry? location = first.tree.entry? location := by
  intro tree request config first second
  let found := [plainInput ⟨"a.html"⟩, matchedInput "v/*/*.html" ⟨"v/m/b.html"⟩]
  obtain ⟨completed, resolved, independent⟩ : first.result = .ok 2 ∧ resolve tree request.inputs = .ok found ∧
      ∀ final ∈ [first.tree, second.tree], Independent tree final (found.map (jobFor ⟨"out"⟩ .module)) := by decide +kernel
  have whole := run_reordered Glob.entries tree request config ["v/*/*.html", "a.html"] "out" (by decide) rfl ?_ 2
  · exact ⟨completed, whole.1.mp completed, whole.2 completed⟩
  · intro again resolved'
    cases resolved.symm.trans resolved'
    exact independent

/-- An input behind a directory that a build only makes can be read where it comes behind the job that makes it. -/
theorem made_directory_opens_input :
    let tree := ((FileTree.mk [] ["w"]).plant ["w", "v", "m", "b.html"] "one".toUTF8.toList).plant
      ["w", "out", "a.html"] "two".toUTF8.toList
    let request : Request := { inputs := ["out/m/../a.html", "v/*/b.html"], outputDir := some "out" }
    let config : Config := { options := { keyToken := .fixed "k" } }
    let jobs := [jobFor ⟨"out"⟩ .module (plainInput ⟨"out/m/../a.html"⟩),
      jobFor ⟨"out"⟩ .module (matchedInput "v/*/b.html" ⟨"v/m/b.html"⟩)]
    let first := run tree request config
    let second := run tree { request with inputs := ["v/*/b.html", "out/m/../a.html"] } config
    resolve tree request.inputs = .ok (jobs.map Job.input) ∧
      SparesInputs first.tree jobs ∧ SparesInputs second.tree jobs ∧
      first.result = .error (.unreadable ⟨"out/m/../a.html"⟩ .notFound) ∧ second.result = .ok 2 := by
  decide +kernel

end Stencil.Proofs.BuildOrder
