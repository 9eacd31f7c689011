import Stencil.Proofs.FileLocations

/-! What a build does to the files of a tree. Before all inputs and targets are known it does nothing; then it does
one job after the other, each of which changes the file of its target and no other one, and it stops at the first
job that fails. -/

namespace Stencil.Proofs.BuildEffects
open Build FileTree FileLocations
open TemplateReading (bind_ok mapError_ok)

def jobFor (dir : Path) (emit : Emit) (input : Input) : Job := ⟨input, targetOf dir emit input⟩

/-- The targets differ in a component. -/
def Apart (one two : Job) : Prop := one.target.components ≠ two.target.components

instance (one two : Job) : Decidable (Apart one two) :=
  inferInstanceAs (Decidable (one.target.components ≠ two.target.components))

private theorem sameFile_true {one two : Job} : sameFile one.target two.target = true ↔ ¬ Apart one two := by
  unfold sameFile Apart
  rw [decide_eq_true_iff, ne_eq, not_not]

private theorem jobsFrom_stops {dir : Path} {emit : Emit} {earlier : List Job} {input : Input} {one : Job} (rest : List Input)
    (found : (earlier.find? fun one => sameFile one.target (jobFor dir emit input).target) = some one) :
    jobsFrom dir emit earlier (input :: rest) =
      .error (.sameTarget one.input.path (jobFor dir emit input).input.path (jobFor dir emit input).target) := by
  simp only [jobFor] at found ⊢
  simp only [jobsFrom, found]

private theorem jobsFrom_goesOn {dir : Path} {emit : Emit} {earlier : List Job} {input : Input} (rest : List Input)
    (fresh : (earlier.find? fun one => sameFile one.target (jobFor dir emit input).target) = none) :
    jobsFrom dir emit earlier (input :: rest) =
      (jobsFrom dir emit (earlier ++ [jobFor dir emit input]) rest).map (jobFor dir emit input :: ·) := by
  simp only [jobFor] at fresh ⊢
  simp only [jobsFrom, fresh]
  cases jobsFrom dir emit (earlier ++ [⟨input, targetOf dir emit input⟩]) rest <;> rfl

private theorem jobsFrom_cases (dir : Path) (emit : Emit) (earlier : List Job) (inputs : List Input) :
    (jobsFrom dir emit earlier inputs = .ok (inputs.map (jobFor dir emit)) ∧
        (∀ one ∈ earlier, ∀ two ∈ inputs.map (jobFor dir emit), Apart one two) ∧
        (inputs.map (jobFor dir emit)).Pairwise Apart) ∨
      ∃ before one two after, inputs.map (jobFor dir emit) = before ++ two :: after ∧ one ∈ earlier ++ before ∧
        ¬ Apart one two ∧ jobsFrom dir emit earlier inputs = .error (.sameTarget one.input.path two.input.path two.target) := by
  induction inputs generalizing earlier with
  | nil => simp [jobsFrom]
  | cons input rest ih =>
    have stops {one : Job} := @jobsFrom_stops dir emit earlier input one rest
    have goesOn := @jobsFrom_goesOn dir emit earlier input rest
    rw [List.map_cons]
    generalize jobFor dir emit input = job at *
    cases found : earlier.find? fun one => sameFile one.target job.target with
    | some one =>
      have same := List.find?_some found
      exact .inr ⟨[], one, job, rest.map (jobFor dir emit), rfl, by simpa using List.mem_of_find?_eq_some found,
        (@sameFile_true one job).mp same, stops found⟩
    | none =>
      have fresh : ∀ one ∈ earlier, Apart one job := by
        intro one member
        by_contra same
        exact List.find?_eq_none.mp found one member ((@sameFile_true one job).mpr same)
      rw [goesOn found]
      rcases ih (earlier ++ [job]) with ⟨made, others, apart⟩ | ⟨before, one, two, after, split, member, same, stopped⟩
      · left
        simp only [List.forall_mem_append, List.forall_mem_cons] at others
        refine ⟨by rw [made]; rfl, ?_, List.pairwise_cons.mpr ⟨others.2.1, apart⟩⟩
        intro one member two inside
        rcases List.mem_cons.mp inside with rfl | later
        · exact fresh one member
        · exact others.1 one member two later
      · right
        refine ⟨job :: before, one, two, after, by rw [split]; rfl, by simpa using member, same, ?_⟩
        rw [stopped]
        rfl

theorem not_apart {jobs before after : List Job} {one two : Job} (split : jobs = before ++ two :: after) (earlier : one ∈ before)
    (same : ¬ Apart one two) : ¬ jobs.Pairwise Apart := by
  intro apart
  rw [split] at apart
  exact same ((List.pairwise_append.mp apart).2.2 one earlier two List.mem_cons_self)

private theorem jobs_cases (dir : Path) (emit : Emit) (inputs : List Input) :
    ((inputs.map (jobFor dir emit)).Pairwise Apart ∧ jobs dir emit inputs = .ok (inputs.map (jobFor dir emit))) ∨
      ∃ before one two after, inputs.map (jobFor dir emit) = before ++ two :: after ∧ one ∈ before ∧ ¬ Apart one two ∧
        jobs dir emit inputs = .error (.sameTarget one.input.path two.input.path two.target) := by
  rcases jobsFrom_cases dir emit [] inputs with ⟨made, _, apart⟩ | repeated
  · exact .inl ⟨apart, made⟩
  · exact .inr repeated

section Jobs
variable (request : Request) (config : Config) (emit : Emit)

/-- A job is done: the output of its input is built, the directory of its target made and the target written. -/
def Writes (tree : FileTree) (job : Job) (text : String) (new : FileTree) : Prop :=
  build tree request config emit job.input.path = .ok text ∧
    ∃ between, prepare tree job.target = (between, none) ∧ between.writeText job.target text = .ok new

/-- A job fails, and leaves a tree. -/
inductive Fails (tree : FileTree) (job : Job) : Build.Fault → FileTree → Prop
  | unbuilt {fault} (failed : build tree request config emit job.input.path = .error fault) : Fails tree job fault tree
  | unprepared {text fault new} (built : build tree request config emit job.input.path = .ok text)
      (failed : prepare tree job.target = (new, some fault)) : Fails tree job fault new
  | unwritten {text fault new} (built : build tree request config emit job.input.path = .ok text)
      (prepared : prepare tree job.target = (new, none)) (failed : new.writeText job.target text = .error fault) :
      Fails tree job (.unwritable job.target fault) new

/-- Jobs are done in turn. -/
inductive WritesAll : FileTree → List Job → FileTree → Prop
  | nil (tree : FileTree) : WritesAll tree [] tree
  | cons {tree between new : FileTree} {job : Job} {text : String} {rest : List Job}
      (first : Writes request config emit tree job text between) (later : WritesAll between rest new) :
      WritesAll tree (job :: rest) new

/-- What is printed about jobs that are done. -/
def noted (jobs : List Job) : List Printed := jobs.map fun job => .wrote job.target

end Jobs

variable {request : Request} {config : Config} {emit : Emit} {tree between new final : FileTree} {job : Job}
  {jobs : List Job} {location : Location}

private theorem runJobs_step (job : Job) (rest : List Job) :
    (∃ fault final, Fails request config emit tree job fault final ∧
        runJobs request config emit tree (job :: rest) = (final, [], some fault)) ∨
      ∃ text new, Writes request config emit tree job text new ∧
        runJobs request config emit tree (job :: rest) =
          ((runJobs request config emit new rest).1, .wrote job.target :: (runJobs request config emit new rest).2.1,
            (runJobs request config emit new rest).2.2) := by
  cases built : build tree request config emit job.input.path with
  | error fault => exact .inl ⟨fault, tree, .unbuilt built, by simp only [runJobs, built]⟩
  | ok text =>
    cases prepared : prepare tree job.target with
    | mk between fault =>
      cases fault with
      | some fault => exact .inl ⟨fault, between, .unprepared built prepared, by simp only [runJobs, built, prepared]⟩
      | none =>
        cases written : between.writeText job.target text with
        | error fault =>
          exact .inl ⟨_, between, .unwritten built prepared written, by simp only [runJobs, built, prepared, written]⟩
        | ok new =>
          exact .inr ⟨text, new, ⟨built, between, prepared, written⟩, by simp only [runJobs, built, prepared, written]⟩

/-- A run does all jobs, or those before the first one that fails. -/
theorem runJobs_cases (jobs : List Job) :
    (∃ final, WritesAll request config emit tree jobs final ∧
        runJobs request config emit tree jobs = (final, noted jobs, none)) ∨
      ∃ done failing later between final fault, jobs = done ++ failing :: later ∧
        WritesAll request config emit tree done between ∧ Fails request config emit between failing fault final ∧
        runJobs request config emit tree jobs = (final, noted done, some fault) := by
  induction jobs generalizing tree with
  | nil => exact .inl ⟨tree, .nil tree, rfl⟩
  | cons job rest ih =>
    rcases @runJobs_step request config emit tree job rest with ⟨fault, final, fails, stops⟩ | ⟨text, new, first, goesOn⟩
    · exact .inr ⟨[], job, rest, tree, final, fault, rfl, .nil tree, fails, stops⟩
    · rcases @ih new with ⟨final, all, run⟩ | ⟨done, failing, later, between, final, fault, split, all, fails, run⟩
      · refine .inl ⟨final, .cons first all, ?_⟩
        rw [goesOn, run]
        rfl
      · refine .inr ⟨job :: done, failing, later, between, final, fault, ?_, .cons first all, fails, ?_⟩
        · rw [split, List.cons_append]
        · rw [goesOn, run]
          rfl

/-- The output for a source under the name of its file: a module, or the nodes of the template. -/
def Renders (request : Request) (config : Config) (emit : Emit) (path : Path) (source text : String) : Prop :=
  let options : Options := { config.options with
    templateName := some (path.stem?.getD "template")
    functionName := request.functionName.getD config.options.functionName }
  match emit with
  | .module => compile source options = .ok text
  | .nodes => ∃ template, parse source options = .ok template ∧ text = template.toJson.pretty 0 ++ "\n"

theorem Renders.unique {path : Path} {source one two : String} (left : Renders request config emit path source one)
    (right : Renders request config emit path source two) : one = two := by
  cases emit with
  | module => exact Except.ok.inj (left.symm.trans right)
  | nodes =>
    obtain ⟨template, parsed, rfl⟩ := left
    obtain ⟨template', parsed', rfl⟩ := right
    cases parsed.symm.trans parsed'
    rfl

theorem build_ok {path : Path} {text : String} : build tree request config emit path = .ok text ↔
    ∃ location content source, tree.locate path = .ok location ∧ file? tree location = some content ∧
      textOf? content = some source ∧ Renders request config emit path source text := by
  have outputs {source : String} : outputOf (optionsFor request config path) emit path source = .ok text ↔
      Renders request config emit path source text := by
    cases emit with
    | module => exact mapError_ok
    | nodes => simp only [outputOf, bind_ok, mapError_ok, Renders, pure, Except.pure, Except.ok.injEq, optionsFor, @eq_comm _ text]
  simp only [build, bind_ok, mapError_ok, readText_ok, outputs]
  constructor
  · rintro ⟨source, ⟨location, content, located, held, decoded⟩, output⟩
    exact ⟨location, content, source, located, held, decoded, output⟩
  · rintro ⟨location, content, source, located, held, decoded, output⟩
    exact ⟨source, ⟨location, content, located, held, decoded⟩, output⟩

theorem prepare_adds (tree : FileTree) (target : Path) : AddsDirectories tree (prepare tree target).1 := by
  unfold prepare
  split
  · exact .refl tree
  · exact ensureWithin_adds tree _ _

/-- A job that is done changes one file, the one that its target leads to. -/
structure Effect (target : Path) (text : String) (tree new : FileTree) (location : Location) : Prop where
  grows : Grows tree new
  target : new.locate target = .ok location
  content : file? new location = some text.toUTF8.toList
  others : ∀ other, other ≠ location → file? new other = file? tree other

theorem Writes.effect {text : String} (writes : Writes request config emit tree job text new) :
    ∃ location, Effect job.target text tree new location := by
  obtain ⟨_, between, prepared, written⟩ := writes
  have adds := prepare_adds tree job.target
  rw [prepared] at adds
  obtain ⟨location, located, free, rfl⟩ := writeText_ok.mp written
  have grows := put_file_grows text.toUTF8.toList free
  refine ⟨location, adds.grows.trans grows, locate_mono grows located, file?_some.mpr (entry?_put_self _ free), ?_⟩
  intro other different
  rw [← adds.file? other, file?, file?, entry?_put_other between _ different]

theorem Fails.adds {fault : Build.Fault} (fails : Fails request config emit tree job fault new) : AddsDirectories tree new := by
  have adds := prepare_adds tree job.target
  cases fails with
  | unbuilt => exact .refl tree
  | unprepared _ failed =>
    rw [failed] at adds
    exact adds
  | unwritten _ prepared _ =>
    rw [prepared] at adds
    exact adds

theorem Fails.not_writes {fault : Build.Fault} {text : String} {other : FileTree}
    (fails : Fails request config emit tree job fault new) : ¬ Writes request config emit tree job text other := by
  rintro ⟨built, between, prepared, written⟩
  cases fails with
  | unbuilt failed => cases failed.symm.trans built
  | unprepared _ failed => cases failed.symm.trans prepared
  | unwritten built' prepared' failed =>
    cases built'.symm.trans built
    cases prepared'.symm.trans prepared
    cases failed.symm.trans written

theorem WritesAll.grows (all : WritesAll request config emit tree jobs new) : Grows tree new := by
  induction all with
  | nil tree => exact .refl tree
  | cons first _ ih =>
    obtain ⟨_, effect⟩ := first.effect
    exact effect.grows.trans ih

theorem Writes.unique {first second : FileTree} {one two : String} (left : Writes request config emit tree job one first)
    (right : Writes request config emit tree job two second) : first = second := by
  obtain ⟨built, between, prepared, written⟩ := left
  obtain ⟨built', between', prepared', written'⟩ := right
  cases built.symm.trans built'
  cases prepared.symm.trans prepared'
  cases written.symm.trans written'
  rfl

theorem WritesAll.unique {first second : FileTree} (left : WritesAll request config emit tree jobs first)
    (right : WritesAll request config emit tree jobs second) : first = second := by
  induction left with
  | nil =>
    cases right
    rfl
  | cons writes _ ih =>
    cases right with
    | cons writes' rest =>
      cases writes.unique writes'
      exact ih rest

theorem WritesAll.others (all : WritesAll request config emit tree jobs new)
    (other : ∀ job ∈ jobs, new.locate job.target ≠ .ok location) : file? new location = file? tree location := by
  induction all with
  | nil tree => rfl
  | cons first later ih =>
    simp only [List.forall_mem_cons] at other
    obtain ⟨place, effect⟩ := first.effect
    have different : location ≠ place := by
      rintro rfl
      exact other.1 (locate_mono later.grows effect.target)
    rw [ih other.2, effect.others location different]

theorem writesAll_append {before after : List Job} : WritesAll request config emit tree (before ++ after) new ↔
    ∃ between, WritesAll request config emit tree before between ∧ WritesAll request config emit between after new := by
  induction before generalizing tree with
  | nil =>
    constructor
    · exact fun all => ⟨tree, .nil tree, all⟩
    · rintro ⟨_, ⟨⟩, all⟩
      exact all
  | cons job before ih =>
    constructor
    · rintro (_ | ⟨first, later⟩)
      obtain ⟨between, earlier, rest⟩ := ih.mp later
      exact ⟨between, .cons first earlier, rest⟩
    · rintro ⟨between, _ | ⟨first, earlier⟩, rest⟩
      exact .cons first (ih.mpr ⟨between, earlier, rest⟩)

/-- Two paths lead to the same file. -/
def Meet (tree : FileTree) (one two : Path) : Prop :=
  ∃ location content, tree.locate one = .ok location ∧ tree.locate two = .ok location ∧ file? tree location = some content

/-- No target leads to the same file as an input. -/
def SparesInputs (final : FileTree) (jobs : List Job) : Prop :=
  ∀ one ∈ jobs, ∀ two ∈ jobs, ¬ Meet final one.target two.input.path

theorem Meet.symm {one two : Path} (meet : Meet final one two) : Meet final two one := by
  obtain ⟨location, content, first, second, held⟩ := meet
  exact ⟨location, content, second, first, held⟩

theorem Meet.mono {one two : Path} (grows : Grows new final) (meet : Meet new one two) : Meet final one two := by
  obtain ⟨location, content, first, second, held⟩ := meet
  obtain ⟨later, held⟩ := grows.file?_some held
  exact ⟨location, later, locate_mono grows first, locate_mono grows second, held⟩

theorem meet_iff {one two : Path} : Meet tree one two ↔
    (match tree.locate one, tree.locate two with
      | .ok first, .ok second => first == second && (file? tree first).isSome
      | _, _ => false) = true := by
  unfold Meet
  split
  next first second ledOne ledTwo =>
    simp only [ledOne, ledTwo, Bool.and_eq_true, beq_iff_eq, Option.isSome_iff_exists, Except.ok.injEq]
    constructor
    · rintro ⟨location, content, rfl, rfl, held⟩
      exact ⟨rfl, content, held⟩
    · rintro ⟨rfl, content, held⟩
      exact ⟨first, content, rfl, rfl, held⟩
  next astray =>
    refine iff_of_false ?_ (by simp)
    rintro ⟨location, _, ledOne, ledTwo, _⟩
    exact astray location location ledOne ledTwo

instance (tree : FileTree) (one two : Path) : Decidable (Meet tree one two) := decidable_of_iff _ meet_iff.symm

instance (final : FileTree) (jobs : List Job) : Decidable (SparesInputs final jobs) :=
  inferInstanceAs (Decidable (∀ one ∈ jobs, ∀ two ∈ jobs, ¬ Meet final one.target two.input.path))

/-- The target of a job has the output of its input, as that was at first. -/
def Holds (request : Request) (config : Config) (emit : Emit) (tree final : FileTree) (job : Job) : Prop :=
  ∃ place source text location, final.locate job.input.path = .ok place ∧ (file? tree place).bind textOf? = some source ∧
    Renders request config emit job.input.path source text ∧ final.locate job.target = .ok location ∧
    file? final location = some text.toUTF8.toList

/-- What is in the files when these jobs, and no other ones, have been done. A file that several targets lead to has
the output of the last one. -/
structure Leaves (request : Request) (config : Config) (emit : Emit) (tree final : FileTree) (done : List Job) : Prop where
  holds : ∀ before job after, done = before ++ job :: after → (∀ later ∈ after, ¬ Meet final job.target later.target) →
    Holds request config emit tree final job
  others : ∀ location, (∀ job ∈ done, final.locate job.target ≠ .ok location) → file? final location = file? tree location

theorem WritesAll.leaves {done : List Job} (all : WritesAll request config emit tree done between)
    (adds : AddsDirectories between final) (spares : SparesInputs final done) :
    Leaves request config emit tree final done where
  others location other := by
    rw [adds.file? location]
    exact all.others fun job member located => other job member (locate_mono adds.grows located)
  holds before job after split last := by
    subst split
    obtain ⟨first, earlier, _ | ⟨writes, later⟩⟩ := writesAll_append.mp all
    rename_i second text
    obtain ⟨location, effect⟩ := writes.effect
    obtain ⟨place, content, source, located, held, decoded, output⟩ := build_ok.mp writes.1
    have rest : Grows second final := later.grows.trans adds.grows
    have whole : Grows first final := effect.grows.trans rest
    have input : final.locate job.input.path = .ok place := locate_mono whole located
    have target : final.locate job.target = .ok location := locate_mono rest effect.target
    have unread : file? first place = file? tree place := by
      refine earlier.others fun one member met => ?_
      obtain ⟨content, held⟩ := whole.file?_some held
      exact spares one (by simp [member]) job (by simp) ⟨place, content, locate_mono whole met, input, held⟩
    have unwritten : file? between location = file? second location := by
      refine later.others fun one member met => ?_
      obtain ⟨content, held⟩ := rest.file?_some effect.content
      exact last one member ⟨location, content, target, locate_mono adds.grows met, held⟩
    refine ⟨place, source, text, location, input, ?_, output, target, ?_⟩
    · rw [← unread, held]
      exact decoded
    · rw [adds.file? location, unwritten, effect.content]

/-- How a build into a directory can end: two targets are the same, all jobs are done, or one of them fails. -/
inductive Ends (request : Request) (config : Config) (emit : Emit) (tree : FileTree) (jobs : List Job) : Outcome → Prop
  | rejected {before after : List Job} {one two : Job} (split : jobs = before ++ two :: after) (earlier : one ∈ before)
      (same : ¬ Apart one two) :
      Ends request config emit tree jobs ⟨tree, [], .error (.sameTarget one.input.path two.input.path two.target)⟩
  | completed {final : FileTree} (apart : jobs.Pairwise Apart) (all : WritesAll request config emit tree jobs final) :
      Ends request config emit tree jobs ⟨final, noted jobs ++ [.complete jobs.length], .ok jobs.length⟩
  | stopped {done later : List Job} {failing : Job} {between final : FileTree} {fault : Build.Fault}
      (apart : jobs.Pairwise Apart) (split : jobs = done ++ failing :: later)
      (earlier : WritesAll request config emit tree done between)
      (fails : Fails request config emit between failing fault final) :
      Ends request config emit tree jobs ⟨final, noted done, .error fault⟩

theorem runToDirectory_ends (dir : Path) (inputs : List Input) :
    Ends request config emit tree (inputs.map (jobFor dir emit)) (runToDirectory tree request config emit dir inputs) := by
  unfold runToDirectory
  rcases jobs_cases dir emit inputs with ⟨apart, made⟩ | ⟨before, one, two, after, split, earlier, same, stopped⟩
  · rw [made, ← List.length_map (jobFor dir emit)]
    rcases @runJobs_cases request config emit tree (inputs.map (jobFor dir emit)) with
      ⟨final, all, ran⟩ | ⟨done, failing, later, between, final, fault, split, earlier, fails, ran⟩
    · simp only [ran]
      exact .completed apart all
    · simp only [ran]
      exact .stopped apart split earlier fails
  · rw [stopped]
    exact .rejected split earlier same

theorem runToOutput_tree (inputs : List Input) : (runToOutput tree request config emit inputs).tree = tree := by
  unfold runToOutput
  split
  · split <;> rfl
  · rfl

theorem runToOutput_several {inputs : List Input} (several : inputs.length ≠ 1) :
    (runToOutput tree request config emit inputs).result = .error (.noDirectory inputs.length) := by
  unfold runToOutput
  split
  · exact absurd rfl several
  · rfl

/-- The directory that a build writes to, if any. -/
def outputDirOf (request : Request) (config : Config) : Option String := request.outputDir.orElse fun _ => config.outputDir

section Runs
variable {matching : Glob.Matching} {inputs : List Input} (resolved : resolve tree request.inputs matching = .ok inputs)
include resolved

theorem run_toOutput (nowhere : outputDirOf request config = none) :
    run tree request config matching = runToOutput tree request config (request.emit.getD config.emit) inputs := by
  unfold outputDirOf at nowhere
  simp only [run, resolved, nowhere]

theorem run_toDirectory {dir : String} (somewhere : outputDirOf request config = some dir) :
    run tree request config matching =
      runToDirectory tree request config (request.emit.getD config.emit) ⟨dir⟩ inputs := by
  unfold outputDirOf at somewhere
  simp only [run, resolved, somewhere]

end Runs

theorem SparesInputs.of_done {done later : List Job} {failing : Job}
    (spares : SparesInputs final (done ++ failing :: later)) : SparesInputs final done :=
  fun one first two second => spares one (List.mem_append_left _ first) two (List.mem_append_left _ second)

/-- A build that cannot make out its inputs or targets, or has nowhere to write several outputs, changes nothing. One
that knows its jobs changes the files of the targets of those that it has done, which are all or those before the
first one that fails. -/
theorem run_touches_targets (matching : Glob.Matching) (tree : FileTree) (request : Request) (config : Config) :
    let emit := request.emit.getD config.emit
    let outcome := run tree request config matching
    (∀ fault, resolve tree request.inputs matching = .error fault → outcome = ⟨tree, [], .error fault⟩) ∧
      (outputDirOf request config = none → outcome.tree = tree) ∧
      ∀ inputs, resolve tree request.inputs matching = .ok inputs →
        (outputDirOf request config = none → inputs.length ≠ 1 → outcome.result = .error (.noDirectory inputs.length)) ∧
        ∀ dir, outputDirOf request config = some dir →
          let jobs := inputs.map (jobFor ⟨dir⟩ emit)
          (¬ jobs.Pairwise Apart → outcome.tree = tree ∧ ∃ before one two after, jobs = before ++ two :: after ∧
              one ∈ before ∧ ¬ Apart one two ∧
              outcome.result = .error (.sameTarget one.input.path two.input.path two.target)) ∧
            (jobs.Pairwise Apart → SparesInputs outcome.tree jobs →
              (outcome.result = .ok inputs.length ∧ Leaves request config emit tree outcome.tree jobs) ∨
                ∃ done failing later between fault, jobs = done ++ failing :: later ∧
                  WritesAll request config emit tree done between ∧
                  Fails request config emit between failing fault outcome.tree ∧ outcome.result = .error fault ∧
                  Leaves request config emit tree outcome.tree done) := by
  intro emit outcome
  have unresolved fault (failed : resolve tree request.inputs matching = .error fault) : outcome = ⟨tree, [], .error fault⟩ := by
    simp only [outcome, run, failed]
  refine ⟨unresolved, ?_, fun inputs resolved => ⟨?_, ?_⟩⟩
  · intro nowhere
    cases resolved : resolve tree request.inputs matching with
    | error fault => rw [unresolved fault resolved]
    | ok inputs => rw [show outcome = _ from run_toOutput resolved nowhere, runToOutput_tree]
  · intro nowhere several
    rw [show outcome = _ from run_toOutput resolved nowhere, runToOutput_several several]
  · intro dir somewhere jobs
    have ends : Ends request config emit tree jobs outcome := by
      rw [show outcome = _ from run_toDirectory resolved somewhere]
      exact runToDirectory_ends ⟨dir⟩ inputs
    have length : jobs.length = inputs.length := List.length_map _
    rw [← length]
    clear_value outcome jobs
    cases ends with
    | @rejected before after one two split earlier same =>
      exact ⟨fun _ => ⟨rfl, before, one, two, after, split, earlier, same, rfl⟩,
        fun apart => absurd apart (not_apart split earlier same)⟩
    | completed apart all =>
      exact ⟨fun repeated => absurd apart repeated, fun _ spares => .inl ⟨rfl, all.leaves (.refl _) spares⟩⟩
    | @stopped done later failing between final fault apart split earlier fails =>
      refine ⟨fun repeated => absurd apart repeated, fun _ spares => .inr ?_⟩
      exact ⟨done, failing, later, between, fault, split, earlier, fails, rfl,
        earlier.leaves fails.adds (SparesInputs.of_done (split ▸ spares))⟩

/-- A template that cannot be compiled comes behind one that can. -/
theorem run_touches_targets_stopped :
    let tree := ((FileTree.mk [] ["w"]).plant ["w", "a.html"] "one".toUTF8.toList).plant
      ["w", "v", "b.html"] "<p>".toUTF8.toList
    let request : Request := { inputs := ["a.html", "v/*.html"], outputDir := some "out" }
    let config : Config := { options := { keyToken := .fixed "k" } }
    let jobs := [jobFor ⟨"out"⟩ .module (plainInput ⟨"a.html"⟩),
      jobFor ⟨"out"⟩ .module (matchedInput "v/*.html" ⟨"v/b.html"⟩)]
    let outcome := run tree request config
    jobs.Pairwise Apart ∧ SparesInputs outcome.tree jobs ∧
      ∃ done failing later between fault, jobs = done ++ failing :: later ∧
        WritesAll request config .module tree done between ∧
        Fails request config .module between failing fault outcome.tree ∧ outcome.result = .error fault ∧
        Leaves request config .module tree outcome.tree done := by
  intro tree request config jobs outcome
  obtain ⟨apart, spares, resolved, failed⟩ : jobs.Pairwise Apart ∧ SparesInputs outcome.tree jobs ∧
      resolve tree request.inputs = .ok (jobs.map Job.input) ∧ outcome.result ≠ .ok 2 := by decide +kernel
  have whole := (((run_touches_targets Glob.entries tree request config).2.2 _ resolved).2 "out" rfl).2 apart spares
  exact ⟨apart, spares, whole.resolve_left fun completed => failed completed.1⟩

/-- Targets that differ in their components can lead to one file, which then has the output of the later one. -/
theorem shared_target_overwritten :
    let tree := (((FileTree.mk [] ["w"]).plant ["w", "a.html"] "one".toUTF8.toList).plant
      ["w", "v", "m", "b.html"] []).plant ["w", "v", "a.html"] "two".toUTF8.toList
    let request : Request := { inputs := ["a.html", "v/*/../a.html"], outputDir := some "out" }
    let config : Config := { options := { keyToken := .fixed "k" } }
    let jobs := [jobFor ⟨"out"⟩ .module (plainInput ⟨"a.html"⟩),
      jobFor ⟨"out"⟩ .module (matchedInput "v/*/../a.html" ⟨"v/m/../a.html"⟩)]
    let outcome := run tree request config
    resolve tree request.inputs = .ok (jobs.map Job.input) ∧ jobs.Pairwise Apart ∧ SparesInputs outcome.tree jobs ∧
      outcome.result = .ok 2 ∧ outcome.tree.locate ⟨"out/a.js"⟩ = .ok ["w", "out", "a.js"] ∧
      ¬ ∃ text, Renders request config .module ⟨"a.html"⟩ "one" text ∧
        file? outcome.tree ["w", "out", "a.js"] = some text.toUTF8.toList := by
  intro tree request config jobs outcome
  let first := ";(function () \x7b\nvar __target\n\nreturn function description (data) \x7b\ntext(\"one\")\n\x7d\n\x7d)()\n"
  obtain ⟨resolved, apart, spares, result, target, compiled, lost⟩ :
      resolve tree request.inputs = .ok (jobs.map Job.input) ∧ jobs.Pairwise Apart ∧ SparesInputs outcome.tree jobs ∧
        outcome.result = .ok 2 ∧ outcome.tree.locate ⟨"out/a.js"⟩ = .ok ["w", "out", "a.js"] ∧
        compile "one" (optionsFor request config ⟨"a.html"⟩) = .ok first ∧
        file? outcome.tree ["w", "out", "a.js"] ≠ some first.toUTF8.toList := by decide +kernel
  refine ⟨resolved, apart, spares, result, target, ?_⟩
  rintro ⟨text, output, held⟩
  cases compiled.symm.trans output
  exact lost held

end Stencil.Proofs.BuildEffects
