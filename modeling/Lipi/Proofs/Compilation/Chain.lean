import Mathlib.Data.List.Induction
import Lipi.Proofs.Compilation.Stages
import Lipi.Proofs.Program.FaultPlace

/-!
# Chains of stages

A chain is built from its front: each stage is put behind a chain that is there already, and what
it does depends on how that chain ends. `run` goes through the same stages from its own front, and
the two agree (`Chain.of_eq_run`). Whatever the stages, the log of a chain tells how far it came
(`Traced`), which kind of fault a stage finds is a matter of the stage alone
(`failureKinds_of_apply`), and checks leave no mark on what a chain hands on (`handOn_filter`).
-/

namespace Lipi.Stage

/-- Hands a text on from stage to stage, up to the first refusal. -/
def handOn (stages : List Stage) (text : Text) : Except Rejection Text :=
  stages.foldlM (fun text stage => stage.apply text) text

theorem handOn_append (front back : List Stage) (text : Text) :
    handOn (front ++ back) text = (handOn front text).bind (handOn back) :=
  List.foldlM_append

theorem handOn_cons (stage : Stage) (rest : List Stage) (text : Text) :
    handOn (stage :: rest) text = (stage.apply text).bind (handOn rest) := rfl

/-! ### Building a chain -/

abbrev Chain := Text → Logged (Except Rejection Text)

namespace Chain

def empty : Chain := fun text => ⟨[], .ok text⟩

/-- The chain with one more stage behind it. -/
def andThen (chain : Chain) (stage : Stage) : Chain := fun text =>
  let before := chain text
  match before.result with
  | .error rejection => ⟨before.events, .error rejection⟩
  | .ok reached =>
    match stage.apply reached with
    | .ok next => ⟨before.events ++ [.runningStage stage], .ok next⟩
    | .error rejection =>
      ⟨before.events ++ [.runningStage stage, .stageFailed stage rejection.kind], .error rejection⟩

/-- The chain of the stages, put together one after the other. -/
def of (stages : List Stage) : Chain :=
  stages.foldl andThen empty

end Chain

theorem run_append_singleton (stages : List Stage) (stage : Stage) (text : Text) :
    run (stages ++ [stage]) text = Chain.andThen (run stages) stage text := by
  induction stages generalizing text with
  | nil =>
    cases applied : stage.apply text <;> simp [run, Chain.andThen, applied]
  | cons first stages ih =>
    rw [List.cons_append, run, Chain.andThen, run]
    cases first.apply text with
    | error rejection => rfl
    | ok next =>
      simp only [ih, Chain.andThen]
      cases (run stages next).result with
      | error rejection => rfl
      | ok reached =>
        simp only
        cases stage.apply reached <;> rfl

theorem Chain.of_eq_run (stages : List Stage) : Chain.of stages = run stages := by
  induction stages using List.reverseRecOn with
  | nil => rfl
  | append_singleton stages stage ih =>
    funext text
    rw [run_append_singleton, ← ih, Chain.of, List.foldl_append]
    rfl

/-! ### The log of a chain -/

/-- Stage number `index` is the first to refuse what it is given. -/
structure FailsAt (stages : List Stage) (text : Text) (index : Nat) (stage : Stage)
    (rejection : Rejection) : Prop where
  isStage : stages[index]? = some stage
  refused : ∃ reached, handOn (stages.take index) text = .ok reached ∧
    stage.apply reached = .error rejection

theorem FailsAt.cons {first stage : Stage} {stages : List Stage} {text next : Text} {index : Nat}
    {rejection : Rejection} (passed : first.apply text = .ok next)
    (fails : FailsAt stages next index stage rejection) :
    FailsAt (first :: stages) text (index + 1) stage rejection := by
  obtain ⟨isStage, reached, before, refused⟩ := fails
  refine ⟨by simpa using isStage, reached, ?_, refused⟩
  rw [List.take_succ_cons, handOn_cons, passed]
  exact before

/-- What is logged by stages, and what comes of the text: all stages run, or all up to the first
that fails, which is logged once more. -/
inductive Traced (stages : List Stage) (text : Text) : List Event → Except Rejection Text → Prop where
  | passed {output : Text} : handOn stages text = .ok output →
      Traced stages text (stages.map .runningStage) (.ok output)
  | failed {index : Nat} {stage : Stage} {rejection : Rejection} :
      FailsAt stages text index stage rejection →
      Traced stages text
        ((stages.take (index + 1)).map .runningStage ++ [.stageFailed stage rejection.kind])
        (.error rejection)

theorem Traced.cons {stage : Stage} {stages : List Stage} {text next : Text} {events : List Event}
    {result : Except Rejection Text} (passed : stage.apply text = .ok next)
    (traced : Traced stages next events result) :
    Traced (stage :: stages) text (.runningStage stage :: events) result := by
  cases traced with
  | passed handed =>
    refine .passed ?_
    rw [handOn_cons, passed]
    exact handed
  | failed fails => exact .failed (fails.cons passed)

theorem run_traced (stages : List Stage) (text : Text) :
    Traced stages text (run stages text).events (run stages text).result := by
  induction stages generalizing text with
  | nil => exact .passed rfl
  | cons stage stages ih =>
    rw [run]
    cases applied : stage.apply text with
    | ok next => exact (ih next).cons applied
    | error rejection =>
      have here : FailsAt (stage :: stages) text 0 stage rejection := ⟨rfl, text, rfl, applied⟩
      exact .failed here

theorem FailsAt.handOn_eq {stages : List Stage} {text : Text} {index : Nat} {stage : Stage}
    {rejection : Rejection} (fails : FailsAt stages text index stage rejection) :
    handOn stages text = .error rejection := by
  obtain ⟨isStage, reached, before, refused⟩ := fails
  obtain ⟨inside, same⟩ := List.getElem?_eq_some_iff.mp isStage
  have split : stages = stages.take index ++ stage :: stages.drop (index + 1) := by
    rw [← same, List.getElem_cons_drop, List.take_append_drop]
  rw [split, handOn_append, before]
  change handOn (stage :: stages.drop (index + 1)) reached = .error rejection
  rw [handOn_cons, refused]
  rfl

theorem Traced.handOn_eq {stages : List Stage} {text : Text} {events : List Event}
    {result : Except Rejection Text} (traced : Traced stages text events result) :
    handOn stages text = result := by
  cases traced with
  | passed handed => exact handed
  | failed fails => exact fails.handOn_eq

theorem Traced.stageFailed_mem_iff {stages : List Stage} {text : Text} {events : List Event}
    {result : Except Rejection Text} (traced : Traced stages text events result) :
    (∃ stage kind, .stageFailed stage kind ∈ events) ↔
      ∃ index stage rejection, FailsAt stages text index stage rejection := by
  constructor
  · rintro ⟨stage, kind, member⟩
    cases traced with
    | passed handed => simp at member
    | failed fails => exact ⟨_, _, _, fails⟩
  · rintro ⟨index, stage, rejection, fails⟩
    have refused := fails.handOn_eq
    cases traced with
    | passed handed =>
      rw [handed] at refused
      cases refused
    | @failed _ first earlier _ => exact ⟨first, earlier.kind, by simp⟩

/-! ### Faults and checks -/

/-- The stages that can fail, each with the kind of fault it finds, as a log names them. -/
def failureKinds : List (String × String) :=
  [("boundary_extraction", "boundary"), ("shape_validation", "shape"),
    ("structure_validation", "structure"), ("loop_control_validation", "loop-control")]

theorem checked_eq_error {check : Text → Except Rejection Unit} {text : Text} {rejection : Rejection}
    (refused : checked check text = .error rejection) : check text = .error rejection := by
  unfold checked at refused
  split at refused
  · cases refused
  · rename_i found
    cases refused
    exact found

theorem checked_eq_ok {check : Text → Except Rejection Unit} {text next : Text}
    (passed : checked check text = .ok next) : next = text := by
  unfold checked at passed
  split at passed
  · cases passed
    rfl
  · cases passed

theorem failureKinds_of_apply {stage : Stage} {text : Text} {rejection : Rejection}
    (refused : stage.apply text = .error rejection) :
    (stage.name, rejection.kind.name) ∈ failureKinds := by
  cases stage with
  | extractProgram =>
    obtain ⟨kind, -⟩ := Text.extractProgram_error refused
    rw [kind]
    decide
  | checkBranches =>
    obtain ⟨kind, -⟩ := Text.checkBranches_error (checked_eq_error refused)
    rw [kind]
    decide
  | checkBraces =>
    obtain ⟨kind, -⟩ := Text.checkBraces_error (checked_eq_error refused)
    rw [kind]
    decide
  | checkLoopControl tracking =>
    obtain ⟨kind, -⟩ := Text.checkLoopControl_error (checked_eq_error refused)
    rw [kind, name]
    decide
  | stripComments => cases refused
  | terminateStatements => cases refused
  | replaceKeywords => cases refused

/-- Whether a stage only looks at its text. -/
def isCheck : Stage → Bool
  | checkBranches | checkBraces | checkLoopControl _ => true
  | _ => false

theorem eq_of_isCheck {stage : Stage} {text next : Text} (check : stage.isCheck)
    (passed : stage.apply text = .ok next) : next = text := by
  cases stage with
  | checkBranches => exact checked_eq_ok passed
  | checkBraces => exact checked_eq_ok passed
  | checkLoopControl tracking => exact checked_eq_ok passed
  | _ => cases check

theorem handOn_filter {stages : List Stage} {text output : Text}
    (handed : handOn stages text = .ok output) :
    handOn (stages.filter (!·.isCheck)) text = .ok output := by
  induction stages generalizing text with
  | nil => exact handed
  | cons stage stages ih =>
    rw [handOn_cons] at handed
    cases applied : stage.apply text with
    | error rejection =>
      rw [applied] at handed
      cases handed
    | ok next =>
      rw [applied] at handed
      have later := ih handed
      cases check : stage.isCheck with
      | true =>
        rw [eq_of_isCheck check applied] at later
        rwa [List.filter_cons_of_neg (by simp [check])]
      | false =>
        rw [List.filter_cons_of_pos (by simp [check]), handOn_cons, applied]
        exact later

/-! ### Any chain, and the chain of compilation -/

/-- A chain put together stage by stage is the run of its stages. It logs them up to the first that
fails, and that one once more with the kind of fault that it finds. What a chain hands on does not
depend on its checks. A compilation logs the sizes of its source and of its result around the log of
its chain. -/
theorem chain_traced (stages : List Stage) (text : Text) :
    Chain.of stages text = run stages text ∧
    Traced stages text (Chain.of stages text).events (Chain.of stages text).result ∧
    ((∃ stage kind, .stageFailed stage kind ∈ (Chain.of stages text).events) ↔
      ∃ index stage rejection, FailsAt stages text index stage rejection) ∧
    (∀ index stage rejection, FailsAt stages text index stage rejection →
      (stage.name, rejection.kind.name) ∈ failureKinds) ∧
    (∀ output, (Chain.of stages text).result = .ok output →
      (Chain.of (stages.filter (!·.isCheck)) text).result = .ok output) ∧
    ∀ options : CompileOptions,
      (compile options text).result = (Chain.of (compilation options.loopTracking) text).result ∧
      (compile options text).events =
        .compiling (Text.byteLength text) ::
          (Chain.of (compilation options.loopTracking) text).events ++
          match (compile options text).result with
          | .ok program => [.compiled (Text.byteLength program)]
          | .error _ => [] := by
  refine ⟨congrFun (Chain.of_eq_run stages) text, ?_⟩
  simp only [Chain.of_eq_run]
  have traced := run_traced stages text
  refine ⟨traced, traced.stageFailed_mem_iff, ?_, ?_, fun options => ⟨rfl, rfl⟩⟩
  · rintro index stage rejection ⟨-, reached, -, refused⟩
    exact failureKinds_of_apply refused
  · intro output passed
    have handed := traced.handOn_eq
    rw [passed] at handed
    have kept := (run_traced (stages.filter (!·.isCheck)) text).handOn_eq
    rw [← kept]
    exact handOn_filter handed

end Lipi.Stage
