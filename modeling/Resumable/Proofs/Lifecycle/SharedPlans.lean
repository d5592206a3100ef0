import Mathlib.Data.List.Dedup
import Resumable.Proofs.Lifecycle.Growth
import Resumable.Proofs.Promises.Invariants

/-!
Functions that are made from one definition share its plan, over all that a host asks for. Main statement:
`plans_are_shared`.
-/

set_option autoImplicit false

namespace Resumable

/-- What the body of a function of a kind runs by, given the plan of its definition. -/
def FunctionKind.routine (kind : FunctionKind) (plan : Plan) : Routine :=
  match kind with
  | .plain => .plain
  | .generator => .generator plan
  | .async => .async plan
  | .asyncGenerator => .asyncGenerator plan

/-- Whether a plan has been built for one function alone. -/
def PlanRecord.isUnshared (b : PlanRecord) : Bool := b.site.isNone && b.plan?.isSome

section Records

/-- A plan is that of a definition or of one function alone. -/
theorem succeeded_eq (w : World) :
    w.diagnostics.succeeded = (builtSites w.builds).length + w.builds.countP PlanRecord.isUnshared := by
  simp only [World.diagnostics, builtSites]
  induction w.builds with
  | nil => rfl
  | cons b bs ih =>
    obtain ⟨site, name, kind, result⟩ := b
    cases site <;> cases result <;>
      simp [List.filterMap_cons, PlanRecord.plan?, PlanRecord.built?, PlanRecord.isUnshared] at ih ⊢ <;>
      omega

theorem builtSites_subset (bs : List PlanRecord) : builtSites bs ⊆ bs.filterMap PlanRecord.site := by
  intro site h
  obtain ⟨b, hb, hsite⟩ := List.mem_filterMap.1 h
  exact List.mem_filterMap.2 ⟨b, hb, PlanRecord.site_of_built hsite⟩

theorem planAt?_isSome {w : World} {site : Nat} :
    (w.planAt? site).isSome = true ↔ site ∈ builtSites w.builds := by
  rw [Option.isSome_iff_ne_none, ne_eq, planAt?_eq_none, not_not]

end Records

section Functions

variable {name : String} {kind : FunctionKind} {c : Closure} {w : World}

theorem newFunction_callable :
    (newFunction name kind c w).2.heap.callable? (.obj (newFunction name kind c w).1) =
      some (.closure c) := by
  have halloc (o : Object) (w : World) (ho : o.callable? = some (.closure c)) :
      (Edit.alloc o w).2.heap.callable? (.obj (Edit.alloc o w).1) = some (.closure c) := by
    show ((w.heap.alloc o).2.get? w.heap.objects.size).bind Object.callable? = _
    rw [Heap.get?_alloc, if_pos rfl]
    exact ho
  -- what is added to the prototype of a plain function leaves the function as it is
  have hupdate (p : ObjectId) (v w : Value) (w₁ : World)
      (hw : w₁.heap.callable? w = some (.closure c)) :
      (Edit.update p (·.insertHidden "constructor" v) w₁).2.heap.callable? w = some (.closure c) := by
    cases w with
    | obj id =>
      show ((w₁.heap.modify p _).get? id).bind Object.callable? = _
      rw [Heap.get?_modify, ← hw]
      show _ = (w₁.heap.get? id).bind Object.callable?
      split
      · cases w₁.heap.get? id <;> rfl
      · rfl
    | _ => cases hw
  cases kind with
  | generator | async | asyncGenerator =>
    cases hc : c.isArrow <;> simp only [newFunction, instanceProto, hc] <;> exact halloc _ _ rfl
  | plain =>
    cases hc : c.isArrow <;> simp only [newFunction, instanceProto, hc]
    · exact hupdate _ _ _ _ (halloc _ _ rfl)
    · exact halloc _ _ rfl

/-- A definition that has a plan gives it to every function that is made from it. -/
theorem makeClosure_of_built {definition : Nat} {plan : Plan} (hplan : w.planAt? definition = some plan)
    (name : Option String) (params : List Pattern) (body : List Stmt) (scope : ScopeId)
    (isArrow : Bool) :
    makeClosure (some definition) name kind params body scope isArrow w =
      (do return .obj (← newFunction (name.getD "") kind
        ⟨params, body, scope, isArrow, kind.routine plan⟩) : Run Value) w := by
  have hfor : (liftM (planFor (some definition) (name.getD "anonymous") kind params body) :
      Run (Except Refusal Plan)) w = .done (.ok plan) w :=
    congrArg (fun r : Except Refusal Plan × World => Outcome.done r.1 r.2) (planFor_of_built _ kind params body hplan)
  have hplanned : (routineFor.plan (some definition) (name.getD "anonymous") kind params body :
      Run Plan) w = .done plan w := by
    simp only [routineFor.plan, bind, RunOn.bind, hfor]
    rfl
  have hroutine : (routineFor (some definition) (name.getD "anonymous") kind params body :
      Run Routine) w = .done (kind.routine plan) w := by
    cases kind with
    | plain => rfl
    | generator | async | asyncGenerator =>
      simp only [routineFor, bind, RunOn.bind, hplanned]
      rfl
  simp only [makeClosure, bind, RunOn.bind, hroutine]

end Functions

/-- Whether a host gets from one world to another with one request. -/
inductive World.Serves : World → World → Prop where
  | program {w w' : World} (program : List Stmt) :
    (Session.runProgram program w).world? = some w' → Serves w w'
  | jobs {w w' : World} : (Session.drainJobs w).world? = some w' → Serves w w'
  | resume {w w' : World} (generator : Value) (a : Action) :
    (Session.resumeGenerator generator a w).world? = some w' → Serves w w'

theorem World.Serves.adds {w w' : World} (h : w.Serves w') : w.Adds w' := by
  cases h with
  | program p hw => exact (runProgram_grows p w).world hw
  | jobs hw => exact (runJobs_grows (withFuel_grows Session.fuel) Session.fuel w).world hw
  | resume generator a hw => exact (sessionResume_grows generator a w).world hw

theorem World.Hosted.records {w : World} (hw : w.Hosted) : RecordsAdd [] w.builds := by
  induction hw with
  | initial =>
    have hnone : World.initial.builds.isEmpty = true := by decide +kernel
    rw [List.isEmpty_iff.1 hnone]
    exact .refl _
  | program p _ hw ih => exact ih.trans (World.Serves.program p hw).adds.records
  | jobs _ hw ih => exact ih.trans (World.Serves.jobs hw).adds.records
  | resume generator a _ hw ih => exact ih.trans (World.Serves.resume generator a hw).adds.records

theorem World.Hosted.apart {w : World} (hw : w.Hosted) : (builtSites w.builds).Nodup :=
  hw.records.apart List.nodup_nil

/-- The functions that have a plan for themselves are asynchronous arrow functions that give an
expression. -/
theorem unshared_lambda {w : World} (hw : w.Hosted) {b : PlanRecord} (hb : b ∈ w.builds)
    (h : b.isUnshared = true) : b.IsLambda := by
  have hnone : b.site = none := Option.isNone_iff_eq_none.1 (Bool.and_eq_true_iff.1 h).1
  exact (hw.records.lambda b hb hnone).resolve_left List.not_mem_nil

/-- Whatever a host has asked for, no definition has got two plans, and the number of plans is that of the
definitions with a plan and of the functions that have one for themselves. A definition keeps its plan
ever after: every function that is made from it has this plan, and none is built. -/
theorem plans_are_shared {w : World} (hw : w.Hosted) :
    (builtSites w.builds).Nodup ∧
    w.diagnostics.succeeded = (builtSites w.builds).length + w.builds.countP PlanRecord.isUnshared ∧
    w.diagnostics.succeeded ≤
      (w.builds.filterMap PlanRecord.site).dedup.length + w.builds.countP PlanRecord.isUnshared ∧
    ∀ definition ∈ builtSites w.builds, ∃ plan, ∀ w' : World, Relation.ReflTransGen World.Serves w w' →
      ∀ (name : Option String) (kind : FunctionKind) (params : List Pattern) (body : List Stmt)
        (scope : ScopeId) (isArrow : Bool), kind ≠ .plain → ∃ f w₁,
        makeClosure (some definition) name kind params body scope isArrow w' = .done f w₁ ∧
        w₁.builds = w'.builds ∧
        w₁.heap.callable? f = some (.closure ⟨params, body, scope, isArrow, kind.routine plan⟩) := by
  have hcount := succeeded_eq w
  refine ⟨hw.apart, hcount, ?_, fun definition hd => ?_⟩
  · have hle : (builtSites w.builds).length ≤ (w.builds.filterMap PlanRecord.site).dedup.length := by
      exact (hw.apart.subperm fun _ h => List.mem_dedup.2 (builtSites_subset _ h)).length_le
    omega
  · obtain ⟨plan, hplan⟩ := Option.isSome_iff_exists.1 (planAt?_isSome.2 hd)
    refine ⟨plan, fun w' hserved name kind params body scope isArrow _ => ?_⟩
    have hkept : w.builds <+: w'.builds := by
      induction hserved with
      | refl => exact List.prefix_rfl
      | tail _ hlast ih => exact ih.trans hlast.adds.records.kept
    refine ⟨_, _, makeClosure_of_built (planAt?_of_kept hkept hplan) .., ?_, newFunction_callable⟩
    exact newFunction_builds ..

/-- A generator function is made three times over in a loop. -/
theorem plans_are_shared_loop : ∃ w : World, w.Hosted ∧ w.diagnostics.succeeded = 1 ∧
    ∃ f w₁, makeClosure (some 0) none .generator [] [] World.global false w = .done f w₁ ∧
      w₁.builds = w.builds := by
  let program : List Stmt :=
    [.forOf (.declare .var (.ident "x")) (.array [none, none, none])
      (.expr (.function none (.mk 0 .generator [] []))) false]
  have hbuilt : ((Session.runProgram program .initial).world?.map fun w =>
      (builtSites w.builds, w.builds.countP PlanRecord.isUnshared)) = some ([0], 0) := by decide +kernel
  obtain ⟨w, hw, hbuilt⟩ := Option.map_eq_some_iff.1 hbuilt
  obtain ⟨hsites, hunshared⟩ := Prod.mk.inj hbuilt
  have hhosted : w.Hosted := .program program .initial hw
  obtain ⟨-, hcount, -, hshared⟩ := plans_are_shared hhosted
  refine ⟨w, hhosted, by rw [hcount, hsites, hunshared]; rfl, ?_⟩
  obtain ⟨plan, hmade⟩ := hshared 0 (by rw [hsites]; simp)
  obtain ⟨f, w₁, hf, hsame, -⟩ := hmade w .refl none .generator [] [] World.global false (by simp)
  exact ⟨f, w₁, hf, hsame⟩

/-- An asynchronous arrow function that gives an expression gets a plan each time it is made. -/
theorem arrow_plans_pile_up : ((Session.runProgram
      [.forOf (.declare .var (.ident "x")) (.array [none, none]) (.expr (.lambda true [] .null)) false]
      .initial).world?.map fun w => (w.diagnostics.attempted, w.diagnostics.succeeded)) =
    some (2, 2) := by decide +kernel

end Resumable
