import Resumable.Proofs.Machine.Finally
import Resumable.Proofs.Machine.Related
import Resumable.Proofs.Refinement.Structured

/-!
Where the jumps of a run go. Main statement: `buildPlan_settles_jumps`: in every run of a plan that
is built, a jump instruction finds the loop that it means, and so does a jump that comes out of a
statement run whole, provided that the jumps in the statement lead somewhere. All do when all jumps
in the body do. Nothing else that an instance runs ends in a jump.
-/

set_option autoImplicit false

namespace Resumable

/-- What an instance runs besides the script code of its instructions: to store a value, to bind a
pattern, to declare functions, and to open, ask, resume and close iterators. -/
inductive Errand (host : Host) : {α : Type} → Run α → Prop where
  | write (scope : ScopeId) (name : String) (v : Value) : Errand host (writeName scope name v)
  | bind (p : Pattern) (scope : ScopeId) (kind : Option VarKind) (v : Value) :
    Errand host (p.bind host scope kind v)
  | declare (scope : ScopeId) (functions : List FunctionDecl) :
    Errand host (instantiate scope functions)
  | ofValue (v : Value) : Errand host (IteratorRecord.ofValue host v)
  | ofAsync (v : Value) : Errand host (IteratorRecord.ofAsync host v)
  | next (r : IteratorRecord) (args : List Value) : Errand host (r.callNext host args)
  | forward (r : IteratorRecord) (m : Method) (v : Value) : Errand host (r.forward host m v)
  | close (iterator : Value) (throwing : Bool) : Errand host (closeIterator host iterator throwing)

/-- Whether the jumps in a statement that an instruction runs whole lead to constructs around it. -/
def Instr.leadsIn (around : List Breakable) : Instr → Bool
  | .evaluate s _ => s.jumpsLead around []
  | _ => true

section Errands

variable {host : Host} (hh : host.Proper)

include hh

theorem errand_onlyThrows {α : Type} {x : Run α} (h : Errand host x) : x.OnlyThrows := by
  cases h with
  | write scope name v => exact (writeName_related onlyThrows.toEvalRelation scope name v trivial).2
  | bind p scope kind v =>
    exact (p.bind_related hh.related (fun _ => trivial) scope kind v fun _ => hh.suspends).2
  | declare scope functions =>
    exact (instantiate_related onlyThrows.toEvalRelation scope functions fun _ _ => trivial).2
  | ofValue v => exact (ofValue_related hh.related v).2
  | ofAsync v => exact (ofAsync_related hh.related v).2
  | next r args => exact (callNext_related hh.related r args).2
  | forward r m v => exact (forward_related hh.related r m v).2
  | close iterator throwing => exact (closeIterator_related hh.related iterator throwing).2

/-- The script code of an instruction ends in a jump only where the instruction is one, or runs a
statement that holds one. -/
theorem script_leads {scope : ScopeId} {around : List Breakable} {i : Instr}
    (hi : i.leadsIn around = true) (hbrk : ∀ label, i = .brk label →
      JumpSite.leads ⟨label, false, around⟩ = true)
    (hcont : ∀ label, i = .cont label → JumpSite.leads ⟨label, true, around⟩ = true) :
    (i.script host scope).EndsIn (·.LeadsIn around) := by
  have hopt (e : Option Expr) : (evalOption host scope e).EndsIn (·.LeadsIn around) :=
    (evalOption_related hh.related (fun _ => trivial) scope e fun _ => hh.suspends).2.mono
      fun _ => leadsIn_of_leavesCalls
  cases i with
  | evaluate s next => exact (s.exec_leads hh around [] scope hi).bind fun _ => .pure _
  | yield operand => exact (hopt operand).bind fun _ => .pure _
  | await operand | yieldStar operand | branch operand =>
    exact (eval_leads hh scope none operand).bind fun _ => .pure _
  | openIterator iterable isAsync overKeys =>
    refine (eval_leads hh scope none iterable).bind fun v => .bind ?_ fun _ => .pure _
    exact (openIterator_related hh.related v isAsync overKeys).2.mono fun _ => leadsIn_of_leavesCalls
  | ret operand => exact (hopt operand).bind fun _ => .abrupt trivial
  | throw operand => exact (eval_leads hh scope none operand).bind fun _ => .abrupt trivial
  | brk label => exact .abrupt (hbrk label rfl)
  | cont label => exact .abrupt (hcont label rfl)
  | store | jump | enterTry | exitTry | bindCatch | endFinally | pushScope | popScope | copyScope
  | enterLoop | exitLoop | moveNext => exact .pure _

end Errands

theorem Instance.At.finds {plan : Plan} {M : StackMap} {g : Instance} (hM : M.Maps plan)
    (hg : g.At plan M (M g.ip)) {c : Abrupt} (hc : c.LeadsIn (M g.ip).breakables)
    (hjump : c.isJump = true) : ∃ j, g.signal? c = some (.jump j) := by
  cases c with
  | ret | throw | fatal => cases hjump
  | brk label | cont label =>
    obtain ⟨j, -, -, -, -, -, -, -, -, -, -, -, hj, -⟩ := hg.resolves hM hc
    exact ⟨j, by simp [Instance.signal?, hj]⟩

/-- How the jumps of all runs of a plan go, when a map gives the constructs around each of its
instructions. -/
structure StackMap.SettlesJumps (M : StackMap) (plan : Plan) (body : List Stmt) (host : Host) :
    Prop where
  /-- A jump out of the script code of an instruction finds its loop, and that is where it goes. -/
  found : ∀ base isAsync g, Reached host (.running plan base isAsync) (.goOn g) →
    ∀ i, g.instr? = some i → i.leadsIn (M g.ip).breakables = true →
    ∀ w c w', i.script host g.scope w = .abrupt c w' → c.isJump = true →
    ∃ j, g.signal? c = some (.jump j) ∧ g.dispatch host i w = g.unwind host (.jump j) w'
  /-- Where the jumps of the body lead somewhere, those of the statements run whole do. -/
  led : bodyJumpsLead [] body = true →
    ∀ ip i, plan.get? ip = some i → i.leadsIn (M ip).breakables = true
  errands : ∀ {α : Type} {x : Run α}, Errand host x → x.EndsIn (·.isJump = false)

/-- Every plan that is built has a map that settles the jumps of all its runs. -/
theorem buildPlan_settles_jumps {inAsync : Bool} {params : List Pattern} {body : List Stmt}
    {plan : Plan} (h : buildPlan inAsync params body = .ok plan) :
    ∃ M : StackMap, M.Maps plan ∧ ∀ host : Host, host.Proper → M.SettlesJumps plan body host := by
  obtain ⟨M, hM, hled⟩ := buildPlan_mapped_leading h
  refine ⟨M, hM, fun host hh => ⟨?found, ?led, fun hx =>
    (errand_onlyThrows hh hx).mono fun _ => isJump_of_leavesCalls⟩⟩
  case found =>
    intro base isAsync g hg i hi hleads w c w' hc hjump
    have hat : g.At plan M (M g.ip) := hg.good hM hh
    have hfits := hat.fits hM hi
    have hin : c.LeadsIn (M g.ip).breakables := by
      refine script_leads hh hleads (fun label h => ?_) (fun label h => ?_) w c w' hc
      · subst h
        exact hfits
      · subst h
        exact hfits
    obtain ⟨j, hj⟩ := hat.finds hM hin hjump
    exact ⟨j, hj, dispatch_signal hc hj⟩
  case led =>
    intro hbody ip i hi
    cases i with
    | evaluate s next => exact hled ip s next hi hbody
    | _ => rfl

/-- A labelled loop left from a block that runs whole inside it, for the host that runs scripts. -/
theorem buildPlan_settles_jumps_labelled : ∃ plan, buildPlan false []
      [.labeled "a" (.whileDo (.bool true)
        (.block [.expr (.yield none), .ifElse (.bool true) (.brk (some "a")) none]))] = .ok plan ∧
    (Host.withFuel 8).Proper ∧ ∃ M : StackMap, M.Maps plan ∧ M.SettlesJumps plan
      [.labeled "a" (.whileDo (.bool true)
        (.block [.expr (.yield none), .ifElse (.bool true) (.brk (some "a")) none]))]
      (Host.withFuel 8) ∧
      ∀ ip i, plan.get? ip = some i → i.leadsIn (M ip).breakables = true := by
  obtain ⟨plan, hbuilt⟩ : ∃ plan, buildPlan false []
      [.labeled "a" (.whileDo (.bool true)
        (.block [.expr (.yield none), .ifElse (.bool true) (.brk (some "a")) none]))] = .ok plan :=
    ⟨_, rfl⟩
  obtain ⟨M, hM, hjumps⟩ := buildPlan_settles_jumps hbuilt
  have hruns := hjumps _ (withFuel_proper 8)
  exact ⟨plan, hbuilt, withFuel_proper 8, M, hM, hruns, hruns.led (by decide)⟩

/-- A jump to nowhere in a statement that runs whole gets through, and comes out as an exception. -/
theorem dispatch_jump_run_whole : ∃ plan, buildPlan false []
      [.ifElse (.bool true) (.brk none) none] = .ok plan ∧ (Host.withFuel 8).Proper ∧
    ∃ g next w', Reached (Host.withFuel 8) (.running plan 0 false) (.goOn g) ∧
      g.instr? = some (.evaluate (.ifElse (.bool true) (.brk none) none) next) ∧
      (Stmt.ifElse (.bool true) (.brk none) none).exec (Host.withFuel 8) g.scope [] .blank =
        .abrupt (.brk none) .blank ∧
      g.signal? (.brk none) = none ∧
      g.dispatch (Host.withFuel 8) (.evaluate (.ifElse (.bool true) (.brk none) none) next) .blank =
        .done (.stop g (.threw (.obj 0))) w' ∧
      (w'.heap.get? 0).bind (·.own? "message") = some (.ofString "Illegal break statement") := by
  refine ⟨_, rfl, withFuel_proper 8, _, _, _, .start (.next .undefined), rfl, rfl, rfl, rfl, rfl⟩

end Resumable
