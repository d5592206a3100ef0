import Resumable.Machine.Resume
import Resumable.Proofs.Eval.Completions

/-!
Evaluation against a script. A `yield` hands its value over and goes on as the next reply of the
script says, so that trees with suspend points in them have a meaning of their own. Main statements:
`Expr.eval_scripted`, `Stmt.exec_scripted`: code that does not suspend is not touched by the script.
-/

set_option autoImplicit false

namespace Resumable

/-- One resumption: `next`, `throw` or `return` with a value. -/
structure Reply where
  method : Method
  value : Value

def Reply.action (r : Reply) : Action := .ofMethod r.method r.value

/-- A world together with what has been handed over, oldest first, and what is left of a script. -/
structure Taped where
  world : World
  emitted : List Value
  script : List Reply
  stopped : Bool

instance : HasWorld Taped := ⟨Taped.world, fun s w => { s with world := w }⟩

namespace Taped

def start (w : World) (script : List Reply) : Taped := ⟨w, [], script, false⟩

def lift {α : Type} (x : Run α) : RunOn Taped α := fun s =>
  match x s.world with
  | .done a w => .done a { s with world := w }
  | .abrupt c w => .abrupt c { s with world := w }
  | .exhausted => .exhausted

/-- Hands a value over and takes the next reply. Without one the run stops: the completion is one
that nothing catches. -/
def emit (v : Value) : RunOn Taped Reply := fun s =>
  match s.script with
  | r :: rest => .done r { s with emitted := s.emitted ++ [v], script := rest }
  | [] => .abrupt (.fatal .generatorRunning) { s with emitted := s.emitted ++ [v], stopped := true }

end Taped

open Taped (lift emit)

def Reply.act {σ : Type} (r : Reply) : RunOn σ Value :=
  match r.method with
  | .next => return r.value
  | .throw => Run.throwValue r.value
  | .ret => Run.abrupt (.ret r.value)

/-- A host that answers every `yield` from the script; other suspend expressions are refused. -/
def scripted (host : Host) : HostOn Taped where
  call f receiver args := lift (host.call f receiver args)
  suspend kind operand :=
    match kind with
    | .yield => do
      let v ← operand
      let r ← emit v
      r.act
    | .delegate | .await => refuseSuspend kind operand
  fuel := host.fuel

section Lift

variable {α β : Type}

@[simp] theorem lift_pure (a : α) : lift (pure a : Run α) = pure a := rfl

@[simp] theorem lift_bind (x : Run α) (f : α → Run β) :
    lift (x >>= f) = lift x >>= fun a => lift (f a) := by
  funext s
  simp only [lift, bind, RunOn.bind]
  cases x s.world <;> rfl

theorem lift_attempt (x : Run α) : lift x.attempt = (lift x).attempt := by
  funext s
  simp only [lift, RunOn.attempt]
  cases x s.world <;> rfl

@[simp] theorem lift_abrupt (c : Abrupt) : lift (Run.abrupt c : Run α) = Run.abrupt c := rfl

@[simp] theorem lift_edit (x : Edit α) : lift (Run.edit x : Run α) = Run.edit x := rfl

@[simp] theorem lift_read (view : World → α) : lift (Run.read view : Run α) = Run.read view := rfl

def lifted : RunRelation World Taped where
  rel x y := y = lift x
  occurs _ := True
  names _ := True
  throw_occurs _ := trivial
  fatal_occurs _ := trivial
  pure _ := rfl
  bind := by
    rintro α β x _ f g rfl hf
    rw [lift_bind, funext hf]
  attempt := by
    rintro α β x _ f g rfl hok herror
    have hf : g = fun r => lift (f r) := by
      funext r
      cases r with
      | ok a => exact hok a
      | error c => exact herror c trivial
    rw [lift_bind, lift_attempt, hf]
  abrupt _ _ := rfl
  exhausted := rfl
  heap := rfl
  lookup _ _ _ := rfl
  has _ _ _ := rfl
  this _ := rfl
  edit _ _ _ := rfl
  newScope _ := rfl
  copyScope _ := rfl
  declare _ _ _ _ := rfl
  assign _ _ _ _ := rfl
  define _ _ _ _ _ := rfl

theorem instantiate_lifted (scope : ScopeId) (ds : List FunctionDecl) :
    (instantiate scope ds : RunOn Taped Unit) = lift (instantiate scope ds) :=
  instantiate_related lifted.toEvalRelation scope ds fun _ _ => trivial

end Lift

section Scripted

variable {host : Host} (hh : host.Proper)

include hh

theorem scripted_related : HostRelated lifted.toEvalRelation host (scripted host) where
  call _ _ _ := rfl
  fuel := .same _
  await x y _ := by
    rw [hh.suspend]
    exact refuseSuspend_related lifted.toEvalRelation .await x y

theorem Expr.eval_scripted (scope : ScopeId) (hint : Option String) {e : Expr}
    (h : e.hasSuspend false = false) :
    e.eval (scripted host) scope hint = lift (e.eval host scope hint) :=
  e.eval_related_of_all (scripted_related hh) (fun _ => trivial) scope hint (by simp [h])

theorem evalOption_scripted (scope : ScopeId) {e : Option Expr}
    (h : e.any (·.hasSuspend false) = false) :
    evalOption (scripted host) scope e = lift (evalOption host scope e) :=
  evalOption_related (scripted_related hh) (fun _ => trivial) scope e (by simp [h])

theorem Pattern.bind_scripted (scope : ScopeId) (kind : Option VarKind) (v : Value) {p : Pattern}
    (h : p.hasSuspend false = false) :
    p.bind (scripted host) scope kind v = lift (p.bind host scope kind v) :=
  p.bind_related (scripted_related hh) (fun _ => trivial) scope kind v (by simp [h])

theorem Stmt.exec_scripted (scope : ScopeId) (labels : List String) {s : Stmt}
    (h : s.hasSuspend false = false) :
    s.exec (scripted host) scope labels = lift (s.exec host scope labels) :=
  s.exec_related (scripted_related hh) (fun _ => trivial) (fun _ => trivial) scope labels
    (by simp [h])

end Scripted

end Resumable
