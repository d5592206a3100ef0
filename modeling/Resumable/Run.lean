import Resumable.World

/-!
Running script code. A run changes a state and ends with a value, with an abrupt completion, or not
at all within its fuel. The state is the world, or has the world in it.
-/

set_option autoImplicit false

namespace Resumable

/-- A completion other than the normal one. -/
inductive Abrupt where
  | ret (v : Value)
  | throw (v : Value)
  | brk (label : Option String)
  | cont (label : Option String)
  | fatal (e : Fatal)

inductive Outcome (σ α : Type) where
  | done (a : α) (s : σ)
  | abrupt (c : Abrupt) (s : σ)
  | exhausted

def RunOn (σ α : Type) : Type := σ → Outcome σ α

abbrev Run := RunOn World

class HasWorld (σ : Type) where
  world : σ → World
  setWorld : σ → World → σ

instance : HasWorld World := ⟨id, fun _ w => w⟩

namespace RunOn

variable {σ α β : Type}

@[always_inline, inline]
protected def pure (a : α) : RunOn σ α := fun s => .done a s

@[always_inline, inline]
protected def bind (x : RunOn σ α) (f : α → RunOn σ β) : RunOn σ β := fun s =>
  match x s with
  | .done a s => f a s
  | .abrupt c s => .abrupt c s
  | .exhausted => .exhausted

instance : Monad (RunOn σ) where
  pure := RunOn.pure
  bind := RunOn.bind

theorem id_map_eq (x : RunOn σ α) : id <$> x = x := by
  funext s
  simp only [Functor.map, RunOn.bind]
  cases x s <;> rfl

theorem bind_bind {γ : Type} (x : RunOn σ α) (f : α → RunOn σ β) (g : β → RunOn σ γ) :
    x >>= f >>= g = x >>= fun a => f a >>= g := by
  funext s
  simp only [bind, RunOn.bind]
  cases x s <;> rfl

instance : LawfulMonad (RunOn σ) := LawfulMonad.mk' (RunOn σ) id_map_eq (fun _ _ => rfl) bind_bind

def attempt (x : RunOn σ α) : RunOn σ (Except Abrupt α) := fun s =>
  match x s with
  | .done a s => .done (.ok a) s
  | .abrupt c s => .done (.error c) s
  | .exhausted => .exhausted

end RunOn

namespace Run

variable {σ α β : Type}

def abrupt (c : Abrupt) : RunOn σ α := fun s => .abrupt c s

def exhausted : RunOn σ α := fun _ => .exhausted

def ofCompletion : Except Abrupt α → RunOn σ α
  | .ok a => RunOn.pure a
  | .error c => Run.abrupt c

@[simp] theorem attempt_pure (a : α) : (pure a : RunOn σ α).attempt = pure (.ok a) := rfl

@[simp] theorem attempt_abrupt (c : Abrupt) :
    (abrupt c : RunOn σ α).attempt = pure (.error c) := rfl

@[simp] theorem abrupt_bind (c : Abrupt) (f : α → RunOn σ β) : abrupt c >>= f = abrupt c := rfl

@[simp] theorem exhausted_bind (f : α → RunOn σ β) : exhausted >>= f = exhausted := rfl

@[simp] theorem attempt_bind_ofCompletion (x : RunOn σ α) : x.attempt >>= ofCompletion = x := by
  funext s
  simp only [bind, RunOn.bind, RunOn.attempt]
  cases x s <;> rfl

def throwValue (v : Value) : RunOn σ α := abrupt (.throw v)

def fatal (e : Fatal) : RunOn σ α := abrupt (.fatal e)

variable [HasWorld σ]

@[always_inline, inline]
def edit (x : Edit α) : RunOn σ α := fun s =>
  let (a, w) := x (HasWorld.world s)
  .done a (HasWorld.setWorld s w)

instance : MonadLift Edit (RunOn σ) := ⟨edit⟩

def read (view : World → α) : RunOn σ α := fun s => .done (view (HasWorld.world s)) s

def heap : RunOn σ Heap := read World.heap

def throwNew (kind : ErrorKind) (message : String) : RunOn σ α := do
  throwValue (.obj (← Edit.newError kind message))

def throwType (message : String) : RunOn σ α := throwNew .typeError message

end Run

inductive SuspendKind where
  | yield
  | delegate
  | await
  deriving DecidableEq, Repr

/-- What evaluation asks of its surroundings: how functions are called, what a suspend expression
does with its operand, and how many times a loop may go round. -/
structure HostOn (σ : Type) where
  call : Value → Value → List Value → RunOn σ Value
  suspend : SuspendKind → RunOn σ Value → RunOn σ Value
  fuel : Nat

abbrev Host := HostOn World

/-- Outside a plan a suspend expression is an error, and its operand is not evaluated. -/
def refuseSuspend {σ : Type} [HasWorld σ] (kind : SuspendKind) (_ : RunOn σ Value) :
    RunOn σ Value :=
  match kind with
  | .yield | .delegate => Run.throwNew .syntaxError "yield is only valid in generator bodies"
  | .await => Run.throwNew .syntaxError "await is only valid in async functions"

end Resumable
