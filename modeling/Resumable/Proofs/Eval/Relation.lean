import Resumable.Eval.Stmt
import Resumable.Proofs.Eval.Calm
import Resumable.Proofs.Eval.Records

/-!
Relations between runs that the primitive steps of evaluation respect. Main definitions: `EvalRelation` for
expressions, `RunRelation` for statements as well. They respect what operators and assignments do.
-/

set_option autoImplicit false

namespace Resumable

/-- Whether an edit neither looks at scopes and activations nor changes them, and records no second
plan of a definition. -/
structure Edit.IsLocal {α : Type} (x : Edit α) : Prop where
  apart : ∀ (w : World) (s : Scopes) (gs : Array Instance),
    x { w with scopes := s, instances := gs } =
      ((x w).1, { (x w).2 with scopes := s, instances := gs })
  records : ∀ w, RecordsAdd w.builds (x w).2.builds

theorem Edit.IsLocal.scopes_eq {α : Type} {x : Edit α} (hx : x.IsLocal) (w : World) :
    (x w).2.scopes = w.scopes := congrArg (·.2.scopes) (hx.apart w w.scopes w.instances)

/-- Whether an edit leaves all activations as they are. -/
def Edit.KeepsActivations {α : Type} (x : Edit α) : Prop :=
  ∀ w, (x w).2.instances = w.instances ∧ (x w).2.asyncGenerators = w.asyncGenerators

theorem Edit.IsCalm.keepsActivations {α : Type} {x : Edit α} (h : x.IsCalm) : x.KeepsActivations :=
  fun w => ⟨(h w).instances, (h w).asyncGenerators⟩

/-- Whether outcomes are the same but for a relation between the states that they leave, the second
of which has a property. -/
inductive Outcome.Like {σ α : Type} (near : σ → σ → Prop) (kept : σ → Prop) :
    Outcome σ α → Outcome σ α → Prop where
  | done {a : α} {s s' : σ} : near s s' → kept s' → Like near kept (.done a s) (.done a s')
  | abrupt {c : Abrupt} {s s' : σ} :
    near s s' → kept s' → Like near kept (.abrupt c s) (.abrupt c s')
  | exhausted : Like near kept .exhausted .exhausted

/-- A relation between runs on two kinds of states that the primitive steps of evaluation
respect. -/
structure EvalRelation (σ τ : Type) [HasWorld σ] [HasWorld τ] where
  rel : {α : Type} → RunOn σ α → RunOn τ α → Prop
  /-- Completions that may occur. -/
  occurs : Abrupt → Prop
  /-- Names that code may use. -/
  names : String → Prop
  throw_occurs : ∀ v, occurs (.throw v)
  fatal_occurs : ∀ e, occurs (.fatal e)
  pure : ∀ {α : Type} (a : α), rel (pure a) (pure a)
  bind : ∀ {α β : Type} {x : RunOn σ α} {y : RunOn τ α} {f : α → RunOn σ β} {g : α → RunOn τ β},
    rel x y → (∀ a, rel (f a) (g a)) → rel (x >>= f) (y >>= g)
  attempt : ∀ {α β : Type} {x : RunOn σ α} {y : RunOn τ α} {f : Except Abrupt α → RunOn σ β}
    {g : Except Abrupt α → RunOn τ β}, rel x y → (∀ a, rel (f (.ok a)) (g (.ok a))) →
    (∀ c, occurs c → rel (f (.error c)) (g (.error c))) → rel (x.attempt >>= f) (y.attempt >>= g)
  abrupt : ∀ {α : Type} (c : Abrupt), occurs c →
    rel (Run.abrupt c : RunOn σ α) (Run.abrupt c)
  exhausted : ∀ {α : Type}, rel (Run.exhausted : RunOn σ α) Run.exhausted
  heap : rel Run.heap Run.heap
  lookup : ∀ (scope : ScopeId) (name : String), names name →
    rel (Run.read (·.scopes.lookup scope name)) (Run.read (·.scopes.lookup scope name))
  has : ∀ (scope : ScopeId) (name : String), names name →
    rel (Run.read (·.scopes.has scope name)) (Run.read (·.scopes.has scope name))
  this : ∀ scope : ScopeId,
    rel (Run.read (·.scopes.value? scope "this")) (Run.read (·.scopes.value? scope "this"))
  edit : ∀ {α : Type} (x : Edit α), x.IsLocal → x.IsCalm → rel (Run.edit x) (Run.edit x)
  newScope : ∀ scope : ScopeId, rel (Run.edit (Edit.newScope scope)) (Run.edit (Edit.newScope scope))
  declare : ∀ (scope : ScopeId) (name : String) (kind : VarKind), names name →
    rel (Run.edit (Edit.declare scope name kind)) (Run.edit (Edit.declare scope name kind))
  assign : ∀ (scope : ScopeId) (name : String) (v : Value), names name →
    rel (Run.edit (Edit.assign scope name v)) (Run.edit (Edit.assign scope name v))
  define : ∀ (scope : ScopeId) (name : String) (kind : VarKind) (v : Value), names name →
    rel (Run.edit (Edit.define scope name kind v)) (Run.edit (Edit.define scope name kind v))

/-- A relation between runs that is respected by statements as well, which may copy a scope. -/
structure RunRelation (σ τ : Type) [HasWorld σ] [HasWorld τ] extends EvalRelation σ τ where
  copyScope : ∀ scope : ScopeId,
    rel (Run.edit (Edit.copyScope scope)) (Run.edit (Edit.copyScope scope))

/-- Whether loops may have so many turns on one side and so many on the other: as many, or more on the
other side if a run that gives up is related to every run. -/
inductive EvalRelation.Fuels {σ τ : Type} [HasWorld σ] [HasWorld τ] (R : EvalRelation σ τ) :
    Nat → Nat → Prop where
  | same (n : Nat) : R.Fuels n n
  | more {n m : Nat} : n ≤ m → (∀ {α : Type} (y : RunOn τ α), R.rel Run.exhausted y) → R.Fuels n m

namespace EvalRelation.Fuels

variable {σ τ α : Type} [HasWorld σ] [HasWorld τ] {R : EvalRelation σ τ} {n m : Nat}

theorem exhausted {y : Nat → RunOn τ α} (h : R.Fuels 0 m) (hy : y 0 = Run.exhausted) :
    R.rel Run.exhausted (y m) := by
  cases h with
  | same => exact hy ▸ R.exhausted
  | more _ hall => exact hall _

theorem pred (h : R.Fuels (n + 1) m) : ∃ k, m = k + 1 ∧ R.Fuels n k := by
  cases h with
  | same => exact ⟨n, rfl, .same n⟩
  | more hle hall => exact ⟨m - 1, by omega, .more (by omega) hall⟩

end EvalRelation.Fuels

/-- What a host is asked for by code that does not suspend. -/
structure HostRelated {σ τ : Type} [HasWorld σ] [HasWorld τ] (R : EvalRelation σ τ)
    (host : HostOn σ) (host' : HostOn τ) : Prop where
  call : ∀ f receiver args, R.rel (host.call f receiver args) (host'.call f receiver args)
  fuel : R.Fuels host.fuel host'.fuel
  await : ∀ x y, R.rel x y → R.rel (host.suspend .await x) (host'.suspend .await y)

def SuspendsRelated {σ τ : Type} [HasWorld σ] [HasWorld τ] (R : EvalRelation σ τ)
    (host : HostOn σ) (host' : HostOn τ) : Prop :=
  ∀ kind x y, R.rel x y → R.rel (host.suspend kind x) (host'.suspend kind y)

section Primitive

variable {σ τ : Type} [HasWorld σ] [HasWorld τ] (R : EvalRelation σ τ)

theorem alloc_local (o : Object) : (Edit.alloc o).IsLocal :=
  ⟨fun _ _ _ => rfl, fun _ => .refl _⟩

theorem newObject_local (proto : Option ObjectId) : (Edit.newObject proto).IsLocal :=
  ⟨fun _ _ _ => rfl, fun _ => .refl _⟩

theorem newArray_local (items : Array Value) : (Edit.newArray items).IsLocal :=
  ⟨fun _ _ _ => rfl, fun _ => .refl _⟩

theorem newError_local (kind : ErrorKind) (message : String) :
    (Edit.newError kind message).IsLocal :=
  ⟨fun _ _ _ => rfl, fun _ => .refl _⟩

theorem update_local (id : ObjectId) (f : Object → Object) :
    (Edit.update id f).IsLocal :=
  ⟨fun _ _ _ => rfl, fun _ => .refl _⟩

theorem newArrayIterator_local (source : ObjectId) (overKeys : Bool) :
    (Edit.newArrayIterator source overKeys).IsLocal :=
  ⟨fun _ _ _ => rfl, fun _ => .refl _⟩

theorem newResult_local (v : Value) (done : Bool) : (Edit.newResult v done).IsLocal :=
  ⟨fun _ _ _ => rfl, fun _ => .refl _⟩

theorem realm_local : Edit.realm.IsLocal :=
  ⟨fun _ _ _ => rfl, fun _ => .refl _⟩

theorem planFor_local {site : Option Nat} {kind : FunctionKind} {body : List Stmt} (name : String)
    (params : List Pattern) (hsite : HasSite site kind body) (hkind : kind ≠ .plain) :
    (planFor site name kind params body).IsLocal := by
  refine ⟨fun w s gs => ?_, planFor_adds name params hsite hkind⟩
  simp only [planFor, bind, StateT.bind, getThe, MonadStateOf.get, get, StateT.get, pure]
  have h : World.planAt? { w with scopes := s, instances := gs } = w.planAt? := rfl
  rw [h]
  cases site.bind w.planAt? <;> rfl

theorem newFunction_builds (name : String) (kind : FunctionKind) (c : Closure) (w : World) :
    (newFunction name kind c w).2.builds = w.builds := by
  cases kind <;> cases hc : c.isArrow <;> simp only [newFunction, instanceProto, hc] <;> rfl

theorem newFunction_local (name : String) (kind : FunctionKind) (c : Closure) :
    (newFunction name kind c).IsLocal := by
  refine ⟨fun w s gs => ?_, fun w => newFunction_builds name kind c w ▸ .refl _⟩
  cases kind <;> cases hc : c.isArrow <;> simp only [newFunction, instanceProto, hc] <;> rfl

theorem throwValue_related {α : Type} (v : Value) :
    R.rel (Run.throwValue v : RunOn σ α) (Run.throwValue v) :=
  R.abrupt _ (R.throw_occurs v)

theorem fatal_related {α : Type} (e : Fatal) : R.rel (Run.fatal e : RunOn σ α) (Run.fatal e) :=
  R.abrupt _ (R.fatal_occurs e)

theorem throwNew_related {α : Type} (kind : ErrorKind) (message : String) :
    R.rel (Run.throwNew kind message : RunOn σ α) (Run.throwNew kind message) :=
  R.bind (R.edit _ (newError_local kind message) (newError_calm kind message)) fun _ =>
    throwValue_related R _

theorem throwType_related {α : Type} (message : String) :
    R.rel (Run.throwType message : RunOn σ α) (Run.throwType message) :=
  throwNew_related R _ _

theorem ofCompletion_related {α : Type} (r : Except Abrupt α)
    (h : ∀ c, r = .error c → R.occurs c) :
    R.rel (Run.ofCompletion r : RunOn σ α) (Run.ofCompletion r) := by
  cases r with
  | ok a => exact R.pure a
  | error c => exact R.abrupt c (h c rfl)

theorem refuseSuspend_related (kind : SuspendKind) (x : RunOn σ Value) (y : RunOn τ Value) :
    R.rel (refuseSuspend kind x) (refuseSuspend kind y) := by
  cases kind <;> exact throwNew_related R _ _

end Primitive

section Operators

variable {σ τ : Type} [HasWorld σ] [HasWorld τ] (R : EvalRelation σ τ)

theorem apply_related (op : BinaryOp) (l r : Value) :
    R.rel (op.apply l r : RunOn σ Value) (op.apply l r) := by
  unfold BinaryOp.apply
  refine R.bind R.heap fun h => ?_
  cases op with
  | «in» => cases r <;> first | exact R.pure _ | exact throwType_related R _
  | instanceOf =>
    dsimp only
    split
    · exact R.pure _
    · exact throwType_related R _
  | _ => exact R.pure _

theorem readName_related (scope : ScopeId) (name : String) (hn : R.names name) :
    R.rel (readName scope name : RunOn σ Value) (readName scope name) := by
  refine R.bind (R.lookup scope name hn) fun r => ?_
  cases r with
  | found v => exact R.pure v
  | uninitialized | unbound => exact throwNew_related R _ _

theorem writeName_related (scope : ScopeId) (name : String) (v : Value) (hn : R.names name) :
    R.rel (writeName scope name v : RunOn σ Unit) (writeName scope name v) := by
  refine R.bind (R.assign scope name v hn) fun ok => ?_
  cases ok with
  | true => exact R.pure ()
  | false => exact throwType_related R _

theorem bindName_related (scope : ScopeId) (kind : Option VarKind) (name : String) (v : Value)
    (hn : R.names name) :
    R.rel (bindName scope kind name v : RunOn σ Unit) (bindName scope kind name v) := by
  have hw := writeName_related R scope name v hn
  match kind with
  | some .let => exact R.bind (R.declare scope name .let hn) fun _ => hw
  | some .const => exact R.bind (R.declare scope name .const hn) fun _ => hw
  | some .var | none => exact hw

theorem readMember_related (v : Value) (key : String) :
    R.rel (readMember v key : RunOn σ Value) (readMember v key) := by
  unfold readMember
  cases v with
  | undefined | null => exact throwType_related R _
  | str t => exact R.pure _
  | _ => exact R.bind R.heap fun h => R.pure _

theorem writeMember_related (v : Value) (key : String) (new : Value) :
    R.rel (writeMember v key new : RunOn σ Unit) (writeMember v key new) := by
  unfold writeMember
  cases v with
  | undefined | null => exact throwType_related R _
  | obj id => exact R.edit _ (update_local id _) (update_calm id fun o => set_mayBecome o key new)
  | _ => exact R.pure ()

theorem combine_related (op : AssignOp) {old right : RunOn σ Value} {old' right' : RunOn τ Value}
    (ho : R.rel old old') (hr : R.rel right right') :
    R.rel (combine op old right) (combine op old' right') := by
  unfold combine
  cases op.binary? with
  | none => exact hr
  | some op => exact R.bind ho fun l => R.bind hr fun r => apply_related R op l r

theorem assignMember_related (op : AssignOp) (v : Value) (key : String) {right : RunOn σ Value}
    {right' : RunOn τ Value} (hr : R.rel right right') :
    R.rel (assignMember op v key right) (assignMember op v key right') :=
  R.bind (combine_related R op (readMember_related R v key) hr) fun new =>
    R.bind (writeMember_related R v key new) fun _ => R.pure new

theorem assignName_related (op : AssignOp) (scope : ScopeId) (name : String)
    {right : RunOn σ Value} {right' : RunOn τ Value} (hn : R.names name)
    (hr : R.rel right right') :
    R.rel (assignName op scope name right) (assignName op scope name right') :=
  R.bind (combine_related R op (readName_related R scope name hn) hr) fun new =>
    R.bind (writeName_related R scope name new hn) fun _ => R.pure new

theorem countMember_related (op : UpdateOp) (opFirst : Bool) (v : Value) (key : String) :
    R.rel (countMember op opFirst v key : RunOn σ Value) (countMember op opFirst v key) :=
  R.bind (readMember_related R v key) fun _ =>
    R.bind (writeMember_related R v key _) fun _ => R.pure _

theorem countName_related (op : UpdateOp) (opFirst : Bool) (scope : ScopeId) (name : String)
    (hn : R.names name) :
    R.rel (countName op opFirst scope name : RunOn σ Value) (countName op opFirst scope name) :=
  R.bind (readName_related R scope name hn) fun _ =>
    R.bind (writeName_related R scope name _ hn) fun _ => R.pure _

end Operators

end Resumable
