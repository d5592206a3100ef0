import Resumable.Proofs.Lifecycle.Fuel
import Resumable.Proofs.Refinement.Dialogue

/-!
Calls for which the slots of an activation make no difference. Built-in functions that run no script code
look at no scope, and code without slots does the same whatever is in them. Main statements:
`callQuietly_blind`, `discreet_of_quiet`: a call that comes to nothing else is made by the discreet host.
-/

set_option autoImplicit false

namespace Resumable

open Dialogue (lift)

section Lifting

variable {α β : Type}

theorem Dialogue.lift_bind (x : Run α) (f : α → Run β) :
    lift (x >>= f) = lift x >>= fun a => lift (f a) := by
  funext s
  simp only [lift, bind, RunOn.bind]
  cases x s.world <;> rfl

theorem Dialogue.lift_attempt (x : Run α) : lift x.attempt = (lift x).attempt := by
  funext s
  simp only [lift, RunOn.attempt]
  cases x s.world <;> rfl

end Lifting

namespace Private

variable {p : Private}

/-- Whether a run goes the same way whatever is in the slots, and leaves them as they are. -/
def Overlooks {α : Type} (p : Private) (x : Run α) : Prop := p.Unseen (lift x) (lift x)

theorem Overlooks.blindAt {α : Type} {x : Run α} (h : p.Overlooks x) (w : World) : p.BlindAt x w := by
  intro w' hw
  have hx := h (.start w []) (.start w' []) ⟨hw, .nil, rfl, rfl⟩
  simp only [lift, Dialogue.start] at hx
  generalize x w = r at hx ⊢
  generalize x w' = r' at hx ⊢
  cases r with
  | done a w₁ =>
    cases r' with
    | done a' w₁' =>
      cases hx with
      | done ht hk => exact .done ht.world hk
    | abrupt | exhausted => cases hx
  | abrupt c w₁ =>
    cases r' with
    | abrupt c' w₁' =>
      cases hx with
      | abrupt ht hk => exact .abrupt ht.world hk
    | done | exhausted => cases hx
  | exhausted =>
    cases r' with
    | exhausted => exact .exhausted
    | done | abrupt => cases hx

/-- Runs that are the same and go the same way whatever is in the slots. -/
def overlooking (p : Private) : EvalRelation World World where
  rel x y := x = y ∧ p.Overlooks x
  occurs _ := True
  names name := isSlotName name = false
  throw_occurs _ := trivial
  fatal_occurs _ := trivial
  pure a := ⟨rfl, Unseen.pure a⟩
  bind hx hf := by
    refine ⟨by rw [hx.1, funext fun a => (hf a).1], ?_⟩
    rw [Overlooks, Dialogue.lift_bind]
    exact hx.2.bind fun a => (hf a).2
  attempt hx hok herror := by
    obtain ⟨rfl, hx⟩ := hx
    refine ⟨?_, ?_⟩
    · refine congrArg (_ >>= ·) (funext fun r => ?_)
      cases r with
      | ok a => exact (hok a).1
      | error c => exact (herror c trivial).1
    · rw [Overlooks, Dialogue.lift_bind, Dialogue.lift_attempt]
      refine hx.attempt.bind fun r => ?_
      cases r with
      | ok a => exact (hok a).2
      | error c => exact (herror c trivial).2
  abrupt c _ := ⟨rfl, Unseen.abrupt c⟩
  exhausted := ⟨rfl, fun _ _ _ => .exhausted⟩
  heap := ⟨rfl, p.unseen.heap⟩
  lookup scope name hn := ⟨rfl, p.unseen.lookup scope name hn⟩
  has scope name hn := ⟨rfl, p.unseen.has scope name hn⟩
  this scope := ⟨rfl, p.unseen.this scope⟩
  edit x hl hc := ⟨rfl, p.unseen.edit x hl hc⟩
  newScope scope := ⟨rfl, p.unseen.newScope scope⟩
  declare scope name kind hn := ⟨rfl, p.unseen.declare scope name kind hn⟩
  assign scope name v hn := ⟨rfl, p.unseen.assign scope name v hn⟩
  define scope name kind v hn := ⟨rfl, p.unseen.define scope name kind v hn⟩

end Private

section Edits

variable {α β : Type}

theorem Edit.IsLocal.of_rfl {x : Edit α}
    (ha : ∀ (w : World) (s : Scopes) (gs : Array Instance), x { w with scopes := s, instances := gs } =
      ((x w).1, { (x w).2 with scopes := s, instances := gs }))
    (hb : ∀ w, (x w).2.builds = w.builds) : x.IsLocal :=
  ⟨ha, fun w => hb w ▸ .refl _⟩

theorem Edit.IsLocal.pure (a : α) : (Pure.pure a : Edit α).IsLocal := .of_rfl (fun _ _ _ => rfl) fun _ => rfl

theorem Edit.IsLocal.bind {x : Edit α} {f : α → Edit β} (hx : x.IsLocal) (hf : ∀ a, (f a).IsLocal) :
    (x >>= f).IsLocal where
  apart w s gs := by
    show f (x _).1 (x _).2 = _
    rw [hx.apart w s gs]
    exact (hf _).apart _ s gs
  records w := (hx.records w).trans ((hf _).records _)

theorem Edit.IsLocal.forM {f : α → Edit PUnit} (hf : ∀ a, (f a).IsLocal) (xs : List α) :
    (xs.forM f).IsLocal := by
  induction xs with
  | nil => exact .pure _
  | cons x xs ih => exact .bind (hf x) fun _ => ih

theorem heap_local : Edit.heap.IsLocal := .of_rfl (fun _ _ _ => rfl) fun _ => rfl

theorem enqueue_local (job : Job) : (Edit.enqueue job).IsLocal := .of_rfl (fun _ _ _ => rfl) fun _ => rfl

theorem newPromise_local : Edit.newPromise.IsLocal := .of_rfl (fun _ _ _ => rfl) fun _ => rfl

theorem newResolvers_local (promise : ObjectId) : (Promise.newResolvers promise).IsLocal :=
  .of_rfl (fun _ _ _ => rfl) fun _ => rfl

theorem settle_local (promise : ObjectId) (s : Settlement) : (Promise.settle promise s).IsLocal := by
  refine .bind (.bind heap_local fun _ => .pure _) fun state => ?_
  match state with
  | some (.pending reactions) =>
    exact .bind (update_local promise _) fun _ => .forM (fun _ => enqueue_local _) reactions
  | some (.settled _) | none => exact .pure _

theorem resolve_local (promise : ObjectId) (v : Value) : (Promise.resolve promise v).IsLocal := by
  unfold Promise.resolve
  split
  · exact .bind (newError_local _ _) fun _ => settle_local promise _
  · refine .bind heap_local fun h => ?_
    split
    · exact .bind (newResolvers_local promise) fun _ => enqueue_local _
    · exact settle_local promise _

theorem addReaction_local (promise : ObjectId) (r : Reaction) :
    (Promise.addReaction promise r).IsLocal := by
  refine .bind (.bind heap_local fun _ => .pure _) fun state => ?_
  match state with
  | some (.pending _) => exact update_local promise _
  | some (.settled _) => exact enqueue_local _
  | none => exact .pure _

theorem derive_local (promise : ObjectId) (onFulfilled onRejected : Value) :
    (Promise.derive promise onFulfilled onRejected).IsLocal :=
  .bind newPromise_local fun _ => .bind (newResolvers_local _) fun _ => .bind heap_local fun _ =>
    .bind (addReaction_local promise _) fun _ => .pure _

theorem ofValue_local (v : Value) : (Promise.ofValue v).IsLocal := by
  refine .bind heap_local fun h => ?_
  split
  · exact .pure _
  · exact .bind newPromise_local fun _ => .bind (resolve_local _ v) fun _ => .pure _

end Edits

namespace Private

variable {p : Private}

namespace Overlooks

variable {α β : Type}

theorem pure (a : α) : p.Overlooks (Pure.pure a : Run α) := Unseen.pure a

theorem bind {x : Run α} {f : α → Run β} (hx : p.Overlooks x) (hf : ∀ a, p.Overlooks (f a)) :
    p.Overlooks (x >>= f) := by
  rw [Overlooks, Dialogue.lift_bind]
  exact Unseen.bind hx hf

theorem edit {x : Edit α} (hx : x.IsLocal) : p.Overlooks (Run.edit x : Run α) :=
  Unseen.ofEdit fun w w' h => by
    obtain ⟨heq, hnear, hscopes⟩ := h.edit hx
    rw [hscopes]
    exact ⟨heq, hnear, .refl _⟩

theorem heap : p.Overlooks Run.heap := p.unseen.heap

theorem throwNew (kind : ErrorKind) (message : String) :
    p.Overlooks (Run.throwNew kind message : Run α) :=
  bind (edit (newError_local kind message)) fun _ => Unseen.abrupt _

theorem throwType (message : String) : p.Overlooks (Run.throwType message : Run α) :=
  throwNew .typeError message

end Overlooks

end Private

/-- Built-in functions that run no script code. -/
def Native.isQuiet : Native → Bool
  | .generator _ | .asyncGenerator _ | .promise => false
  | _ => true

section Natives

variable {p : Private}

theorem pushAll_overlooks (receiver : Value) (items : List Value) :
    p.Overlooks (Native.pushAll receiver items) := by
  cases receiver with
  | obj id =>
    refine .bind .heap fun h => ?_
    split
    · exact .bind (.edit (update_local id _)) fun _ => .pure _
    · exact .throwType _
  | _ => exact .throwType _

theorem iterateArray_overlooks (receiver : Value) (overKeys : Bool) :
    p.Overlooks (Native.iterateArray receiver overKeys) := by
  cases receiver with
  | obj id => exact .bind (.edit (newArrayIterator_local id overKeys)) fun _ => .pure _
  | _ => exact .throwType _

theorem nextElement_overlooks (receiver : Value) : p.Overlooks (Native.nextElement receiver) := by
  refine .bind .heap fun h => ?_
  split
  · split
    · exact .bind (.edit (update_local _ _)) fun _ => .bind (.edit (newResult_local _ _)) fun _ => .pure _
    · exact .bind (.edit (update_local _ _)) fun _ => .bind (.edit (newResult_local _ _)) fun _ => .pure _
  · exact .throwType _

theorem thenPromise_overlooks (receiver onFulfilled onRejected : Value) :
    p.Overlooks (Native.thenPromise receiver onFulfilled onRejected) := by
  refine .bind .heap fun h => ?_
  split
  · exact .bind (.edit (derive_local _ _ _)) fun _ => .pure _
  · exact .throwType _

theorem takeLatch_overlooks (latch : LatchId) {x : Edit Unit} (hx : x.IsLocal) : p.Overlooks (do
    if ← Edit.takeLatch latch then x
    return .undefined : Run Value) := by
  refine .bind (.edit (.of_rfl (fun _ _ _ => rfl) fun _ => rfl)) fun was => ?_
  dsimp only
  split
  · exact .bind (.edit hx) fun _ => .pure _
  · exact .pure _

theorem native_overlooks {host : Host} {n : Native} (hn : n.isQuiet = true) (receiver : Value)
    (args : List Value) : p.Overlooks (n.call host receiver args) := by
  cases n with
  | log =>
    exact .bind .heap fun _ =>
      .bind (.edit (.of_rfl (fun _ _ _ => rfl) fun _ => rfl)) fun _ => .pure _
  | push => exact pushAll_overlooks receiver args
  | join => exact .bind .heap fun _ => .pure _
  | values | keys => exact iterateArray_overlooks receiver _
  | self => exact .pure _
  | arrayIteratorNext => exact nextElement_overlooks receiver
  | promiseThen | promiseCatch => exact thenPromise_overlooks receiver _ _
  | promiseResolve => exact .bind (.edit (ofValue_local _)) fun _ => .pure _
  | promiseReject =>
    exact .bind (.edit newPromise_local) fun _ => .bind (.edit (settle_local _ _)) fun _ => .pure _
  | resolve target latch => exact takeLatch_overlooks latch (resolve_local target _)
  | reject target latch => exact takeLatch_overlooks latch (settle_local target _)
  | error => exact .bind (.edit (newError_local _ _)) fun _ => .pure _
  | symbol => exact .bind (.edit (.of_rfl (fun _ _ _ => rfl) fun _ => rfl)) fun _ => .pure _
  | generator | asyncGenerator | promise => cases hn

end Natives

def Expr.isClean (e : Expr) : Bool := e.uses.all (!isSlotName ·)

def Pattern.isClean (p : Pattern) : Bool := p.uses.all (!isSlotName ·)

/-- Statements that evaluate one expression, without slots. -/
def Stmt.isClean : Stmt → Bool
  | .expr e | .ret (some e) | .throw e => e.isClean
  | .empty | .ret none => true
  | _ => false

def Routine.isPlain : Routine → Bool
  | .plain => true
  | .generator _ | .async _ | .asyncGenerator _ => false

/-- Functions without slots whose body is evaluated expression by expression. -/
def Closure.isQuiet (c : Closure) : Bool :=
  c.routine.isPlain && c.params.all Pattern.isClean && c.body.all Stmt.isClean

/-- A call that gives up on all but quiet functions. -/
def callQuietly : Nat → Value → Value → List Value → Run Value
  | 0, _, _, _ => Run.exhausted
  | fuel + 1, f, receiver, args => do
    let h ← Run.heap
    match h.callable? f with
    | some (.native n) =>
      if n.isQuiet then n.call ⟨callQuietly fuel, refuseSuspend, fuel⟩ receiver args
      else Run.exhausted
    | some (.closure c) =>
      if c.isQuiet then c.call ⟨callQuietly fuel, refuseSuspend, fuel⟩ f receiver args
      else Run.exhausted
    | none =>
      let shown := h.format f
      Run.throwType s!"{shown} is not a function"

def Host.quiet (fuel : Nat) : Host := ⟨callQuietly fuel, refuseSuspend, fuel⟩

theorem callQuietly_approximates (fuel : Nat) (f receiver : Value) (args : List Value) :
    Approximates (callQuietly fuel f receiver args) (callWithin fuel f receiver args) := by
  induction fuel generalizing f receiver args with
  | zero => exact .exhausted _
  | succ fuel ih =>
    have hh : Host.Within ⟨callQuietly fuel, refuseSuspend, fuel⟩
        ⟨callWithin fuel, refuseSuspend, fuel⟩ := ⟨ih, rfl, rfl, Nat.le_refl _⟩
    refine .after _ fun h => ?_
    cases h.callable? f with
    | none => exact .refl _
    | some k =>
      cases k with
      | native n =>
        dsimp only
        split
        · exact native_approximates hh n receiver args
        · exact .exhausted _
      | closure c =>
        dsimp only
        split
        · exact closure_approximates hh f c receiver args
        · exact .exhausted _

theorem hoistedNames_of_clean {body : List Stmt} (h : body.all Stmt.isClean = true) :
    hoistedNames body = [] := by
  have hnone : listVarNames body = [] := by
    induction body with
    | nil => rfl
    | cons s body ih =>
      obtain ⟨hs, hbody⟩ := Bool.and_eq_true_iff.1 h
      have hvars : s.varNames = [] := by cases s <;> first | rfl | cases hs
      rw [listVarNames, hvars, ih hbody, List.nil_append]
  rw [hoistedNames, hnone]
  rfl

theorem declaredFunctions_of_clean {body : List Stmt} (h : body.all Stmt.isClean = true) :
    declaredFunctions body = [] := by
  refine List.filterMap_eq_nil_iff.2 fun s hs => ?_
  have hclean := List.all_eq_true.1 h s hs
  cases s <;> first | rfl | cases hclean

section Closures

variable {p : Private} {host : Host}
  (hh : HostRelated p.overlooking host host) (hs : SuspendsRelated p.overlooking host host)

theorem names_of_all {names : List String} (h : names.all (!isSlotName ·) = true) :
    ∀ name ∈ names, p.overlooking.names name := fun name hn => by
  have hclean : isSlotName name = false := by simpa using List.all_eq_true.1 h name hn
  exact hclean

include hh hs

theorem bindParams_overlooks (scope : ScopeId) {params : List Pattern}
    (hclean : params.all Pattern.isClean = true) (args : List Value) :
    p.overlooking.rel (bindParams host scope params args) (bindParams host scope params args) := by
  induction params generalizing args with
  | nil => exact p.overlooking.pure ()
  | cons q params ih =>
    obtain ⟨hq, hparams⟩ := Bool.and_eq_true_iff.1 hclean
    have hbind (v : Value) : p.overlooking.rel (q.bind host scope (some .let) v) (q.bind host scope (some .let) v) :=
      q.bind_related_of_names hh scope (some .let) v (names_of_all hq) fun _ => hs
    cases q with
    | rest q =>
      refine p.overlooking.bind (p.overlooking.edit _ (newArray_local _) (newArray_calm _)) fun id => ?_
      exact q.bind_related_of_names hh scope (some .let) (.obj id) (names_of_all hq) fun _ => hs
    | _ => exact p.overlooking.bind (hbind _) fun _ => ih hparams _

theorem exec_overlooks (scope : ScopeId) {s : Stmt} (hclean : s.isClean = true) :
    p.overlooking.rel (s.exec host scope []) (s.exec host scope []) := by
  have heval {e : Expr} (he : e.isClean = true) :
      p.overlooking.rel (e.eval host scope none) (e.eval host scope none) :=
    e.eval_related_of_names hh scope none (names_of_all he) fun _ => hs
  cases s with
  | expr e =>
    rw [Stmt.exec]
    exact heval hclean
  | ret e =>
    rw [Stmt.exec]
    cases e with
    | none => exact p.overlooking.bind (p.overlooking.pure _) fun _ => p.overlooking.abrupt _ trivial
    | some e => exact p.overlooking.bind (heval hclean) fun _ => p.overlooking.abrupt _ trivial
  | throw e =>
    rw [Stmt.exec]
    exact p.overlooking.bind (heval hclean) fun _ => p.overlooking.abrupt _ trivial
  | empty =>
    rw [Stmt.exec]
    exact p.overlooking.pure _
  | _ => cases hclean

theorem execStmts_overlooks (scope : ScopeId) (last : Value) {body : List Stmt}
    (hclean : body.all Stmt.isClean = true) :
    p.overlooking.rel (execStmts host scope last body) (execStmts host scope last body) := by
  induction body generalizing last with
  | nil =>
    rw [execStmts]
    exact p.overlooking.pure last
  | cons s body ih =>
    obtain ⟨hs', hbody⟩ := Bool.and_eq_true_iff.1 hclean
    rw [execStmts]
    exact p.overlooking.bind (exec_overlooks hh hs scope hs') fun v => ih v hbody

theorem runBody_overlooks {c : Closure} (hclean : c.body.all Stmt.isClean = true) (scope : ScopeId) :
    p.overlooking.rel (c.runBody host scope) (c.runBody host scope) := by
  refine p.overlooking.attempt (execStmts_overlooks hh hs scope .undefined hclean)
    (fun _ => p.overlooking.pure _) fun e _ => ?_
  match e with
  | .ret _ => exact p.overlooking.pure _
  | .brk _ | .cont _ => exact throwNew_related p.overlooking _ _
  | .throw _ | .fatal _ => exact p.overlooking.abrupt _ trivial

theorem enter_overlooks {c : Closure} (hparams : c.params.all Pattern.isClean = true)
    (hclean : c.body.all Stmt.isClean = true) (receiver : Value) (args : List Value) :
    p.overlooking.rel (c.enter host receiver args) (c.enter host receiver args) := by
  have hrest (scope : ScopeId) : p.overlooking.rel
      (do
        bindParams host scope c.params args
        hoistVars scope c.body
        instantiate scope (declaredFunctions c.body)
        return scope : Run ScopeId)
      (do
        bindParams host scope c.params args
        hoistVars scope c.body
        instantiate scope (declaredFunctions c.body)
        return scope) := by
    rw [hoistVars, hoistedNames_of_clean hclean, declaredFunctions_of_clean hclean]
    exact p.overlooking.bind (bindParams_overlooks hh hs scope hparams args) fun _ =>
      p.overlooking.bind (p.overlooking.pure ()) fun _ =>
        p.overlooking.bind (p.overlooking.pure ()) fun _ => p.overlooking.pure scope
  refine p.overlooking.bind (p.overlooking.newScope _) fun scope => ?_
  dsimp only
  split
  · exact p.overlooking.bind (p.overlooking.define scope "this" .var receiver rfl) fun _ => hrest scope
  · exact hrest scope

theorem closure_overlooks (f : Value) {c : Closure} (hq : c.isQuiet = true) (receiver : Value)
    (args : List Value) :
    p.overlooking.rel (c.call host f receiver args) (c.call host f receiver args) := by
  obtain ⟨hq, hbody⟩ := Bool.and_eq_true_iff.1 hq
  obtain ⟨hplain, hparams⟩ := Bool.and_eq_true_iff.1 hq
  refine p.overlooking.bind (enter_overlooks hh hs hparams hbody receiver args) fun scope => ?_
  cases hr : c.routine with
  | plain => exact runBody_overlooks hh hs hbody scope
  | generator | async | asyncGenerator =>
    rw [hr] at hplain
    cases hplain

end Closures

/-- Whatever is in the slots, a quiet call goes the same way. -/
theorem callQuietly_overlooks {p : Private} (fuel : Nat) (f receiver : Value) (args : List Value) :
    p.Overlooks (callQuietly fuel f receiver args) := by
  induction fuel generalizing f receiver args with
  | zero => exact fun _ _ _ => .exhausted
  | succ fuel ih =>
    have hs : SuspendsRelated p.overlooking (Host.quiet fuel) (Host.quiet fuel) :=
      fun kind x y _ => refuseSuspend_related p.overlooking kind x y
    have hh : HostRelated p.overlooking (Host.quiet fuel) (Host.quiet fuel) :=
      ⟨fun f receiver args => ⟨rfl, ih f receiver args⟩, .same _, fun x y hxy => hs .await x y hxy⟩
    refine .bind .heap fun h => ?_
    cases h.callable? f with
    | none => exact .throwType _
    | some k =>
      cases k with
      | native n =>
        dsimp only
        split
        · exact native_overlooks ‹_› receiver args
        · exact fun _ _ _ => .exhausted
      | closure c =>
        dsimp only
        split
        · exact (closure_overlooks hh hs f ‹_› receiver args).2
        · exact fun _ _ _ => .exhausted

/-- A call that a quiet host makes is one for which the slots make no difference. -/
theorem blindAt_of_quiet (p : Private) {fuel : Nat} {f receiver : Value} {args : List Value} {w : World}
    (h : callQuietly fuel f receiver args w ≠ .exhausted) :
    p.BlindAt ((Host.withFuel fuel).call f receiver args) w := by
  have hsame {w : World} (h : callQuietly fuel f receiver args w ≠ .exhausted) :
      (Host.withFuel fuel).call f receiver args w = callQuietly fuel f receiver args w :=
    (callQuietly_approximates fuel f receiver args).eq_of_ne h
  intro w' hw
  have hlike := (callQuietly_overlooks (p := p) fuel f receiver args).blindAt w w' hw
  have h' : callQuietly fuel f receiver args w' ≠ .exhausted := by
    intro hnone
    rw [hnone] at hlike
    cases hr : callQuietly fuel f receiver args w with
    | done | abrupt =>
      rw [hr] at hlike
      cases hlike
    | exhausted => exact h hr
  rw [hsame h, hsame h']
  exact hlike

theorem quiet_approximates_discreet (p : Private) (fuel : Nat) :
    HostRelated approximates.toEvalRelation (answering (Host.quiet fuel))
      (answering ((Host.withFuel fuel).discreet p)) where
  call f receiver args := by
    refine approximates.bind (fun _ => .inr rfl) fun _ s => ?_
    by_cases hnone : callQuietly fuel f receiver args s.world = .exhausted
    · exact .inl (by simp only [lift, Host.quiet, hnone])
    · refine .inr ?_
      have hsame : (Host.withFuel fuel).call f receiver args s.world =
          callQuietly fuel f receiver args s.world :=
        (callQuietly_approximates fuel f receiver args).eq_of_ne hnone
      simp only [lift, HostOn.discreet, if_pos (blindAt_of_quiet p hnone), hsame, Host.quiet]
  fuel := .same _
  await x y hxy := approximates.bind hxy fun _ _ => .inr rfl

/-- Evaluation that makes no calls but quiet ones is the same if the host gives up on those for which the
slots make a difference. -/
theorem Expr.eval_quiet (p : Private) {fuel : Nat} {scope : ScopeId} {hint : Option String} {e : Expr}
    {s : Dialogue} (h : e.eval (answering (.quiet fuel)) scope hint s ≠ .exhausted) :
    e.eval (answering ((Host.withFuel fuel).discreet p)) scope hint s =
      e.eval (answering (.quiet fuel)) scope hint s :=
  Approximates.eq_of_ne (e.eval_related_of_all (quiet_approximates_discreet p fuel) (fun _ => trivial)
    scope hint fun _ _ _ _ h => approximates.bind h fun _ _ => .inr rfl) h

end Resumable
