import Resumable.Proofs.Machine.Related

/-!
What runs do to the world, seen from outside. A conduct says which states a run may lead to; calm edits
keep to every conduct, so script code does whenever the calls that it makes do. Main statements:
`Conduct.relation`, `dispatch_gives`, `slice_gives`.
-/

set_option autoImplicit false

namespace Resumable

/-- Whether the world that a run ends in, if it ends, has a property. -/
def Outcome.Leaves {α : Type} (P : World → Prop) : Outcome World α → Prop
  | .done _ w | .abrupt _ w => P w
  | .exhausted => True

/-- Whether a run ends normally if it ends, with a value and a world that have a property. -/
def Outcome.Yields {α : Type} (P : α → World → Prop) : Outcome World α → Prop
  | .done a w => P a w
  | .abrupt _ _ => False
  | .exhausted => True

section Outcomes

variable {α β : Type} {P : α → World → Prop} {Q : β → World → Prop} {w : World}

theorem Outcome.Leaves.mono {P Q : World → Prop} {r : Outcome World α} (h : r.Leaves P)
    (hP : ∀ w, P w → Q w) : r.Leaves Q := by
  cases r with
  | done a w | abrupt c w => exact hP w h
  | exhausted => trivial

theorem Outcome.Yields.bind {x : Run α} {f : α → Run β} (hx : (x w).Yields P)
    (hf : ∀ a w₁, P a w₁ → (f a w₁).Yields Q) : ((x >>= f) w).Yields Q := by
  simp only [Bind.bind, RunOn.bind]
  cases hxw : x w with
  | done a w₁ =>
    rw [hxw] at hx
    exact hf a w₁ hx
  | abrupt c w₁ =>
    rw [hxw] at hx
    exact hx
  | exhausted => trivial

theorem Outcome.Yields.mono {P' : α → World → Prop} {r : Outcome World α} (h : r.Yields P)
    (hP : ∀ a w, P a w → P' a w) : r.Yields P' := by
  cases r with
  | done a w => exact hP a w h
  | abrupt c w => exact h
  | exhausted => trivial

theorem Outcome.Yields.leaves {r : Outcome World α} {R : World → Prop} (h : r.Yields P)
    (hP : ∀ a w, P a w → R w) : r.Leaves R := by
  cases r with
  | done a w => exact hP a w h
  | abrupt c w => exact h.elim
  | exhausted => trivial

end Outcomes

/-- What runs may do: states with a world in each, and where a run may lead from one of them. -/
structure Conduct where
  State : Type
  world : State → World
  Good : State → Prop
  Leads : State → State → Prop
  Leaves : State → World → Prop
  leaves_iff : ∀ {s : State} {w : World}, Leaves s w ↔ ∃ t, Leads s t ∧ world t = w
  good : ∀ {s t : State}, Leads s t → Good t
  refl : ∀ {s : State}, Good s → Leads s s
  trans : ∀ {s t u : State}, Leads s t → Leads t u → Leads s u
  calm : ∀ {s : State} {w : World}, Good s → (world s).Calm w → ∃ t, Leads s t ∧ world t = w

namespace Conduct

/-- Whether a run keeps to a conduct, however it completes. -/
def Allows (C : Conduct) {α : Type} (x : Run α) : Prop :=
  ∀ s, C.Good s → (x (C.world s)).Leaves (C.Leaves s)

/-- Whether a run that starts in a state completes normally, and with what. -/
def Gives (C : Conduct) {α : Type} (s : C.State) (x : Run α) (P : α → C.State → Prop) : Prop :=
  (x (C.world s)).Yields fun a w => ∃ t, C.Leads s t ∧ C.world t = w ∧ P a t

namespace Allows

variable {C : Conduct} {α β : Type} {x : Run α}

theorem leaves_self {s : C.State} (hs : C.Good s) : C.Leaves s (C.world s) :=
  C.leaves_iff.2 ⟨s, C.refl hs, rfl⟩

theorem pure (a : α) : C.Allows (Pure.pure a : Run α) := fun _ hs => leaves_self hs

theorem exhausted : C.Allows (Run.exhausted : Run α) := fun _ _ => trivial

theorem abrupt (c : Abrupt) : C.Allows (Run.abrupt c : Run α) := fun _ hs => leaves_self hs

theorem read (view : World → α) : C.Allows (Run.read view : Run α) := fun _ hs => leaves_self hs

theorem calm {x : Edit α} (hx : x.IsCalm) : C.Allows (Run.edit x : Run α) :=
  fun _ hs => C.leaves_iff.2 (C.calm hs (hx _))

theorem bind {f : α → Run β} (hx : C.Allows x) (hf : ∀ a, C.Allows (f a)) :
    C.Allows (x >>= f) := by
  intro s hs
  have hleaves := hx s hs
  simp only [Bind.bind, RunOn.bind]
  cases hxs : x (C.world s) with
  | done a w =>
    rw [hxs] at hleaves
    obtain ⟨t, ht, rfl⟩ := C.leaves_iff.1 hleaves
    refine (hf a t (C.good ht)).mono fun w hw => ?_
    obtain ⟨u, hu, rfl⟩ := C.leaves_iff.1 hw
    exact C.leaves_iff.2 ⟨u, C.trans ht hu, rfl⟩
  | abrupt c w =>
    rw [hxs] at hleaves
    exact hleaves
  | exhausted => trivial

theorem attempt (hx : C.Allows x) : C.Allows x.attempt := by
  intro s hs
  have hleaves := hx s hs
  simp only [RunOn.attempt]
  cases hxs : x (C.world s) with
  | done a w | abrupt c w =>
    rw [hxs] at hleaves
    exact hleaves
  | exhausted => trivial

theorem throwNew (kind : ErrorKind) (message : String) :
    C.Allows (Run.throwNew kind message : Run α) :=
  .bind (.calm (newError_calm kind message)) fun _ => .abrupt _

end Allows

namespace Gives

variable {C : Conduct} {α β : Type} {s : C.State} {P : α → C.State → Prop} {Q : β → C.State → Prop}

theorem pure {a : α} (hs : C.Good s) (h : P a s) : C.Gives s (Pure.pure a) P :=
  ⟨s, C.refl hs, rfl, h⟩

theorem exhausted : C.Gives s Run.exhausted P := trivial

theorem bind {x : Run α} {f : α → Run β} (hx : C.Gives s x P)
    (hf : ∀ a t, C.Leads s t → P a t → C.Gives t (f a) Q) : C.Gives s (x >>= f) Q := by
  refine Outcome.Yields.bind hx fun a w => ?_
  rintro ⟨t, ht, rfl, ha⟩
  refine (hf a t ht ha).mono fun b w => ?_
  rintro ⟨u, hu, rfl, hb⟩
  exact ⟨u, C.trans ht hu, rfl, hb⟩

theorem mono {P' : α → C.State → Prop} {x : Run α} (hx : C.Gives s x P)
    (h : ∀ a t, C.Leads s t → P a t → P' a t) : C.Gives s x P' := by
  refine Outcome.Yields.mono hx fun a w => ?_
  rintro ⟨t, ht, rfl, ha⟩
  exact ⟨t, ht, rfl, h a t ht ha⟩

theorem read {view : World → α} {f : α → Run β} (hf : C.Gives s (f (view (C.world s))) Q) :
    C.Gives s (Run.read view >>= f) Q := hf

theorem and {x : Run α} {R : α → World → Prop} (hx : C.Gives s x P)
    (hR : (x (C.world s)).Yields R) : C.Gives s x fun a t => P a t ∧ R a (C.world t) := by
  unfold Gives at hx ⊢
  cases hxs : x (C.world s) with
  | done a w =>
    rw [hxs] at hx hR
    obtain ⟨t, ht, rfl, ha⟩ := hx
    exact ⟨t, ht, rfl, ha, hR⟩
  | abrupt c w =>
    rw [hxs] at hx
    exact hx.elim
  | exhausted => trivial

theorem edit_bind {x : Edit α} {f : α → Edit β} (hx : C.Gives s (Run.edit x) P)
    (hf : ∀ a t, C.Leads s t → P a t → C.Gives t (Run.edit (f a)) Q) :
    C.Gives s (Run.edit (x >>= f)) Q :=
  bind hx hf

theorem calm {x : Edit α} {f : α → Run β} (hs : C.Good s) (hx : x.IsCalm)
    (hf : ∀ a t, C.Leads s t → C.Gives t (f a) Q) : C.Gives s (Run.edit x >>= f) Q := by
  obtain ⟨t, ht, hw⟩ := C.calm hs (hx (C.world s))
  refine .bind (P := fun _ _ => True) ?_ fun a t ht _ => hf a t ht
  exact ⟨t, ht, hw, trivial⟩

/-- Script code may complete in any way if what follows takes every completion. -/
theorem attempt {x : Run α} {f : Except Abrupt α → Run β} (hs : C.Good s) (hx : C.Allows x)
    (hf : ∀ r t, C.Leads s t → C.Gives t (f r) Q) : C.Gives s (x.attempt >>= f) Q := by
  refine .bind (P := fun _ _ => True) ?_ fun r t ht _ => hf r t ht
  have hleaves := hx s hs
  simp only [Gives, RunOn.attempt]
  cases hxs : x (C.world s) with
  | done a w | abrupt c w =>
    rw [hxs] at hleaves
    obtain ⟨t, ht, rfl⟩ := C.leaves_iff.1 hleaves
    exact ⟨t, ht, rfl, trivial⟩
  | exhausted => trivial

end Gives

/-- Runs that are the same and keep to a conduct. -/
def relation (C : Conduct) : RunRelation World World where
  rel x y := x = y ∧ C.Allows x
  occurs _ := True
  names _ := True
  throw_occurs _ := trivial
  fatal_occurs _ := trivial
  pure a := ⟨rfl, .pure a⟩
  bind hx hf := ⟨by rw [hx.1, funext fun a => (hf a).1], hx.2.bind fun a => (hf a).2⟩
  attempt := by
    rintro α β x _ f g ⟨rfl, hx⟩ hok herror
    refine ⟨?_, hx.attempt.bind ?_⟩
    · refine congrArg (x.attempt >>= ·) (funext fun r => ?_)
      cases r with
      | ok a => exact (hok a).1
      | error c => exact (herror c trivial).1
    · intro r
      cases r with
      | ok a => exact (hok a).2
      | error c => exact (herror c trivial).2
  abrupt c _ := ⟨rfl, .abrupt c⟩
  exhausted := ⟨rfl, .exhausted⟩
  heap := ⟨rfl, .read _⟩
  lookup _ _ _ := ⟨rfl, .read _⟩
  has _ _ _ := ⟨rfl, .read _⟩
  this _ := ⟨rfl, .read _⟩
  edit _ _ hx := ⟨rfl, .calm hx⟩
  newScope scope := ⟨rfl, .calm (newScope_calm scope)⟩
  copyScope scope := ⟨rfl, .calm (copyScope_calm scope)⟩
  declare scope name kind _ := ⟨rfl, .calm (declare_calm scope name kind)⟩
  assign scope name v _ := ⟨rfl, .calm (assign_calm scope name v)⟩
  define scope name kind v _ := ⟨rfl, .calm (define_calm scope name kind v)⟩

/-- Whether the calls of a host keep to a conduct, and its suspend expressions are errors. -/
structure Hosts (C : Conduct) (host : Host) : Prop where
  call : ∀ f receiver args, C.Allows (host.call f receiver args)
  suspend : host.suspend = refuseSuspend

namespace Hosts

variable {C : Conduct} {host : Host}

theorem related (h : C.Hosts host) : HostRelated C.relation.toEvalRelation host host where
  call f receiver args := ⟨rfl, h.call f receiver args⟩
  fuel := .same _
  await x y _ := by
    rw [h.suspend]
    exact refuseSuspend_related C.relation.toEvalRelation .await x y

theorem suspends (h : C.Hosts host) : SuspendsRelated C.relation.toEvalRelation host host := by
  intro kind x y _
  rw [h.suspend]
  exact refuseSuspend_related C.relation.toEvalRelation kind x y

theorem suits (h : C.Hosts host) : C.relation.Suits host host :=
  ⟨h.related, h.suspends, fun _ => trivial, fun _ => trivial⟩

end Hosts

def lax : Conduct where
  State := World
  world w := w
  Good _ := True
  Leads _ _ := True
  Leaves _ _ := True
  leaves_iff := ⟨fun _ => ⟨_, trivial, rfl⟩, fun _ => trivial⟩
  good _ := trivial
  refl _ := trivial
  trans _ _ := trivial
  calm _ _ := ⟨_, trivial, rfl⟩

theorem lax_hosts {host : Host} (h : host.suspend = refuseSuspend) : lax.Hosts host := by
  refine ⟨fun f receiver args w _ => ?_, h⟩
  cases host.call f receiver args (lax.world w) <;> trivial

end Conduct

section Scripts

variable {C : Conduct} {host : Host} (hh : C.Hosts host)

include hh

theorem Expr.eval_allowed (scope : ScopeId) (hint : Option String) (e : Expr) :
    C.Allows (e.eval host scope hint) :=
  (e.eval_related_of_all hh.related (fun _ => trivial) scope hint fun _ => hh.suspends).2

theorem evalOption_allowed (scope : ScopeId) (e : Option Expr) :
    C.Allows (evalOption host scope e) :=
  (evalOption_related hh.related (fun _ => trivial) scope e fun _ => hh.suspends).2

theorem Stmt.exec_allowed (scope : ScopeId) (s : Stmt) : C.Allows (s.exec host scope []) :=
  (s.exec_related hh.related (fun _ => trivial) (fun _ => trivial) scope [] fun _ => hh.suspends).2

theorem execStmts_allowed (scope : ScopeId) (last : Value) (ss : List Stmt) :
    C.Allows (execStmts host scope last ss) :=
  (execStmts_related hh.related (fun _ => trivial) (fun _ => trivial) ss scope last
    fun _ => hh.suspends).2

theorem Pattern.bind_allowed (scope : ScopeId) (kind : Option VarKind) (p : Pattern) (v : Value) :
    C.Allows (p.bind host scope kind v) :=
  (p.bind_related hh.related (fun _ => trivial) scope kind v fun _ => hh.suspends).2

theorem ofValue_allowed (v : Value) : C.Allows (IteratorRecord.ofValue host v) :=
  (ofValue_related hh.related v).2

theorem closeIterator_allowed (iterator : Value) (throwing : Bool) :
    C.Allows (closeIterator host iterator throwing) :=
  (closeIterator_related hh.related iterator throwing).2

theorem callNext_allowed (r : IteratorRecord) (args : List Value) :
    C.Allows (r.callNext host args) := (callNext_related hh.related r args).2

omit hh in
theorem instantiate_allowed (scope : ScopeId) (functions : List FunctionDecl) :
    C.Allows (instantiate scope functions) :=
  (instantiate_related C.relation.toEvalRelation scope functions fun _ _ => trivial).2

theorem ofAsync_allowed (v : Value) : C.Allows (IteratorRecord.ofAsync host v) :=
  (ofAsync_related hh.related v).2

theorem openIterator_allowed (v : Value) (isAsync overKeys : Bool) :
    C.Allows (Instance.openIterator host v isAsync overKeys) :=
  (openIterator_related hh.related v isAsync overKeys).2

theorem forward_allowed (r : IteratorRecord) (m : Method) (v : Value) :
    C.Allows (r.forward host m v) := (forward_related hh.related r m v).2

theorem enter_allowed (c : Closure) (receiver : Value) (args : List Value) :
    C.Allows (c.enter host receiver args) := (enter_related hh.suits c receiver args).2

theorem runBody_allowed (c : Closure) (scope : ScopeId) : C.Allows (c.runBody host scope) :=
  (runBody_related hh.suits c scope).2

theorem construct_allowed (executor : Value) (promise : ObjectId) (r : Promise.Resolvers) :
    C.Allows (do
      match ← (host.call executor .undefined [r.resolve, r.reject]).attempt with
      | .error (.throw v) => let _ ← (host.call r.reject .undefined [v]).attempt
      | .error (.fatal e) => Run.fatal e
      | _ => pure ()
      return .obj promise : Run Value) := (executed_related hh.suits executor promise r).2

theorem adopt_allowed (thenable method resolve reject : Value) :
    C.Allows ((Job.adopt thenable method resolve reject).run host) :=
  (adopt_related hh.suits thenable method resolve reject).2

theorem handlers_allowed (onFulfilled onRejected : Option Value) (resolve reject : Value)
    (s : Settlement) :
    C.Allows ((Reaction.handlers onFulfilled onRejected resolve reject).run host s) :=
  (handlers_related hh.suits onFulfilled onRejected resolve reject s).2

omit hh

theorem toResult_allowed (s : Stop) : C.Allows s.toResult := (toResult_related C.relation s).2

theorem pushAll_apply (id : ObjectId) (items : List Value) (w : World) :
    Native.pushAll (.obj id) items w =
      (match w.heap.elements? (.obj id) with
        | some elements => do
          let elements := elements ++ items.toArray
          Edit.update id fun o => { o with role := .array elements }
          return .ofNat elements.size
        | none => Run.throwType "Array.prototype.push called on non-array" : Run Value) w := rfl

theorem pushAll_allowed (receiver : Value) (items : List Value) :
    C.Allows (Native.pushAll receiver items) := by
  cases receiver with
  | obj id =>
    -- only an array gets elements, so the role is data before and after
    intro s hs
    rw [pushAll_apply]
    cases helements : (C.world s).heap.elements? (.obj id) with
    | some elements =>
      obtain ⟨o, ho, helements⟩ := Option.bind_eq_some_iff.1 helements
      have hdata : o.role.isData = true := by rw [elements?_eq_some.1 helements]; rfl
      exact C.leaves_iff.2 (C.calm hs (updateRole_calm ho hdata rfl))
    | none => exact Conduct.Allows.throwNew _ _ s hs
  | _ => exact .throwNew _ _

theorem nextElement_allowed (receiver : Value) : C.Allows (Native.nextElement receiver) := by
  have hstep {id : ObjectId} {s : C.State} (hs : C.Good s) {o : Object}
      (ho : (C.world s).heap.get? id = some o) (hd : o.role.isData = true) (source : ObjectId)
      (index : Nat) (overKeys ended : Bool) (v : Value) (done : Bool) : Outcome.Leaves (C.Leaves s)
        ((do
          Edit.update id fun o => { o with role := .arrayIterator source index overKeys ended }
          return .obj (← Edit.newResult v done) : Run Value) (C.world s)) :=
    C.leaves_iff.2 (C.calm hs ((updateRole_calm ho hd rfl).trans (newResult_calm v done _)))
  cases receiver with
  | obj id =>
    intro s hs
    have hthrow := Conduct.Allows.throwNew (C := C) (α := Value) .typeError
      "next method called on incompatible receiver" s hs
    simp only [Native.nextElement, Run.heap, Run.read, Bind.bind, RunOn.bind]
    cases hrole : ((HasWorld.world (C.world s)).heap.object? (.obj id)).map Object.role with
    | none => exact hthrow
    | some r =>
      obtain ⟨o, ho, hr⟩ := Option.map_eq_some_iff.1 hrole
      cases r with
      | arrayIterator source index overKeys done =>
        have hdata : o.role.isData = true := by rw [hr]; rfl
        dsimp only
        generalize (if done then none else _ : Option Value) = found
        cases found <;> exact hstep hs ho hdata _ _ _ _ _ _
      | ordinary | function | array | generator | asyncGenerator | promise => exact hthrow
  | _ => exact .throwNew _ _

theorem iterateArray_allowed (receiver : Value) (overKeys : Bool) :
    C.Allows (Native.iterateArray receiver overKeys) :=
  (iterateArray_related C.relation receiver overKeys).2

end Scripts

/-- Whether an action is one that callers of a generator have. -/
def Action.isCall : Action → Bool
  | .next _ | .throw _ | .ret _ => true
  | .settled _ | .delegateDone _ | .delegateThrew _ => false

theorem Action.isCall_ofMethod (m : Method) (v : Value) : (Action.ofMethod m v).isCall = true := by
  cases m <;> rfl

theorem Action.endsDelegate_of_isCall {a : Action} (h : a.isCall = true) : a.endsDelegate = false := by
  cases a <;> first | rfl | cases h

/-- The generator that an instance delegates to directly. -/
def Instance.delegate? (g : Instance) : Option InstanceId := g.delegation.bind Delegation.native

/-- A property of running instances that is kept whatever they run: of their plan, what they wait for,
their kind and their delegation. -/
structure Conduct.Fitness (C : Conduct) where
  fit : C.State → Plan → Option Parked → Bool → Option Delegation → Prop
  rests : Prop
  stable : ∀ {s t l p b d}, C.Leads s t → fit s l p b d → fit t l p b d
  ended : ∀ {s l p b d}, fit s l p b d → fit s l p b none
  received : ∀ {s l p b d} (m : Method), fit s l p b (some d) →
    fit s l p b (some { d with received := m })
  started : ∀ {s l p b d} (record : IteratorRecord), fit s l p b d →
    fit s l p b (some ⟨record, .next,
      if b then none else (C.world s).heap.nativeGenerator? record.iterator⟩)

def Instance.Fit {C : Conduct} (F : C.Fitness) (s : C.State) (g : Instance) : Prop :=
  F.fit s g.plan g.parked g.isAsync g.delegation

def Instance.Runnable {C : Conduct} (F : C.Fitness) (s : C.State) (g : Instance) : Prop :=
  g.Fit F s ∧ (F.rests → g.awaiting = none)

/-- Whether the instance of a turn is fit, and awaits nothing unless it says so; what it passes on to
the generator that it delegates to is what a caller can ask. -/
def Turn.Fits {C : Conduct} (F : C.Fitness) (t : Turn) (s : C.State) : Prop :=
  match t with
  | .goOn g => g.Runnable F s
  | .pause g (.stop (.awaiting _)) => g.Fit F s
  | .pause g (.stop _) => g.Runnable F s
  | .pause g (.delegate inner a) =>
    g.Runnable F s ∧ g.delegate? = some inner ∧ a.isCall = true

theorem Turn.Fits.fit {C : Conduct} {F : C.Fitness} {s : C.State} {g : Instance} {p : Pause}
    (h : Turn.Fits F (.pause g p) s) : g.Fit F s := by
  cases p with
  | delegate => exact h.1.1
  | stop stop =>
    cases stop with
    | awaiting => exact h
    | yielded | returned | threw | failed => exact h.1

section Machine

variable {C : Conduct} {host : Host} {F : C.Fitness} {s : C.State} {g : Instance}
  (hh : C.Hosts host)

theorem Instance.Runnable.later {t : C.State} (hg : g.Runnable F s)
    (h : C.Leads s t) : g.Runnable F t :=
  ⟨F.stable h hg.1, hg.2⟩

theorem Instance.Runnable.endDelegation (hg : g.Runnable F s) :
    g.endDelegation.Runnable F s :=
  ⟨F.ended hg.1, hg.2⟩

include hh

theorem unwindThrough_gives (hs : C.Good s) (hg : g.Runnable F s) (signal : Signal)
    (frames : List Frame) : C.Gives s (g.unwindThrough host signal frames) (Turn.Fits F) := by
  induction frames generalizing g signal s with
  | nil => cases signal <;> exact .pure hs hg
  | cons f outer ih =>
    unfold Instance.unwindThrough
    cases signal.landing? (outer.length + 1) with
    | some j => exact .pure hs hg
    | none =>
      dsimp only
      cases f.kind.receive signal with
      | handle | finalize => exact .pure hs hg
      | pass => exact ih hs hg signal
      | close iterator =>
        refine .attempt hs (closeIterator_allowed hh _ _) fun r t ht => ?_
        have hg := hg.later ht
        cases r with
        | ok =>
          exact ih (C.good ht) (by exact hg) signal
        | error c =>
          cases c with
          | throw v => exact ih (C.good ht) (by exact hg) (.throw v)
          | fatal e => exact .pure (C.good ht) hg
          | ret | brk | cont =>
            exact ih (C.good ht) (by exact hg) signal

theorem unwind_gives (hs : C.Good s) (hg : g.Runnable F s) (signal : Signal) :
    C.Gives s (g.unwind host signal) (Turn.Fits F) :=
  unwindThrough_gives hh hs hg signal g.frames

theorem unwindNew_gives (hs : C.Good s) (hg : g.Runnable F s) (kind : ErrorKind) (message : String) :
    C.Gives s (do
      let e ← Edit.newError kind message
      g.unwind host (.throw (.obj e))) (Turn.Fits F) :=
  .calm hs (newError_calm kind message) fun _ _ ht =>
    unwind_gives hh (C.good ht) (hg.later ht) _

theorem jump_gives (hs : C.Good s) (hg : g.Runnable F s) (label : Option String)
    (isContinue : Bool) : C.Gives s (g.jump host label isContinue) (Turn.Fits F) := by
  unfold Instance.jump
  cases jumpAmong label isContinue g.loops with
  | some j => exact unwind_gives hh hs hg _
  | none => exact unwindNew_gives hh hs hg _ _

theorem complete_gives (hs : C.Good s) (hg : g.Runnable F s) (c : Abrupt) :
    C.Gives s (g.complete host c) (Turn.Fits F) := by
  cases c with
  | ret | throw => exact unwind_gives hh hs hg _
  | brk | cont => exact jump_gives hh hs hg _ _
  | fatal => exact .pure hs hg

theorem after_gives {α : Type} (hs : C.Good s) (hg : g.Runnable F s) {x : Run α} (hx : C.Allows x)
    {next : α → Run Turn} (hn : ∀ a t, C.Leads s t → C.Gives t (next a) (Turn.Fits F)) :
    C.Gives s (g.after host x next) (Turn.Fits F) := by
  refine .attempt hs hx fun r t ht => ?_
  cases r with
  | ok a => exact hn a t ht
  | error c => exact complete_gives hh (C.good ht) (hg.later ht) c

theorem after_pure_gives {α : Type} (hs : C.Good s) (hg : g.Runnable F s) {x : Run α}
    (hx : C.Allows x) {next : α → Turn} (hn : ∀ a t, g.Runnable F t → (next a).Fits F t) :
    C.Gives s (g.after host x fun a => Pure.pure (next a)) (Turn.Fits F) :=
  after_gives hh hs hg hx fun a t ht => .pure (C.good ht) (hn a t (hg.later ht))

theorem store_gives (hs : C.Good s) (hg : g.Runnable F s) (slot : Option String) (next : Nat)
    (v : Value) : C.Gives s (g.store host slot next v) (Turn.Fits F) := by
  cases slot with
  | none => exact .pure hs hg
  | some name =>
    exact after_pure_gives hh hs hg
      (writeName_related C.relation.toEvalRelation _ name v trivial).2 fun _ _ hg => hg

theorem storeResume_gives (hs : C.Good s) (hg : g.Runnable F s) (v : Value) :
    C.Gives s (g.storeResume host v) (Turn.Fits F) := by
  unfold Instance.storeResume
  split
  · exact store_gives hh hs hg _ _ v
  -- at the three instructions that suspend it is the next one that stores
  iterate 3
    · split
      · refine store_gives hh hs ?_ _ _ v
        exact hg
      · exact .exhausted
  · exact .exhausted

theorem delegateDone_gives (hs : C.Good s) (hg : g.Runnable F s) (v : Value) :
    C.Gives s (g.delegateDone host v) (Turn.Fits F) := by
  unfold Instance.delegateDone
  split
  · exact unwind_gives hh hs hg.endDelegation _
  · exact storeResume_gives hh hs hg.endDelegation v

theorem delegateResult_gives (hs : C.Good s) (hg : g.Runnable F s) (result : Value) :
    C.Gives s (g.delegateResult host result) (Turn.Fits F) := by
  refine .read ?_
  split
  · exact .pure hs hg.1
  · cases malformed? (C.world s).heap result with
    | some e => exact .pure hs hg.endDelegation
    | none =>
      dsimp only
      split
      · exact delegateDone_gives hh hs hg _
      · exact .pure hs hg

theorem delegateMissing_gives (hs : C.Good s) (hg : g.Runnable F s) (iterator : Value) (m : Method)
    (v : Value) : C.Gives s (g.delegateMissing host iterator m v) (Turn.Fits F) := by
  cases m with
  | next | ret => exact unwind_gives hh hs hg _
  | throw =>
    exact after_gives hh hs hg (closeIterator_allowed hh _ _) fun _ _ ht =>
      unwindNew_gives hh (C.good ht) (hg.later ht) _ _

theorem passOn_gives (hs : C.Good s) (hg : g.Runnable F s) (m : Method) (v : Value) :
    C.Gives s (g.passOn host m v) (Turn.Fits F) := by
  unfold Instance.passOn
  cases hd : g.delegation with
  | none => exact storeResume_gives hh hs hg v
  | some d =>
    have hfit : F.fit s g.plan g.parked g.isAsync (some d) := hd ▸ hg.1
    obtain ⟨record, received, native⟩ := d
    have hg' : ({ g with delegation := some ⟨record, m, native⟩ } : Instance).Runnable F s :=
      ⟨F.received m hfit, hg.2⟩
    cases native with
    | some inner => exact .pure hs ⟨hg', rfl, by cases m <;> rfl⟩
    | none =>
      refine .attempt hs (forward_allowed hh _ m v) fun r t ht => ?_
      have hg' := hg'.later ht
      rcases r with c | _ | result
      · exact complete_gives hh (C.good ht) hg'.endDelegation c
      · exact delegateMissing_gives hh (C.good ht) hg'.endDelegation _ m v
      · exact delegateResult_gives hh (C.good ht) hg' result

theorem startDelegation_gives (hs : C.Good s) (hg : g.Runnable F s) (iterable : Value) :
    C.Gives s (g.startDelegation host iterable) (Turn.Fits F) := by
  refine .read (after_gives hh hs hg ?_ fun record t ht => .read ?_)
  · split
    · exact ofAsync_allowed hh iterable
    · exact ofValue_allowed hh iterable
  · refine passOn_gives hh (C.good ht) ?_ _ _
    exact ⟨F.started record (hg.later ht).1, hg.2⟩

theorem bindElement_gives (hs : C.Good s) (hg : g.Runnable F s) (v : Value) :
    C.Gives s (g.bindElement host v) (Turn.Fits F) := by
  unfold Instance.bindElement
  split
  · exact .calm hs (newScope_calm _) fun scope t ht =>
      after_pure_gives (g := g.pushScope scope) hh (C.good ht) (hg.later ht)
        (Pattern.bind_allowed hh _ _ _ v) fun _ _ hg => hg
  · exact .pure hs hg

theorem iteratorResult_gives (hs : C.Good s) (hg : g.Runnable F s) (result : Value) :
    C.Gives s (g.iteratorResult host result) (Turn.Fits F) := by
  refine .read ?_
  cases malformed? (C.world s).heap result with
  | some e => exact .pure hs hg
  | none =>
    dsimp only
    split
    · split <;> exact .pure hs hg
    · split
      · exact .pure hs hg.1
      · exact bindElement_gives hh hs hg _

theorem moveNext_gives (hs : C.Good s) (hg : g.Runnable F s) (isAsync : Bool) :
    C.Gives s (g.moveNext host isAsync) (Turn.Fits F) := by
  unfold Instance.moveNext
  cases g.iterator? with
  | none => exact unwindNew_gives hh hs hg _ _
  | some record =>
    refine .attempt hs (callNext_allowed hh record []) fun r t ht => ?_
    have hg := hg.later ht
    cases r with
    | error c => exact complete_gives (g := g.popFrame) hh (C.good ht) hg c
    | ok result =>
      dsimp only
      split
      · exact .pure (C.good ht) hg.1
      · exact iteratorResult_gives hh (C.good ht) hg result

theorem exitTry_gives (hs : C.Good s) (hg : g.Runnable F s) (next : Nat) (close : Bool) :
    C.Gives s (g.exitTry host next close) (Turn.Fits F) := by
  unfold Instance.exitTry
  split
  · exact .pure hs hg
  · dsimp only
    split
    · exact .pure hs hg
    · exact .pure hs hg
    · exact .pure hs hg
    · split
      · exact after_pure_gives hh hs (by exact hg) (closeIterator_allowed hh _ _) fun _ _ hg => hg
      · exact .pure hs hg

theorem endFinally_gives (hs : C.Good s) (hg : g.Runnable F s) (next : Nat) :
    C.Gives s (g.endFinally host next) (Turn.Fits F) := by
  unfold Instance.endFinally
  split
  · exact unwind_gives (g := g.popFrame) hh hs hg _
  · exact .pure hs hg

theorem bindCatch_gives (hs : C.Good s) (hg : g.Runnable F s) (param : Option Pattern)
    (next : Nat) : C.Gives s (g.bindCatch host param next) (Turn.Fits F) := by
  refine .calm hs (newScope_calm _) fun scope t ht => ?_
  have hg := hg.later ht
  cases param with
  | none => exact .pure (C.good ht) hg
  | some p =>
    exact after_pure_gives hh (C.good ht) (by exact hg) (p.bind_allowed hh _ _ _)
      fun _ _ hg => hg

theorem dispatch_gives (hs : C.Good s) (hg : g.Runnable F s) (i : Instr) :
    C.Gives s (g.dispatch host i) (Turn.Fits F) := by
  cases i with
  | evaluate body => exact after_pure_gives hh hs hg (body.exec_allowed hh _) fun _ _ hg => hg
  | yield operand =>
    exact after_pure_gives hh hs hg (evalOption_allowed hh _ operand) fun _ _ hg => hg
  | await operand =>
    exact after_pure_gives hh hs hg (operand.eval_allowed hh _ none) fun _ _ hg => hg.1
  | branch operand =>
    exact after_pure_gives hh hs hg (operand.eval_allowed hh _ none) fun _ _ hg => hg
  | yieldStar operand =>
    exact after_gives hh hs hg (operand.eval_allowed hh _ none) fun _ _ ht =>
      startDelegation_gives hh (C.good ht) (hg.later ht) _
  | store => exact storeResume_gives hh hs hg _
  | jump | enterTry | popScope | enterLoop | exitLoop => exact .pure hs hg
  | exitTry next close => exact exitTry_gives hh hs hg next close
  | bindCatch param next => exact bindCatch_gives hh hs hg param next
  | endFinally next => exact endFinally_gives hh hs hg next
  | pushScope functions =>
    exact .calm hs (newScope_calm _) fun scope t ht =>
      after_pure_gives (g := g.pushScope scope) hh (C.good ht) (hg.later ht)
        (instantiate_allowed scope functions) fun _ _ hg => hg
  | copyScope =>
    refine .calm hs (copyScope_calm _) fun scope t ht => .pure (C.good ht) ?_
    have hg := hg.later ht
    simp only [Turn.Fits, Instance.Runnable, Instance.Fit, Instance.goto, Instance.replaceScope]
    split <;> exact hg
  | brk | cont => exact jump_gives hh hs hg _ _
  | openIterator iterable =>
    exact after_pure_gives hh hs hg (.bind (iterable.eval_allowed hh _ none) fun v =>
      openIterator_allowed hh v _ _) fun _ _ hg => hg
  | moveNext _ _ _ _ isAsync => exact moveNext_gives hh hs hg isAsync
  | ret operand =>
    exact after_gives hh hs hg (evalOption_allowed hh _ operand) fun _ _ ht =>
      unwind_gives hh (C.good ht) (hg.later ht) _
  | throw operand =>
    exact after_gives hh hs hg (operand.eval_allowed hh _ none) fun _ _ ht =>
      unwind_gives hh (C.good ht) (hg.later ht) _

theorem settled_gives (hs : C.Good s) (hg : g.Runnable F s) (awaiting : Option AwaitKind)
    (r : Settlement) : C.Gives s (g.settled host awaiting r) (Turn.Fits F) := by
  cases r with
  | fulfilled v =>
    match awaiting with
    | some .delegate => exact delegateResult_gives hh hs hg v
    | some .result => exact iteratorResult_gives hh hs hg v
    | some .element => exact bindElement_gives hh hs hg v
    | some .value | none => exact storeResume_gives hh hs hg v
  | rejected v =>
    match awaiting with
    | some .delegate => exact passOn_gives hh hs hg _ v
    | some .result => exact unwind_gives (g := g.popFrame) hh hs hg _
    | some .element | some .value | none => exact unwind_gives hh hs hg _

theorem resumed_gives (hs : C.Good s) (hg : g.Fit F s) (a : Action) :
    C.Gives s (g.resumed host a) (Turn.Fits F) := by
  have hg' : ({ g with awaiting := none } : Instance).Runnable F s := ⟨hg, fun _ => rfl⟩
  cases a with
  | settled r => exact settled_gives hh hs hg' _ r
  | delegateDone v => exact delegateDone_gives hh hs hg' v
  | delegateThrew v => exact unwind_gives hh hs hg'.endDelegation _
  | next v => exact passOn_gives hh hs hg' _ v
  | throw v | ret v =>
    unfold Instance.resumed
    dsimp only
    split
    · exact passOn_gives hh hs hg' _ v
    · exact unwind_gives hh hs hg' _

theorem execute_gives (n : Nat) (hs : C.Good s) (hg : g.Runnable F s) :
    C.Gives s (g.execute host n) fun r => Turn.Fits F (.pause r.1 r.2) := by
  induction n generalizing g s with
  | zero => exact .exhausted
  | succ n ih =>
    unfold Instance.execute
    cases g.instr? with
    | none => exact .exhausted
    | some i =>
      refine .bind (dispatch_gives hh hs hg i) fun r t ht hr => ?_
      cases r with
      | goOn g => exact ih (C.good ht) hr
      | pause g p => exact .pure (C.good ht) hr

theorem runOn_gives (n : Nat) (hs : C.Good s) {r : Turn} (hr : r.Fits F s) :
    C.Gives s (Instance.runOn host n r) fun r => Turn.Fits F (.pause r.1 r.2) := by
  cases r with
  | goOn g => exact execute_gives hh n hs hr
  | pause g p => exact .pure hs hr

/-- A slice of an instance: one that has not started yet awaits nothing. -/
theorem slice_gives (n : Nat) (hs : C.Good s) (hg : g.Fit F s)
    (hstart : F.rests → g.status = .suspendedStart → g.awaiting = none) (a : Action) :
    C.Gives s (g.slice host n a) fun r => Turn.Fits F (.pause r.1 r.2) := by
  have hg' : ({ g with status := .executing } : Instance).Fit F s := hg
  unfold Instance.slice
  cases hstatus : g.status with
  | suspendedStart =>
    have hready : ({ g with status := .executing } : Instance).Runnable F s :=
      ⟨hg, fun h => hstart h hstatus⟩
    refine runOn_gives hh n hs ?_
    cases a <;> exact hready
  | suspendedYield | executing | completed =>
    exact .bind (resumed_gives hh hs hg' a) fun _ _ ht hr => runOn_gives hh n (C.good ht) hr

end Machine

end Resumable
