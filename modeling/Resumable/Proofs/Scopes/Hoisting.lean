import Mathlib
import Resumable.Proofs.Eval.VarBindings
import Resumable.Proofs.Plan.Binders
import Resumable.Proofs.Scopes.Isolation

/-!
Names that are hoisted from a written body, and what runs in its place. A call declares them in its own
scope, and from there on they are bound wherever code of the body runs: what is bound to one of them goes
to the scope of the call or to a newer one, and makes no variable of the outermost scope. Main statement:
`hoisting_survives`.
-/

set_option autoImplicit false

namespace Resumable

/-- Binds a name if it stands for a binding in a scope that is no older than `base`, and does something
else if it does not. -/
def VarBinder.within (base : ScopeId) (other : VarBinder) : VarBinder := fun scope name v w =>
  match w.scopes.binder? scope name with
  | some owner => if base ≤ owner then bindName scope (some .var) name v w else other scope name v w
  | none => other scope name v w

/-- Whether names are all bound by one scope that is visible and no older than `base`. -/
structure BoundFrom (base : ScopeId) (names : List String) (scope : ScopeId) (w : World) : Prop where
  exists_lt : scope < w.scopes.all.size
  bound : ∃ b ∈ w.scopes.chain scope, base ≤ b ∧
    ∀ name ∈ names, (w.scopes.binding? b name).isSome = true

namespace BoundFrom

variable {base : ScopeId} {names : List String} {scope : ScopeId} {w w' : World}

theorem later (h : BoundFrom base names scope w) (hw : w.Keeps w') : BoundFrom base names scope w' := by
  obtain ⟨b, hb, hbase, hbound⟩ := h.bound
  refine ⟨Nat.lt_of_lt_of_le h.exists_lt hw.scopes.size_le, b, ?_, hbase, fun name hn => ?_⟩
  · rwa [hw.scopes.chain h.exists_lt]
  · exact hw.scopes.bound b name (hbound name hn)

theorem opens (h : BoundFrom base names scope w) :
    BoundFrom base names (Edit.newScope scope w).1 (Edit.newScope scope w).2 := by
  have hunder : (Edit.newScope scope w).2.scopes.Under (Edit.newScope scope w).1 scope :=
    .alloc h.exists_lt
  obtain ⟨-, b, hb, hbase, hbound⟩ := h.later (newScope_grows scope w).keeps
  exact ⟨hunder.exists_lt, b, hunder.mem_chain hb, hbase, hbound⟩

theorem copies (h : BoundFrom base names scope w) :
    BoundFrom base names (Edit.copyScope scope w).1 (Edit.copyScope scope w).2 := by
  obtain ⟨held, hheld⟩ : ∃ held, w.scopes.get? scope = some held :=
    ⟨_, Array.getElem?_eq_getElem h.exists_lt⟩
  have hcopy : (w.scopes.copy scope).2.get? (w.scopes.copy scope).1 = some held :=
    Scopes.get?_copy hheld
  have hnew : (w.scopes.copy scope).1 = w.scopes.all.size := rfl
  have hsize : (w.scopes.copy scope).1 < (w.scopes.copy scope).2.all.size := by
    simp [Scopes.copy, Scopes.alloc]
  obtain ⟨b, hb, hbase, hbound⟩ := h.bound
  refine ⟨hsize, ?_⟩
  change ∃ b ∈ (w.scopes.copy scope).2.chain (w.scopes.copy scope).1, _
  obtain rfl | ⟨parent, hp, hlt, hin⟩ := Scopes.mem_chain_cons hb
  · refine ⟨_, Scopes.mem_chain_self _ _, ?_, fun name hn => ?_⟩
    · exact Nat.le_trans hbase (Nat.le_of_lt h.exists_lt)
    · change ((w.scopes.copy b).2.binding? (w.scopes.copy b).1 name).isSome = true
      rw [Scopes.binding?, hcopy, ← hheld]
      exact hbound name hn
  · have hparent : parent < w.scopes.all.size := Nat.lt_trans hlt h.exists_lt
    refine ⟨b, ?_, hbase, fun name hn => ?_⟩
    · refine Scopes.mem_chain_of_parent ?_ (hnew ▸ hparent) ?_
      · rw [hcopy, ← hheld]
        exact hp
      · rwa [(Scopes.Extends.copy scope).chain hparent]
    · exact (Scopes.Retains.copy scope).bound b name (hbound name hn)

/-- There every name is bound where it should be. -/
theorem within_eq (h : BoundFrom base names scope w) {name : String} (hn : name ∈ names)
    (other : VarBinder) (v : Value) :
    VarBinder.within base other scope name v w = bindName scope none name v w := by
  obtain ⟨b, hb, hbase, hbound⟩ := h.bound
  obtain ⟨owner, howner, hsees⟩ := binder?_inside hb (hbound name hn)
  rw [VarBinder.within, howner]
  exact if_pos (Nat.le_trans hbase (Scopes.le_of_mem_chain hsees))

end BoundFrom

/-- Where all names are bound in a scope that is visible and no older than `base`. -/
def Host.Grows.bounding {host : Host} (hh : host.Grows) (base : ScopeId) (names : List String) :
    Setting host where
  home := BoundFrom base names
  later := World.Keeps
  runs h w := (h hh w).mono fun _ => World.Adds.keeps
  stays hw h := h.later hw
  opens := BoundFrom.opens
  copies := BoundFrom.copies
  awaits _ _ _ := by
    rw [hh.suspend_eq]
    rfl

theorem Host.Grows.binds_within {host : Host} (hh : host.Grows) (base : ScopeId)
    (names : List String) (other : VarBinder) :
    (hh.bounding base names).Binds names (.within base other) :=
  fun _ _ hn v _ hw => hw.within_eq hn other v

section Calls

variable {host : Host} (hh : host.Grows) {c : Closure} {receiver : Value} {args : List Value}
  {base s : ScopeId} {w w' : World}

include hh

theorem prepare_declares (hbase : base < w.scopes.all.size)
    (h : c.prepare host receiver args base w = .done s w') :
    ∀ name ∈ hoistedNames c.body, (w'.scopes.binding? base name).isSome = true := by
  have hs := hh.suits
  have hparams : (bindParams host base c.params args).Grows :=
    (bindParams_related hs.calls hs.names hs.suspends base c.params args).2
  have hfunctions :
      (instantiate base (declaredFunctions c.body) >>= fun _ => pure base : Run ScopeId).Grows :=
    .bind (instantiate_related growing.toEvalRelation base (declaredFunctions c.body)
      fun _ _ => hs.names _).2 fun _ => .pure _
  have hrest {w : World} (hbase : base < w.scopes.all.size)
      (h : (do
        bindParams host base c.params args
        hoistVars base c.body
        instantiate base (declaredFunctions c.body)
        return base : Run ScopeId) w = .done s w') :
      ∀ name ∈ hoistedNames c.body, (w'.scopes.binding? base name).isSome = true := by
    obtain ⟨-, w₁, hl, h⟩ := hparams.done_bind h
    have hbound := (declareSlots_bound (hoistedNames c.body) base w₁
      (Nat.lt_of_lt_of_le hbase hl.scopes.size_le)).2.1
    exact fun name hn => (hfunctions.done_keeps h).scopes.bound base name (hbound name hn)
  unfold Closure.prepare at h
  dsimp only at h
  split at h
  · have hdefine : (Run.edit (Edit.define base "this" .var receiver) : Run Bool).Grows :=
      .edit (define_grows _ _ _ _)
    obtain ⟨-, w₁, hl, h⟩ := hdefine.done_bind h
    exact hrest (Nat.lt_of_lt_of_le hbase hl.scopes.size_le) h
  · exact hrest hbase h

theorem enter_declares (hc : c.scope < w.scopes.all.size)
    (h : c.enter host receiver args w = .done base w') :
    w'.scopes.Under base c.scope ∧
      ∀ name ∈ hoistedNames c.body, (w'.scopes.binding? base name).isSome = true := by
  refine ⟨(enter_under c receiver args hh hc h).2, ?_⟩
  obtain ⟨a, t, hnew⟩ : ∃ a t, w.scopes.alloc ⟨.empty, some c.scope⟩ = (a, t) := ⟨_, _, rfl⟩
  have hunder := Scopes.Under.alloc hc
  rw [enter_eq] at h
  simp only [bind, RunOn.bind, newScope_apply, hnew] at h
  rw [hnew] at hunder
  obtain rfl : base = a := prepare_gives c receiver args a _ _ _ h
  exact prepare_declares hh hunder.exists_lt h

end Calls

theorem Scopes.Nest.base_mem_chain {s : Scopes} {base : ScopeId} {stack : List ScopeId}
    (h : s.Nest base stack) : base ∈ s.chain (stack.headD base) := by
  induction stack with
  | nil => exact s.mem_chain_self base
  | cons a rest ih => exact h.1.mem_chain (ih h.2)

section Base

variable {plan : Plan} {M : StackMap} {C : Colours} {host : Host} {g : Instance} {t t' : Turn}
  {w w' : World}

theorem Instance.Becomes.base_eq {x : Run Turn} (hb : g.Becomes plan C w x) (h : x w = .done t w') :
    t.subject.base = g.base := by
  obtain ⟨scopes, -, -, hk⟩ := hb t w' h
  exact hk.bears.around.base_eq

theorem StepsTo.base_eq (hM : M.Maps plan) (hC : C.Paint plan) (hh : host.Grows)
    (h : StepsTo host t w t' w') (ht : t.Kept plan M C w) : t'.subject.base = t.subject.base := by
  cases h with
  | @dispatch g i _ _ _ hi hd =>
    have hat : g.At plan M (M g.ip) := ht.good
    cases i with
    | copyScope next =>
      rw [Instance.instr?, hat.plan_eq] at hi
      obtain ⟨a, rest, -, hdispatch⟩ := dispatch_copy hM hC hat hi
      rw [hdispatch] at hd
      cases hd
      rfl
    | enterLoop labels kind onContinue onBreak next =>
      rw [enterLoop_apply] at hd
      cases hd
      rfl
    | _ => exact (dispatch_becomes hC hh ht.tidy ht.nest hi (by simp) (by simp)).base_eq hd
  | @resume g g' p a _ _ w₁ _ hp hg hbase hl hr =>
    have hb := resumed_becomes (a := a) hC hh (hg.tidy ht.tidy) (hg.nest hbase hl ht.nest)
    exact (hb.base_eq hr).trans hbase

end Base

/-- The turns of an instance after a call, each step at some depth of calls, and the worlds in which
they are reached. What was bound before a step is bound after it, whatever others do meanwhile. -/
inductive Visit (first : Instance) (w₀ : World) : Turn → World → Prop where
  | start (a : Action) {w : World} : w₀.Keeps w → Visit first w₀ (first.started a) w
  | step {fuel : Nat} {t t' : Turn} {w w' : World} : Visit first w₀ t w →
    StepsTo (Host.withFuel fuel) t w t' w' → w.Keeps w' → Visit first w₀ t' w'

namespace Visit

variable {first g g' g₁ : Instance} {w₀ w w₁ w' : World} {fuel steps : Nat} {t : Turn} {i : Instr}
  {p q : Pause} {a : Action} {plan : Plan} {base : ScopeId} {isAsync : Bool}

theorem keeps (h : Visit first w₀ t w) : w₀.Keeps w := by
  induction h with
  | start _ hw => exact hw
  | step _ _ hw ih => exact ih.trans hw

theorem dispatch (h : Visit first w₀ (.goOn g) w) (hi : g.instr? = some i)
    (hd : g.dispatch (Host.withFuel fuel) i w = .done t w') : Visit first w₀ t w' :=
  h.step (.dispatch hi hd)
    (RunOn.Grows.done_keeps (dispatch_related (withFuel_grows fuel).suits g i).2 hd)

theorem resume (h : Visit first w₀ (.pause g p) w) (hp : p.isFinal = false) (hg : g.MayBecome g')
    (hbase : g'.base = g.base) (hw : w.Keeps w₁)
    (hr : g'.resumed (Host.withFuel fuel) a w₁ = .done t w') : Visit first w₀ t w' :=
  h.step (.resume hp hg hbase hw.later hr)
    (hw.trans (RunOn.Grows.done_keeps (resumed_related (withFuel_grows fuel).suits g' a).2 hr))

theorem firstSlice (hw : w₀.Keeps w) (he : (Instance.start plan base isAsync).slice
      (Host.withFuel fuel) steps a w = .done (g', p) w') :
    Visit (.running plan base isAsync) w₀ (.pause g' p) w' :=
  runOn_keeps (fun h hi hd => h.dispatch hi hd) (start a hw) he

theorem slice (h : Visit first w₀ (.pause g q) w) (hq : q.isFinal = false)
    (hg : (g.settle q).MayBecome g₁) (hbase : g₁.base = g.base) (hw : w.Keeps w₁)
    (hstatus : g₁.status ≠ .suspendedStart)
    (he : g₁.slice (Host.withFuel fuel) steps a w₁ = .done (g', p) w') :
    Visit first w₀ (.pause g' p) w' := by
  obtain ⟨t, w₂, hr, he⟩ := slice_resumes hstatus he
  exact runOn_keeps (fun h hi hd => h.dispatch hi hd)
    (h.resume hq (mayBecome_of_settle hq hg) hbase hw hr) he

/-- At every turn the scopes of the activation stand in each other, the last one in that of the call. -/
theorem kept (h : Visit (.running plan base isAsync) w₀ t w) (hbase : base < w₀.scopes.all.size)
    {M : StackMap} {C : Colours} (hM : M.Maps plan) (hC : C.Paint plan) :
    t.Kept plan M C w ∧ t.subject.base = base := by
  induction h with
  | start a hw =>
    have hwalk : Walk (Host.withFuel 0) (.running plan base isAsync) _ _ :=
      .start a (Nat.lt_of_lt_of_le hbase hw.scopes.size_le)
    exact ⟨hwalk.kept hM hC (withFuel_proper 0) (withFuel_grows 0), by cases a <;> rfl⟩
  | @step fuel _ _ _ _ _ hs _ ih =>
    have hh := withFuel_grows fuel
    exact ⟨hs.kept hM hC (withFuel_proper fuel) hh ih.1, (hs.base_eq hM hC hh ih.1).trans ih.2⟩

theorem base_visible (h : Visit (.running plan base isAsync) w₀ t w)
    (hbase : base < w₀.scopes.all.size) {M : StackMap} {C : Colours} (hM : M.Maps plan)
    (hC : C.Paint plan) :
    t.subject.scope < w.scopes.all.size ∧ base ∈ w.scopes.chain t.subject.scope := by
  obtain ⟨hkept, rfl⟩ := h.kept hbase hM hC
  exact ⟨hkept.nest.head_lt, hkept.nest.base_mem_chain⟩

end Visit

/-- Gives an element of a loop to its pattern as `Instance.bindElement` does, but for names that are
declared by `var`. -/
def Instance.bindElementBy (bind : VarBinder) (host : Host) (g : Instance) (v : Value) : Run Turn := do
  match g.instr? with
  | some (.moveNext kind pattern body _ _) =>
    let scope ← Edit.newScope g.scope
    let g := g.pushScope scope
    g.after host (pattern.bindBy bind host scope kind v) fun () => return .goOn (g.goto body)
  | _ => return .goOn g

theorem bindElement_apply {host : Host} {g : Instance} {kind : Option VarKind} {p : Pattern}
    {body exit : Nat} {isAsync : Bool} (hi : g.instr? = some (.moveNext kind p body exit isAsync))
    (v : Value) : g.bindElement host v = (do
      let scope ← Edit.newScope g.scope
      let g := g.pushScope scope
      g.after host (p.bind host scope kind v) fun () => return .goOn (g.goto body)) := by
  rw [Instance.bindElement, hi]

theorem bindElementBy_apply {bind : VarBinder} {host : Host} {g : Instance} {kind : Option VarKind}
    {p : Pattern} {body exit : Nat} {isAsync : Bool}
    (hi : g.instr? = some (.moveNext kind p body exit isAsync)) (v : Value) :
    g.bindElementBy bind host v = (do
      let scope ← Edit.newScope g.scope
      let g := g.pushScope scope
      g.after host (p.bindBy bind host scope kind v) fun () => return .goOn (g.goto body)) := by
  rw [Instance.bindElementBy, hi]

theorem after_congr {α : Type} {host : Host} {g : Instance} {x y : Run α} {next : α → Run Turn}
    {w : World} (h : y w = x w) : g.after host y next w = g.after host x next w := by
  simp only [Instance.after, Bind.bind, RunOn.bind, RunOn.attempt, h]

/-- Whether what a turn of an activation binds by `var` stands for bindings in the scope of the call or in
a newer one. -/
structure BindsInside (host : Host) (plan : Plan) (names : List String) (heads : List ForTarget)
    (base : ScopeId) (g : Instance) (w : World) : Prop where
  /-- The scope of the call is visible, and declares all names. -/
  visible : base ∈ w.scopes.chain g.scope
  declared : ∀ name ∈ names, (w.scopes.binding? base name).isSome = true
  /-- A statement runs as it would with any other way to bind names elsewhere. -/
  evaluates : ∀ s next, .evaluate s next ∈ plan.code → ∀ other,
    s.execBy (.within base other) host g.scope [] w = s.exec host g.scope [] w
  /-- So do the heads that declare the elements of a loop, for this instance and for what it may have
  become before it gets the element. -/
  elements : ∀ kind p, .declare kind p ∈ heads → ∀ g' : Instance, g'.scope = g.scope →
    ∀ body exit isAsync,
    g'.instr? = some (.moveNext (ForTarget.declare kind p).kind? p body exit isAsync) →
    ∀ other v, g'.bindElementBy (.within base other) host v w = g'.bindElement host v w

section Turns

variable {host : Host} (hh : host.Grows) {names : List String} {heads : List ForTarget} {plan : Plan}
  {base : ScopeId} {g : Instance} {w : World}

include hh

theorem elements_inside (hw : BoundFrom base names g.scope w) {kind : VarKind} {p : Pattern}
    (hn : (ForTarget.declare kind p).varNames ⊆ names) {body exit : Nat} {isAsync : Bool}
    (hi : g.instr? = some (.moveNext (ForTarget.declare kind p).kind? p body exit isAsync))
    (other : VarBinder) (v : Value) :
    g.bindElementBy (.within base other) host v w = g.bindElement host v w := by
  have hvars : isLexical (ForTarget.declare kind p).kind? = false → p.names ⊆ names := by
    cases kind with
    | var => exact fun _ => hn
    | «let» | const => exact fun h => by cases h
  have hsame :=
    p.bindBy_same (hh.binds_within base names other) (Edit.newScope g.scope w).1 _ v hvars
  rw [bindElement_apply hi, bindElementBy_apply hi]
  exact after_congr (hsame.eq (Edit.newScope g.scope w).2 hw.opens)

theorem BoundFrom.bindsInside (hplan : BindsIn names heads plan.code)
    (hheads : ∀ target ∈ heads, target.varNames ⊆ names) (hw : BoundFrom base names g.scope w)
    (hvisible : base ∈ w.scopes.chain g.scope)
    (hdeclared : ∀ name ∈ names, (w.scopes.binding? base name).isSome = true) :
    BindsInside host plan names heads base g w where
  visible := hvisible
  declared := hdeclared
  evaluates s _ hs other :=
    (s.execBy_same (hh.binds_within base names other) g.scope [] (hplan _ hs)).eq w hw
  elements _ _ hp _ hg _ _ _ hi other v :=
    elements_inside hh (hg ▸ hw) (hheads _ hp) hi other v

end Turns

/-- That what is hoisted from a body is right for what it is lowered to. -/
structure HoistsRight (inAsync : Bool) (body : List Stmt) (lowered : LoweredBody) : Prop where
  /-- The same names are hoisted from both, in the same order. -/
  names : hoistedNames lowered.body = hoistedNames body
  functions : declaredFunctions lowered.body = declaredFunctions body
  /-- To execute the lowered body binds no other name by `var`: whatever is done for those makes no
  difference, and neither does what calls and suspend points do. -/
  binds : ∀ (host : Host) (bind : VarBinder),
    (∀ scope, ∀ name ∈ hoistedNames body, bind scope name = bindName scope (some .var) name) →
    ∀ scope last,
    execStmtsBy bind host scope last lowered.body = execStmts host scope last lowered.body
  /-- The statements of a plan declare no other names, and its loops have the heads of the body. -/
  planned : ∀ params plan, buildPlan inAsync params body = .ok plan →
    BindsIn (hoistedNames body) (listTargets lowered.body) plan.code
  /-- After a call has declared the names in a scope of its own, all turns of the plan bind them there or
  further inside. -/
  turns : ∀ fuel (c : Closure) receiver args base w w₀, c.body = body → c.scope < w.scopes.all.size →
    c.enter (Host.withFuel fuel) receiver args w = .done base w₀ → c.scope < base ∧
    ∀ params plan isAsync, buildPlan inAsync params body = .ok plan →
    ∀ t w₁ w₂, Visit (.running plan base isAsync) w₀ t w₁ → w₁.Keeps w₂ → ∀ fuel,
    BindsInside (Host.withFuel fuel) plan (hoistedNames body) (listTargets lowered.body) base
      t.subject w₂

/-- Hoisting done on a body is right for the lowered one. -/
theorem hoisting_survives {inAsync : Bool} {body : List Stmt} {lowered : LoweredBody}
    (h : lowerBody inAsync body = .ok lowered) : HoistsRight inAsync body lowered := by
  have hnames : listVarNames lowered.body = listVarNames body := lowerBody_varNames h
  have hlisted : listVarNames lowered.body ⊆ hoistedNames body := fun name hn =>
    List.mem_eraseDups.2 (hnames ▸ hn)
  have hplanned (params : List Pattern) (plan : Plan) (hp : buildPlan inAsync params body = .ok plan) :
      BindsIn (hoistedNames body) (listTargets lowered.body) plan.code :=
    (buildPlan_binds h hp).mono hlisted
  refine ⟨congrArg List.eraseDups hnames, lowerBody_declaredFunctions h, ?_, hplanned, ?_⟩
  · intro host bind hbind scope last
    have hb : (Setting.anywhere host).Binds (hoistedNames body) bind := fun scope name hn v w _ => by
      rw [hbind scope name hn]
      rfl
    exact funext fun w => (execStmtsBy_same hb lowered.body scope last hlisted).eq w trivial
  · intro fuel c receiver args base w w₀ hc hscope henter
    subst hc
    obtain ⟨hunder, hbound⟩ := enter_declares (withFuel_grows fuel) hscope henter
    refine ⟨hunder.lt, ?_⟩
    intro params plan isAsync hp t w₁ w₂ hvisit hw fuel'
    obtain ⟨M, hM⟩ := buildPlan_mapped hp
    obtain ⟨C, hC⟩ := buildPlan_coloured hp
    obtain ⟨hlt, hvisible⟩ := hvisit.base_visible hunder.exists_lt hM hC
    have hdeclared : ∀ name ∈ hoistedNames c.body, (w₁.scopes.binding? base name).isSome = true :=
      fun name hn => hvisit.keeps.scopes.bound base name (hbound name hn)
    have hfrom : BoundFrom base (hoistedNames c.body) t.subject.scope w₁ :=
      ⟨hlt, base, hvisible, Nat.le_refl _, hdeclared⟩
    refine (hfrom.later hw).bindsInside (withFuel_grows fuel') (hplanned params plan hp)
      (fun target ht name hn => hlisted (list_target_varNames lowered.body ht hn)) ?_
      fun name hn => hw.scopes.bound base name (hdeclared name hn)
    rwa [hw.scopes.chain hlt]

/-- A pattern that takes the value of a `yield`, and the head of a loop that yields. The names are those
of the written body, and the generator stands at its first `yield` with all of them declared. -/
theorem hoisting_survives_split : ∃ body lowered plan c base w₀ g p w,
    lowerBody false body = .ok lowered ∧ HoistsRight false body lowered ∧
    hoistedNames lowered.body = ["a", "b", "x"] ∧ buildPlan false [] body = .ok plan ∧
    Closure.enter (Host.withFuel 8) c .undefined [] .blank = .done base w₀ ∧
    (Instance.start plan base false).slice (Host.withFuel 8) 8 (.next .undefined) w₀ =
      .done (g, p) w ∧
    BindsInside (Host.withFuel 8) plan ["a", "b", "x"] (listTargets lowered.body) base g w := by
  let pattern : Pattern := .array [some (.one (.ident "a")), some (.rest (.ident "b"))]
  let head : ForTarget := .declare .var (.ident "x")
  let body : List Stmt := [.declare .var [.mk pattern (some (.yield none))],
    .forOf head (.ident "b") (.expr (.yield (some (.ident "x")))) false]
  let split : Stmt := .declare .var [.mk pattern (some (.ident "%resume0"))]
  let plan : Plan := ⟨[.ret none, .exitTry 0 false, .exitLoop 1,
    .moveNext none (.ident "x") 6 2 false, .popScope 3, .store none 4, .yield (some (.ident "x")) 5,
    .exitTry 0 true, .enterLoop [] .loop (some 3) 7 3, .openIterator (.ident "b") false false 8,
    .evaluate split 9, .store (some "%resume0") 10, .yield none 11], 12, ["%resume0"]⟩
  let c : Closure := ⟨[], body, 0, true, .generator plan⟩
  obtain ⟨lowered, hlowered⟩ : ∃ lowered, lowerBody false body = .ok lowered := ⟨_, rfl⟩
  have hplan : buildPlan false [] body = .ok plan := by cbv
  have hright : HoistsRight false body lowered := hoisting_survives hlowered
  have hnames : hoistedNames body = ["a", "b", "x"] := by decide
  obtain ⟨w₀, henter⟩ : ∃ w₀, c.enter (Host.withFuel 8) .undefined [] .blank = .done 1 w₀ :=
    ⟨_, rfl⟩
  let g : Instance := { Instance.running plan 1 false with ip := 11 }
  have hslice : (Instance.start plan 1 false).slice (Host.withFuel 8) 8 (.next .undefined) w₀ =
      .done (g, .stop (.yielded .undefined)) w₀ := rfl
  have hturns := (hright.turns 8 c .undefined [] 1 .blank w₀ rfl (by decide) henter).2
  have hturn := hturns [] plan false hplan _ w₀ w₀ (.firstSlice (.refl w₀) hslice) (.refl w₀) 8
  rw [hnames] at hturn
  exact ⟨body, lowered, plan, c, 1, w₀, g, _, w₀, hlowered, hright, hright.names.trans hnames, hplan,
    henter, hslice, hturn⟩

end Resumable
