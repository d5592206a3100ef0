import Resumable.Proofs.Eval.Relation

/-!
Expressions respect every relation between runs that the primitive steps of evaluation respect. Main
statement: `Expr.eval_related`.
-/

set_option autoImplicit false

namespace Resumable

section Iteration

variable {σ τ : Type} [HasWorld σ] [HasWorld τ] {R : EvalRelation σ τ} {host : HostOn σ}
  {host' : HostOn τ}

theorem method_related (R : EvalRelation σ τ) (v : Value) (key : String) :
    R.rel (method? v key : RunOn σ (Option Value)) (method? v key) := by
  refine R.bind R.heap fun h => ?_
  dsimp only
  split
  · exact R.pure _
  · split
    · exact R.bind (throwType_related R _) fun _ => R.pure _
    · exact R.pure _

theorem opened_related (hh : HostRelated R host host') (v method : Value) (isAsync : Bool) :
    R.rel (IteratorRecord.opened host v method isAsync)
      (IteratorRecord.opened host' v method isAsync) := by
  refine R.bind (hh.call _ _ _) fun iterator => ?_
  have hrest := R.bind R.heap fun h =>
    R.pure (IteratorRecord.mk iterator (h.property iterator "next") isAsync false)
  dsimp only
  split
  · exact R.bind (throwType_related R _) fun _ => hrest
  · exact hrest

theorem ofValue_related (hh : HostRelated R host host') (v : Value) :
    R.rel (IteratorRecord.ofValue host v) (IteratorRecord.ofValue host' v) := by
  refine R.bind (method_related R v _) fun m => ?_
  cases m with
  | some m => exact opened_related hh v m false
  | none => exact R.bind R.heap fun h => throwType_related R _

theorem ofAsync_related (hh : HostRelated R host host') (v : Value) :
    R.rel (IteratorRecord.ofAsync host v) (IteratorRecord.ofAsync host' v) := by
  refine R.bind (method_related R v _) fun m => ?_
  cases m with
  | some m => exact opened_related hh v m true
  | none => exact R.bind (ofValue_related hh v) fun _ => R.pure _

theorem overKeys_related (R : EvalRelation σ τ) (v : Value) :
    R.rel (IteratorRecord.overKeys v : RunOn σ IteratorRecord) (IteratorRecord.overKeys v) :=
  R.bind R.heap fun _ => R.bind (R.edit _ (newArray_local _) (newArray_calm _)) fun _ =>
    R.bind (R.edit _ (newArrayIterator_local _ _) (newArrayIterator_calm _ _)) fun _ =>
      R.bind R.heap fun _ => R.pure _

theorem callNext_related (hh : HostRelated R host host') (r : IteratorRecord) (args : List Value) :
    R.rel (r.callNext host args) (r.callNext host' args) := by
  refine R.bind R.heap fun h => ?_
  dsimp only
  split
  · exact R.bind (throwType_related R _) fun _ => hh.call _ _ _
  · exact hh.call _ _ _

theorem step_related (hh : HostRelated R host host') (r : IteratorRecord) :
    R.rel (r.step host) (r.step host') := by
  refine R.bind (callNext_related hh r []) fun result => R.bind R.heap fun h => ?_
  cases malformed? h result with
  | some e => exact fatal_related R e
  | none =>
    dsimp only
    split
    · exact R.pure _
    · exact R.pure _

theorem drain_related (hh : HostRelated R host host') (r : IteratorRecord) {n m : Nat}
    (hn : R.Fuels n m) (items : Array Value) :
    R.rel (r.drain host n items) (r.drain host' m items) := by
  induction n generalizing m items with
  | zero => exact hn.exhausted (y := (r.drain host' · items)) rfl
  | succ n ih =>
    obtain ⟨m, rfl, hm⟩ := hn.pred
    refine R.bind (step_related hh r) fun v => ?_
    cases v with
    | some v => exact ih hm _
    | none => exact R.pure _

theorem callReturn_related (hh : HostRelated R host host') (iterator : Value) :
    R.rel (callReturn host iterator) (callReturn host' iterator) := by
  refine R.bind (method_related R iterator _) fun m => ?_
  cases m with
  | none => exact R.pure ()
  | some m =>
    refine R.bind (hh.call _ _ _) fun v => ?_
    split
    · exact throwType_related R _
    · exact R.pure ()

theorem closeIterator_related (hh : HostRelated R host host') (iterator : Value)
    (throwing : Bool) :
    R.rel (closeIterator host iterator throwing) (closeIterator host' iterator throwing) := by
  refine R.attempt (callReturn_related hh iterator) (fun _ => R.pure ()) fun c hc => ?_
  cases c with
  | fatal e => exact fatal_related R e
  | _ =>
    dsimp only
    split
    · exact R.pure ()
    · exact R.abrupt _ hc

theorem iterate_related (hh : HostRelated R host host') (v : Value) :
    R.rel (iterate host v) (iterate host' v) :=
  R.bind (ofValue_related hh v) fun r => drain_related hh r hh.fuel _

end Iteration

section Closures

variable {σ τ : Type} [HasWorld σ] [HasWorld τ] (R : EvalRelation σ τ)

theorem routineFor_related {site : Option Nat} {kind : FunctionKind} {body : List Stmt} (name : String)
    (params : List Pattern) (hsite : HasSite site kind body) :
    R.rel (routineFor site name kind params body : RunOn σ Routine)
      (routineFor site name kind params body) := by
  have hplan (hkind : kind ≠ .plain) :
      R.rel (routineFor.plan site name kind params body : RunOn σ Plan)
        (routineFor.plan site name kind params body) := by
    refine R.bind (R.edit _ (planFor_local name params hsite hkind)
      (planFor_calm _ _ _ _ _)) fun r => ?_
    cases r with
    | ok plan => exact R.pure plan
    | error r => exact throwNew_related R _ _
  cases kind with
  | plain => exact R.pure _
  | generator | async | asyncGenerator => exact R.bind (hplan (by simp)) fun _ => R.pure _

theorem makeClosure_related {site : Option Nat} {kind : FunctionKind} {body : List Stmt}
    (hsite : HasSite site kind body) (name : Option String) (params : List Pattern) (scope : ScopeId)
    (isArrow : Bool) :
    R.rel (makeClosure site name kind params body scope isArrow : RunOn σ Value)
      (makeClosure site name kind params body scope isArrow) :=
  R.bind (routineFor_related R _ params hsite) fun _ =>
    R.bind (R.edit _ (newFunction_local _ _ _) (newFunction_calm _ _ _))
      fun _ => R.pure _

theorem instantiate_related (scope : ScopeId) (ds : List FunctionDecl)
    (hn : ∀ d ∈ ds, R.names d.name) :
    R.rel (instantiate scope ds : RunOn σ Unit) (instantiate scope ds) := by
  induction ds with
  | nil => exact R.pure ()
  | cons d ds ih =>
    exact R.bind (makeClosure_related R hasSite_some ..) fun v =>
      R.bind (R.define _ _ _ _ (hn d (by simp))) fun _ => ih fun d hd => hn d (by simp [hd])

theorem makeFunction_related (name hint : Option String) (f : Func) (scope : ScopeId)
    (hn : ∀ own, name = some own → R.names own) :
    R.rel (makeFunction name hint f scope : RunOn σ Value) (makeFunction name hint f scope) := by
  cases name with
  | none => exact makeClosure_related R hasSite_some ..
  | some own =>
    exact R.bind (R.newScope scope) fun _ => R.bind (makeClosure_related R hasSite_some ..) fun _ =>
      R.bind (R.define _ _ _ _ (hn own rfl)) fun _ => R.pure _

end Closures

mutual

/-- The names that evaluation of an expression reads or writes itself; those in the bodies of
functions are not among them. -/
def Expr.uses : Expr → List String
  | .null | .bool _ | .num _ | .str _ | .this | .arrow _ | .lambda _ _ _ => []
  | .ident name => [name]
  | .function name _ => name.toList
  | .array items => itemsUses items
  | .object properties => propertiesUses properties
  | .unary _ e | .update _ _ e | .spread e | .typeof e | .void e | .dot e _ | .await e => e.uses
  | .binary _ l r | .logical _ l r | .assign _ l r | .index l r => l.uses ++ r.uses
  | .cond t y n => t.uses ++ y.uses ++ n.uses
  | .call f args | .new f args => f.uses ++ listUses args
  | .seq items => listUses items
  | .yield none | .yieldStar none => []
  | .yield (some e) | .yieldStar (some e) => e.uses

def listUses : List Expr → List String
  | [] => []
  | e :: es => e.uses ++ listUses es

def itemsUses : List (Option Expr) → List String
  | [] => []
  | none :: es => itemsUses es
  | some e :: es => e.uses ++ itemsUses es

def propertiesUses : List Property → List String
  | [] => []
  | .mk (.computed k) v :: ps => k.uses ++ v.uses ++ propertiesUses ps
  | .mk (.ident _) v :: ps | .mk (.str _) v :: ps | .mk (.num _) v :: ps =>
    v.uses ++ propertiesUses ps

end

section Expressions

variable {σ τ : Type} [HasWorld σ] [HasWorld τ] {R : EvalRelation σ τ} {host : HostOn σ}
  {host' : HostOn τ}

/-- Whether code with these suspend points and these names may run on both sides. -/
def Permits (R : EvalRelation σ τ) (host : HostOn σ) (host' : HostOn τ) (suspends : List Expr)
    (uses : List String) : Prop :=
  (suspends ≠ [] → SuspendsRelated R host host') ∧ ∀ name ∈ uses, R.names name

theorem permits_append (es ds : List Expr) (ms ns : List String) :
    Permits R host host' (es ++ ds) (ms ++ ns) ↔
      Permits R host host' es ms ∧ Permits R host host' ds ns := by
  simp only [Permits, List.mem_append, or_imp, forall_and, ne_eq, List.append_eq_nil_iff,
    Classical.not_and_iff_not_or_not]
  grind

theorem callChecked_related (hh : HostRelated R host host') (callee : Expr) (f receiver : Value)
    (args : List Value) :
    R.rel (callChecked host callee f receiver args) (callChecked host' callee f receiver args) := by
  refine R.bind R.heap fun h => ?_
  split
  · exact hh.call _ _ _
  · exact throwType_related R _

theorem construct_related (hh : HostRelated R host host') (callee : Expr) (f : Value)
    (args : List Value) :
    R.rel (construct host callee f args) (construct host' callee f args) := by
  refine R.bind R.heap fun h => ?_
  dsimp only
  split
  · exact hh.call _ _ _
  · have hrest (proto : ObjectId) :=
      R.bind (R.edit _ (newObject_local (some proto)) (newObject_calm _))
      fun id => R.bind (hh.call f (.obj id) args) fun result =>
        R.pure (if result.isObject then result else .obj id)
    cases h.property f "prototype" with
    | obj id => exact hrest id
    | _ => exact R.bind (R.edit _ realm_local realm_calm) fun realm => hrest realm.object
  · exact throwType_related R _

mutual

theorem Expr.eval_related (hh : HostRelated R host host') (scope : ScopeId) :
    (e : Expr) → (hint : Option String) → Permits R host host' (e.suspends false) e.uses →
    R.rel (e.eval host scope hint) (e.eval host' scope hint)
  | .null, _, _ | .bool _, _, _ | .num _, _, _ | .str _, _, _ => R.pure _
  | .ident name, _, h => readName_related R scope name (h.2 name (by simp [Expr.uses]))
  | .this, _, _ => R.bind (R.this scope) fun _ => R.pure _
  | .array items, _, h => R.bind (evalItems_related hh scope items h) fun _ =>
      R.bind (R.edit _ (newArray_local _) (newArray_calm _)) fun _ => R.pure _
  | .object properties, _, h => R.bind (evalProperties_related hh scope .empty properties h)
      fun _ => R.bind (R.edit _ realm_local realm_calm) fun _ =>
        R.bind (R.edit _ (alloc_local _) (alloc_calm rfl)) fun _ => R.pure _
  | .function name f, hint, h => makeFunction_related R name hint f scope fun own ho =>
      h.2 own (by simp [Expr.uses, ho])
  | .arrow f, _, _ => makeClosure_related R hasSite_some ..
  | .lambda .., _, _ => makeClosure_related R hasSite_lambda ..
  | .unary _ e, _, h => R.bind (e.eval_related hh scope none h) fun _ => R.pure _
  | .binary op l r, _, h => by
    simp only [Expr.suspends, Expr.uses, permits_append] at h
    exact R.bind (l.eval_related hh scope none h.1) fun x =>
      R.bind (r.eval_related hh scope none h.2) fun y => apply_related R op x y
  | .logical op l r, _, h => by
    simp only [Expr.suspends, Expr.uses, permits_append] at h
    refine R.bind (l.eval_related hh scope none h.1) fun x => ?_
    split
    · exact R.pure x
    · exact r.eval_related hh scope none h.2
  | .update op opFirst target, _, h => by
    cases target with
    | ident name => exact countName_related R op opFirst scope name (h.2 name (by simp [Expr.uses]))
    | dot e name => exact R.bind (e.eval_related hh scope none h) fun v =>
        countMember_related R op opFirst v name
    | index e k =>
      simp only [Expr.suspends, Expr.uses, permits_append] at h
      exact R.bind (e.eval_related hh scope none h.1) fun v =>
        R.bind (k.eval_related hh scope none h.2) fun key => countMember_related R op opFirst v _
    | _ => exact throwNew_related R _ _
  | .assign op target e, _, h => by
    simp only [Expr.suspends, Expr.uses, permits_append] at h
    cases target with
    | ident name =>
      have hn := h.1.2 name (by simp [Expr.uses])
      cases op with
      | set => exact assignName_related R _ scope name hn (e.eval_related hh scope _ h.2)
      | _ => exact assignName_related R _ scope name hn (e.eval_related hh scope none h.2)
    | dot t name =>
      have he := e.eval_related hh scope none h.2
      have h := R.bind (t.eval_related hh scope none h.1) fun v =>
        assignMember_related R op v name he
      cases op <;> exact h
    | index t k =>
      have he := e.eval_related hh scope none h.2
      simp only [Expr.suspends, Expr.uses, permits_append] at h
      have h := R.bind (t.eval_related hh scope none h.1.1) fun v =>
        R.bind (k.eval_related hh scope none h.1.2) fun key =>
          assignMember_related R op v key.toKey he
      cases op <;> exact h
    | _ => cases op <;> exact throwNew_related R _ _
  | .cond t y n, _, h => by
    simp only [Expr.suspends, Expr.uses, permits_append] at h
    refine R.bind (t.eval_related hh scope none h.1.1) fun v => ?_
    split
    · exact y.eval_related hh scope none h.1.2
    · exact n.eval_related hh scope none h.2
  | .call callee args, _, h => by
    simp only [Expr.suspends, Expr.uses, permits_append] at h
    have hargs := evalArgs_related hh scope args h.2
    have hcallee := callee.eval_related hh scope none h.1
    cases callee with
    | dot e name =>
      exact R.bind (e.eval_related hh scope none h.1) fun v =>
        R.bind (readMember_related R v name) fun f => R.bind hargs fun args =>
          callChecked_related hh _ f v args
    | index e k =>
      simp only [Expr.suspends, Expr.uses, permits_append] at h
      exact R.bind (e.eval_related hh scope none h.1.1) fun v =>
        R.bind (k.eval_related hh scope none h.1.2) fun key =>
          R.bind (readMember_related R v _) fun f => R.bind hargs fun args =>
            callChecked_related hh _ f v args
    | _ => exact R.bind hcallee fun f => R.bind hargs fun args =>
        callChecked_related hh _ f .undefined args
  | .new callee args, _, h => by
    simp only [Expr.suspends, Expr.uses, permits_append] at h
    exact R.bind (callee.eval_related hh scope none h.1) fun f =>
      R.bind (evalArgs_related hh scope args h.2) fun args => construct_related hh callee f args
  | .dot e name, _, h => R.bind (e.eval_related hh scope none h) fun v =>
      readMember_related R v name
  | .index e k, _, h => by
    simp only [Expr.suspends, Expr.uses, permits_append] at h
    exact R.bind (e.eval_related hh scope none h.1) fun v =>
      R.bind (k.eval_related hh scope none h.2) fun key => readMember_related R v _
  | .seq items, _, h => evalSeq_related hh scope .undefined items h
  | .spread _, _, _ => throwNew_related R _ _
  | .yield none, _, h => h.1 (by simp [Expr.suspends]) _ _ _ (R.pure _)
  | .yieldStar none, _, h => h.1 (by simp [Expr.suspends]) _ _ _ (R.pure _)
  | .yield (some e), _, h => by
    have hs := h.1 (by simp [Expr.suspends])
    exact hs _ _ _ (e.eval_related hh scope none ⟨fun _ => hs, h.2⟩)
  | .yieldStar (some e), _, h => by
    have hs := h.1 (by simp [Expr.suspends])
    exact hs _ _ _ (e.eval_related hh scope none ⟨fun _ => hs, h.2⟩)
  | .await e, _, h => by
    refine hh.await _ _ (e.eval_related hh scope none ?_)
    simpa [Expr.suspends, Expr.uses] using h
  | .typeof e, _, h => by
    have he := e.eval_related hh scope none h
    have hrest (v : Value) := R.bind R.heap fun heap => R.pure (Value.ofString (heap.typeof v))
    cases e with
    | ident name =>
      refine R.bind (R.has scope name (h.2 name (by simp [Expr.uses]))) fun has => ?_
      cases has with
      | true => exact R.bind he hrest
      | false => exact R.pure _
    | _ => exact R.bind he hrest
  | .void e, _, h => R.bind (e.eval_related hh scope none h) fun _ => R.pure _
termination_by e => sizeOf e
decreasing_by all_goals (subst_vars; simp +arith)

theorem evalSeq_related (hh : HostRelated R host host') (scope : ScopeId) (last : Value) :
    (es : List Expr) → Permits R host host' (listSuspends false es) (listUses es) →
    R.rel (evalSeq host scope last es) (evalSeq host' scope last es)
  | [], _ => R.pure _
  | e :: es, h => by
    simp only [listSuspends, listUses, permits_append] at h
    exact R.bind (e.eval_related hh scope none h.1) fun v => evalSeq_related hh scope v es h.2
termination_by es => sizeOf es
decreasing_by all_goals simp +arith

theorem evalArgs_related (hh : HostRelated R host host') (scope : ScopeId) :
    (es : List Expr) → Permits R host host' (listSuspends false es) (listUses es) →
    R.rel (evalArgs host scope es) (evalArgs host' scope es)
  | [], _ => R.pure _
  | e :: es, h => by
    simp only [listSuspends, listUses, permits_append] at h
    have he := e.eval_related hh scope none h.1
    have hes := evalArgs_related hh scope es h.2
    cases e with
    | spread e =>
      exact R.bind (e.eval_related hh scope none h.1) fun v =>
        R.bind (iterate_related hh v) fun items => R.bind hes fun _ => R.pure _
    | _ => exact R.bind he fun v => R.bind hes fun _ => R.pure _
termination_by es => sizeOf es
decreasing_by all_goals (subst_vars; simp +arith)

theorem evalItems_related (hh : HostRelated R host host') (scope : ScopeId) :
    (es : List (Option Expr)) → Permits R host host' (itemsSuspends false es) (itemsUses es) →
    R.rel (evalItems host scope es) (evalItems host' scope es)
  | [], _ => R.pure _
  | none :: es, h => R.bind (evalItems_related hh scope es h) fun _ => R.pure _
  | some e :: es, h => by
    simp only [itemsSuspends, itemsUses, permits_append] at h
    have he := e.eval_related hh scope none h.1
    have hes := evalItems_related hh scope es h.2
    cases e with
    | spread e =>
      exact R.bind (e.eval_related hh scope none h.1) fun v =>
        R.bind (iterate_related hh v) fun items => R.bind hes fun _ => R.pure _
    | _ => exact R.bind he fun v => R.bind hes fun _ => R.pure _
termination_by es => sizeOf es
decreasing_by all_goals (subst_vars; simp +arith)

theorem evalProperties_related (hh : HostRelated R host host') (scope : ScopeId)
    (fields : Dict Field) : (ps : List Property) →
    Permits R host host' (propertiesSuspends false ps) (propertiesUses ps) →
    R.rel (evalProperties host scope fields ps) (evalProperties host' scope fields ps)
  | [], _ => R.pure _
  | .mk (.computed k) v :: ps, h => by
    simp only [propertiesSuspends, propertiesUses, permits_append] at h
    exact R.bind (R.bind (k.eval_related hh scope none h.1.1) fun _ => R.pure _) fun key =>
      R.bind (v.eval_related hh scope _ h.1.2) fun v =>
        evalProperties_related hh scope _ ps h.2
  | .mk (.ident _) v :: ps, h | .mk (.str _) v :: ps, h | .mk (.num _) v :: ps, h => by
    simp only [propertiesSuspends, propertiesUses, permits_append] at h
    exact R.bind (R.pure _) fun key => R.bind (v.eval_related hh scope _ h.1) fun v =>
      evalProperties_related hh scope _ ps h.2
termination_by ps => sizeOf ps
decreasing_by all_goals simp +arith

end

end Expressions

end Resumable
