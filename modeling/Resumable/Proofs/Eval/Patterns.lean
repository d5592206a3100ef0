import Resumable.Proofs.Eval.Expressions

/-!
The binding of patterns respects every relation between runs that the primitive steps of evaluation
respect. Main statements: `Pattern.bind_related`, `bindParams_related`.
-/

set_option autoImplicit false

namespace Resumable

section Patterns

variable {σ τ : Type} [HasWorld σ] [HasWorld τ] {R : EvalRelation σ τ} {host : HostOn σ}
  {host' : HostOn τ}

theorem Expr.eval_related_of_names (hh : HostRelated R host host') (scope : ScopeId)
    (hint : Option String) (e : Expr) (hn : ∀ name ∈ e.uses, R.names name)
    (hs : e.hasSuspend false = true → SuspendsRelated R host host') :
    R.rel (e.eval host scope hint) (e.eval host' scope hint) :=
  e.eval_related hh scope hint ⟨fun h => hs (by simpa [Expr.hasSuspend] using h), hn⟩

theorem Expr.eval_related_of_all (hh : HostRelated R host host') (hn : ∀ name, R.names name)
    (scope : ScopeId) (hint : Option String) (e : Expr)
    (hs : e.hasSuspend false = true → SuspendsRelated R host host') :
    R.rel (e.eval host scope hint) (e.eval host' scope hint) :=
  e.eval_related_of_names hh scope hint (fun _ _ => hn _) hs

theorem stepUnless_related (hh : HostRelated R host host') (r : IteratorRecord) (ended : Bool) :
    R.rel (r.stepUnless host ended) (r.stepUnless host' ended) := by
  cases ended with
  | true => exact R.pure _
  | false =>
    refine R.bind (step_related hh r) fun v => ?_
    cases v <;> exact R.pure _

theorem restUnless_related (hh : HostRelated R host host') (r : IteratorRecord) (ended : Bool) :
    R.rel (r.restUnless host ended) (r.restUnless host' ended) := by
  cases ended with
  | true => exact R.pure _
  | false => exact drain_related hh r hh.fuel _

theorem guard_related (hh : HostRelated R host host') (r : IteratorRecord) (ended : Bool)
    {bind : RunOn σ Unit} {bind' : RunOn τ Unit} (h : R.rel bind bind') :
    R.rel (r.guard host ended bind) (r.guard host' ended bind') := by
  refine R.attempt h (fun _ => R.pure ()) fun c hc => ?_
  have habrupt := R.abrupt (α := Unit) c hc
  cases ended with
  | true => exact habrupt
  | false =>
    refine R.attempt (closeIterator_related hh _ _) (fun _ => habrupt) fun d _ => ?_
    cases d with
    | fatal e => exact R.bind (fatal_related R e) fun _ => habrupt
    | _ => exact habrupt

def Key.uses : Key → List String
  | .computed e => e.uses
  | .ident _ | .str _ | .num _ => []

mutual

/-- The names that binding a pattern reads or writes itself, those that it binds among them. -/
def Pattern.uses : Pattern → List String
  | .ident name => [name]
  | .withDefault p e => p.uses ++ e.uses
  | .array items => elementsUses items
  | .object fields => bindersUses fields
  | .rest p => p.uses

def elementsUses : List (Option Item) → List String
  | [] => []
  | none :: items => elementsUses items
  | some (.one p) :: items | some (.rest p) :: items => p.uses ++ elementsUses items

def bindersUses : List Binder → List String
  | [] => []
  | .shorthand name :: fields => name :: bindersUses fields
  | .keyed k p :: fields => k.uses ++ p.uses ++ bindersUses fields

end

theorem Key.eval_related (hh : HostRelated R host host') (scope : ScopeId) (k : Key)
    (hn : ∀ name ∈ k.uses, R.names name)
    (hs : k.hasSuspend false = true → SuspendsRelated R host host') :
    R.rel (k.eval host scope) (k.eval host' scope) := by
  cases k with
  | computed e => exact R.bind (e.eval_related_of_names hh scope none hn hs) fun _ => R.pure _
  | _ => exact R.pure _

mutual

theorem Pattern.bind_related_of_names (hh : HostRelated R host host') (scope : ScopeId)
    (kind : Option VarKind) : (p : Pattern) → (v : Value) → (∀ name ∈ p.uses, R.names name) →
    (p.hasSuspend false = true → SuspendsRelated R host host') →
    R.rel (p.bind host scope kind v) (p.bind host' scope kind v)
  | .ident name, v, hn, _ => bindName_related R scope kind name v (hn name (by simp [Pattern.uses]))
  | .withDefault p e, v, hn, hs => by
    simp only [Pattern.uses, List.mem_append, or_imp, forall_and] at hn
    have hp (v : Value) := p.bind_related_of_names hh scope kind v hn.1 fun h =>
      hs (by simp [Pattern.hasSuspend, h])
    have he := e.eval_related_of_names hh scope p.hint hn.2 fun h =>
      hs (by simp [Pattern.hasSuspend, h])
    simp only [Pattern.bind]
    split
    · exact R.bind he hp
    · exact hp v
  | .array items, v, hn, hs => R.bind (ofValue_related hh v) fun r =>
      bindItems_related hh scope kind r items false hn hs
  | .object fields, v, hn, hs => by
    have hrest := bindFields_related hh scope kind v fields hn hs
    simp only [Pattern.bind]
    split
    · exact R.bind (throwType_related R _) fun _ => hrest
    · exact hrest
  | .rest p, v, hn, hs => p.bind_related_of_names hh scope kind v hn hs
termination_by p => sizeOf p
decreasing_by all_goals simp +arith

theorem bindItems_related (hh : HostRelated R host host') (scope : ScopeId)
    (kind : Option VarKind) (r : IteratorRecord) : (items : List (Option Item)) → (ended : Bool) →
    (∀ name ∈ elementsUses items, R.names name) →
    (itemsHaveSuspend false items = true → SuspendsRelated R host host') →
    R.rel (bindItems host scope kind r items ended) (bindItems host' scope kind r items ended)
  | [], true, _, _ => R.pure ()
  | [], false, _, _ => closeIterator_related hh r.iterator false
  | none :: items, ended, hn, hs => R.bind (stepUnless_related hh r ended) fun _ =>
      bindItems_related hh scope kind r items _ hn hs
  | some (.one p) :: items, ended, hn, hs => by
    simp only [elementsUses, List.mem_append, or_imp, forall_and] at hn
    exact R.bind (stepUnless_related hh r ended) fun q =>
      R.bind (guard_related hh r _ (p.bind_related_of_names hh scope kind q.1 hn.1 fun h =>
        hs (by simp [itemsHaveSuspend, h]))) fun _ =>
        bindItems_related hh scope kind r items _ hn.2 fun h => hs (by simp [itemsHaveSuspend, h])
  | some (.rest p) :: items, ended, hn, hs => by
    simp only [elementsUses, List.mem_append, or_imp, forall_and] at hn
    exact R.bind (restUnless_related hh r ended) fun _ =>
      R.bind (R.edit _ (newArray_local _) (newArray_calm _)) fun array =>
        R.bind (guard_related hh r _ (p.bind_related_of_names hh scope kind (.obj array) hn.1
          fun h => hs (by simp [itemsHaveSuspend, h]))) fun _ =>
          bindItems_related hh scope kind r items _ hn.2 fun h =>
            hs (by simp [itemsHaveSuspend, h])
termination_by items => sizeOf items
decreasing_by all_goals simp +arith

theorem bindFields_related (hh : HostRelated R host host') (scope : ScopeId)
    (kind : Option VarKind) (v : Value) : (fields : List Binder) →
    (∀ name ∈ bindersUses fields, R.names name) →
    (bindersHaveSuspend false fields = true → SuspendsRelated R host host') →
    R.rel (bindFields host scope kind v fields) (bindFields host' scope kind v fields)
  | [], _, _ => R.pure ()
  | .shorthand name :: fields, hn, hs => R.bind R.heap fun _ =>
      R.bind (bindName_related R scope kind name _ (hn name (by simp [bindersUses]))) fun _ =>
        bindFields_related hh scope kind v fields
          (fun x hx => hn x (List.mem_cons_of_mem _ hx)) hs
  | .keyed k p :: fields, hn, hs => by
    simp only [bindersUses, List.mem_append, or_imp, forall_and] at hn
    exact R.bind (k.eval_related hh scope hn.1.1 fun h =>
      hs (by simp [bindersHaveSuspend, h])) fun key => R.bind R.heap fun heap =>
      R.bind (p.bind_related_of_names hh scope kind _ hn.1.2 fun h =>
        hs (by simp [bindersHaveSuspend, h]))
        fun _ => bindFields_related hh scope kind v fields hn.2 fun h =>
          hs (by simp [bindersHaveSuspend, h])
termination_by fields => sizeOf fields
decreasing_by all_goals simp +arith

end

/-- A pattern of a body whose names are all allowed. -/
theorem Pattern.bind_related (hh : HostRelated R host host') (hn : ∀ name, R.names name)
    (scope : ScopeId) (kind : Option VarKind) (p : Pattern) (v : Value)
    (hs : p.hasSuspend false = true → SuspendsRelated R host host') :
    R.rel (p.bind host scope kind v) (p.bind host' scope kind v) :=
  p.bind_related_of_names hh scope kind v (fun _ _ => hn _) hs

theorem bindParams_related (hh : HostRelated R host host') (hn : ∀ name, R.names name)
    (hs : SuspendsRelated R host host') (scope : ScopeId) (ps : List Pattern) (args : List Value) :
    R.rel (bindParams host scope ps args) (bindParams host' scope ps args) := by
  induction ps generalizing args with
  | nil => exact R.pure ()
  | cons p ps ih =>
    have hp (v : Value) := p.bind_related hh hn scope (some .let) v fun _ => hs
    cases p with
    | rest p =>
      exact R.bind (R.edit _ (newArray_local _) (newArray_calm _)) fun _ => hp _
    | _ => exact R.bind (hp _) fun _ => ih _

end Patterns

end Resumable
