import Resumable.Proofs.Eval.Patterns

/-!
Statements respect every relation between runs that the primitive steps of evaluation and the copy of a
scope respect. Main statement: `Stmt.exec_related`.
-/

set_option autoImplicit false

namespace Resumable

section Statements

variable {σ τ : Type} [HasWorld σ] [HasWorld τ] {R : EvalRelation σ τ} {host : HostOn σ}
  {host' : HostOn τ}

theorem loopBody_related (ho : ∀ c, R.occurs c) (labels : List String) {body : RunOn σ Value}
    {body' : RunOn τ Value} (h : R.rel body body') :
    R.rel (loopBody labels body) (loopBody labels body') := by
  refine R.attempt h (fun _ => R.pure true) fun c _ => ?_
  match c with
  | .cont none => exact R.pure true
  | .brk none => exact R.pure false
  | .cont (some l) =>
    dsimp only
    split
    · exact R.pure true
    · exact R.abrupt _ (ho _)
  | .brk (some l) =>
    dsimp only
    split
    · exact R.pure false
    · exact R.abrupt _ (ho _)
  | .ret _ | .throw _ | .fatal _ => exact R.abrupt _ (ho _)

theorem whileLoop_related (ho : ∀ c, R.occurs c) (labels : List String)
    {test body : RunOn σ Value} {test' body' : RunOn τ Value} (ht : R.rel test test')
    (hb : R.rel body body') {n m : Nat} (hn : R.Fuels n m) :
    R.rel (whileLoop labels test body n) (whileLoop labels test' body' m) := by
  induction n generalizing m with
  | zero => exact hn.exhausted (y := whileLoop labels test' body') rfl
  | succ n ih =>
    obtain ⟨m, rfl, hm⟩ := hn.pred
    refine R.bind ht fun v => ?_
    split
    · refine R.bind (loopBody_related ho labels hb) fun goOn => ?_
      cases goOn with
      | true => exact ih hm
      | false => exact R.pure ()
    · exact R.pure ()

theorem doLoop_related (ho : ∀ c, R.occurs c) (labels : List String)
    {test body : RunOn σ Value} {test' body' : RunOn τ Value} (ht : R.rel test test')
    (hb : R.rel body body') {n m : Nat} (hn : R.Fuels n m) :
    R.rel (doLoop labels test body n) (doLoop labels test' body' m) := by
  induction n generalizing m with
  | zero => exact hn.exhausted (y := doLoop labels test' body') rfl
  | succ n ih =>
    obtain ⟨m, rfl, hm⟩ := hn.pred
    refine R.bind (loopBody_related ho labels hb) fun goOn => ?_
    cases goOn with
    | true =>
      refine R.bind ht fun v => ?_
      split
      · exact ih hm
      · exact R.pure ()
    | false => exact R.pure ()

theorem headLoop_related {R : RunRelation σ τ} (ho : ∀ c, R.occurs c) (labels : List String)
    (ownScope : Bool)
    {test : ScopeId → RunOn σ Bool} {test' : ScopeId → RunOn τ Bool}
    {update body : ScopeId → RunOn σ Value} {update' body' : ScopeId → RunOn τ Value}
    (ht : ∀ s, R.rel (test s) (test' s)) (hu : ∀ s, R.rel (update s) (update' s))
    (hb : ∀ s, R.rel (body s) (body' s)) {n m : Nat} (hn : R.Fuels n m) (scope : ScopeId) :
    R.rel (headLoop labels ownScope test update body n scope)
      (headLoop labels ownScope test' update' body' m scope) := by
  induction n generalizing m scope with
  | zero => exact hn.exhausted (y := (headLoop labels ownScope test' update' body' · scope)) rfl
  | succ n ih =>
    obtain ⟨m, rfl, hm⟩ := hn.pred
    refine R.bind (ht scope) fun goOn => ?_
    cases goOn with
    | false => exact R.pure ()
    | true =>
      refine R.bind (loopBody_related ho labels (hb scope)) fun goOn => ?_
      cases goOn with
      | false => exact R.pure ()
      | true =>
        have hrest (s : ScopeId) := R.bind (hu s) fun _ => ih hm s
        cases ownScope with
        | true => exact R.bind (R.copyScope scope) hrest
        | false => exact hrest scope

theorem iterationBody_related (hh : HostRelated R host host') (ho : ∀ c, R.occurs c)
    (labels : List String) (r : IteratorRecord) {body : RunOn σ Value} {body' : RunOn τ Value}
    (h : R.rel body body') :
    R.rel (iterationBody host labels r body) (iterationBody host' labels r body') := by
  have hclose (throwing : Bool) := closeIterator_related hh r.iterator throwing
  refine R.attempt (loopBody_related ho labels h) (fun goOn => ?_) fun c _ => ?_
  · cases goOn with
    | true => exact R.pure true
    | false => exact R.bind (hclose false) fun _ => R.pure false
  · cases c with
    | fatal e => exact fatal_related R e
    | throw v => exact R.bind (hclose true) fun _ => throwValue_related R v
    | _ => exact R.bind (hclose false) fun _ => R.abrupt _ (ho _)

theorem iterationLoop_related (hh : HostRelated R host host') (ho : ∀ c, R.occurs c)
    (labels : List String) (r : IteratorRecord) {body : Value → RunOn σ Value}
    {body' : Value → RunOn τ Value} (h : ∀ v, R.rel (body v) (body' v)) {n m : Nat}
    (hn : R.Fuels n m) :
    R.rel (iterationLoop host labels r body n) (iterationLoop host' labels r body' m) := by
  induction n generalizing m with
  | zero => exact hn.exhausted (y := iterationLoop host' labels r body') rfl
  | succ n ih =>
    obtain ⟨m, rfl, hm⟩ := hn.pred
    refine R.bind (step_related hh r) fun v => ?_
    cases v with
    | none => exact R.pure ()
    | some v =>
      refine R.bind (iterationBody_related hh ho labels r (h v)) fun goOn => ?_
      cases goOn with
      | true => exact ih hm
      | false => exact R.pure ()

theorem enterBlock_related (hn : ∀ name, R.names name) (scope : ScopeId) (body : List Stmt) :
    R.rel (enterBlock scope body : RunOn σ ScopeId) (enterBlock scope body) :=
  R.bind (R.newScope scope) fun inner =>
    R.bind (instantiate_related R inner _ fun _ _ => hn _) fun _ => R.pure inner

theorem ForTarget.bind_related (hh : HostRelated R host host') (hn : ∀ name, R.names name)
    (outer inner : ScopeId) (target : ForTarget) (v : Value)
    (hs : target.pattern.hasSuspend false = true → SuspendsRelated R host host') :
    R.rel (target.bind host outer inner v) (target.bind host' outer inner v) := by
  cases target with
  | declare kind p => exact p.bind_related hh hn inner (some kind) v hs
  | assign p => exact p.bind_related hh hn outer none v hs

theorem iterationTurn_related (hh : HostRelated R host host') (hn : ∀ name, R.names name)
    (scope : ScopeId) (target : ForTarget) (bodyBinds : Bool)
    (hs : target.pattern.hasSuspend false = true → SuspendsRelated R host host')
    {body : ScopeId → RunOn σ Value} {body' : ScopeId → RunOn τ Value}
    (hb : ∀ inner, R.rel (body inner) (body' inner)) (v : Value) :
    R.rel (iterationTurn host scope target bodyBinds body v)
      (iterationTurn host' scope target bodyBinds body' v) :=
  R.bind (R.newScope scope) fun inner =>
    R.bind (target.bind_related hh hn _ inner v hs) fun _ => hb inner

def declaratorsUses : List Declarator → List String
  | [] => []
  | .mk p none :: ds => p.uses ++ declaratorsUses ds
  | .mk p (some e) :: ds => e.uses ++ p.uses ++ declaratorsUses ds

theorem declareAll_related_of_names (hh : HostRelated R host host') (scope : ScopeId)
    (kind : VarKind) (ds : List Declarator) (hn : ∀ name ∈ declaratorsUses ds, R.names name)
    (hs : ds.any (·.hasSuspend false) = true → SuspendsRelated R host host') :
    R.rel (declareAll host scope kind ds) (declareAll host' scope kind ds) := by
  induction ds with
  | nil => exact R.pure ()
  | cons d ds ih =>
    obtain ⟨p, init⟩ := d
    have hlater (h : ds.any (·.hasSuspend false) = true) : SuspendsRelated R host host' :=
      hs (by simp only [List.any_cons, h, Bool.or_true])
    have hp (hn : ∀ name ∈ p.uses, R.names name) (v : Value) :=
      p.bind_related_of_names hh scope (some kind) v hn fun h =>
        hs (by simp [Declarator.hasSuspend, h])
    cases init with
    | some e =>
      simp only [declaratorsUses, List.mem_append, or_imp, forall_and] at hn
      have he := e.eval_related_of_names hh scope p.hint hn.1.1 fun h =>
        hs (by simp [Declarator.hasSuspend, h])
      exact R.bind he fun v => R.bind (hp hn.1.2 v) fun _ => ih hn.2 hlater
    | none =>
      simp only [declaratorsUses, List.mem_append, or_imp, forall_and] at hn
      simp only [declareAll]
      split
      · exact R.bind (hp hn.1 _) fun _ => ih hn.2 hlater
      · exact ih hn.2 hlater

theorem declareAll_related (hh : HostRelated R host host') (hn : ∀ name, R.names name)
    (scope : ScopeId) (kind : VarKind) (ds : List Declarator)
    (hs : ds.any (·.hasSuspend false) = true → SuspendsRelated R host host') :
    R.rel (declareAll host scope kind ds) (declareAll host' scope kind ds) :=
  declareAll_related_of_names hh scope kind ds (fun _ _ => hn _) hs

theorem evalOption_related (hh : HostRelated R host host') (hn : ∀ name, R.names name)
    (scope : ScopeId) (e : Option Expr)
    (hs : e.any (·.hasSuspend false) = true → SuspendsRelated R host host') :
    R.rel (evalOption host scope e) (evalOption host' scope e) := by
  cases e with
  | none => exact R.pure _
  | some e => exact e.eval_related_of_all hh hn scope none hs

theorem evalTest_related (hh : HostRelated R host host') (hn : ∀ name, R.names name)
    (scope : ScopeId) (e : Option Expr)
    (hs : e.any (·.hasSuspend false) = true → SuspendsRelated R host host') :
    R.rel (evalTest host scope e) (evalTest host' scope e) := by
  cases e with
  | none => exact R.pure _
  | some e => exact R.bind (e.eval_related_of_all hh hn scope none hs) fun _ => R.pure _

theorem ForInit.exec_related (hh : HostRelated R host host') (hn : ∀ name, R.names name)
    (scope : ScopeId) (init : ForInit)
    (hs : init.hasSuspend false = true → SuspendsRelated R host host') :
    R.rel (init.exec host scope) (init.exec host' scope) := by
  cases init with
  | absent => exact R.pure ()
  | declare kind ds => exact declareAll_related hh hn scope kind ds hs
  | expr e => exact R.bind (e.eval_related_of_all hh hn scope none hs) fun _ => R.pure ()

theorem selectCase_related (hh : HostRelated R host host') (hn : ∀ name, R.names name)
    (scope : ScopeId) (subject : Value) (position : Nat) (cases : List Case)
    (hs : casesHaveSuspend false cases = true → SuspendsRelated R host host') :
    R.rel (selectCase host scope subject position cases)
      (selectCase host' scope subject position cases) := by
  induction cases generalizing position with
  | nil => exact R.pure none
  | cons c cases ih =>
    obtain ⟨test, body⟩ := c
    have ih := ih (position + 1) fun h => hs (by simp [casesHaveSuspend, h])
    cases test with
    | none => exact ih
    | some e =>
      refine R.bind (e.eval_related_of_all hh hn scope none fun h =>
        hs (by simp [casesHaveSuspend, h])) fun v => ?_
      split
      · exact R.pure _
      · exact ih

theorem breakable_related (ho : ∀ c, R.occurs c) (labels : List String) {x : RunOn σ Unit}
    {y : RunOn τ Unit} (h : R.rel x y) : R.rel (breakable labels x) (breakable labels y) := by
  refine R.attempt h (fun _ => R.pure _) fun c _ => ?_
  match c with
  | .brk none => exact R.pure _
  | .brk (some l) =>
    dsimp only
    split
    · exact R.pure _
    · exact R.abrupt _ (ho _)
  | .cont _ | .ret _ | .throw _ | .fatal _ => exact R.abrupt _ (ho _)

theorem attempt_related {α : Type} {x : RunOn σ α} {y : RunOn τ α} (h : R.rel x y) :
    R.rel x.attempt y.attempt := by
  have := R.attempt h (fun a => R.pure (Except.ok a)) fun c _ => R.pure (Except.error c)
  simpa using this

theorem handled_related {block : RunOn σ Value} {block' : RunOn τ Value}
    {handler : Value → RunOn σ Value} {handler' : Value → RunOn τ Value}
    (hb : R.rel block block') (hh : ∀ v, R.rel (handler v) (handler' v)) :
    R.rel (handled block handler) (handled block' handler') := by
  refine R.attempt hb (fun a => R.pure _) fun c _ => ?_
  cases c with
  | throw v => exact attempt_related (hh v)
  | _ => exact R.pure _

theorem finalized_related (ho : ∀ c, R.occurs c) (r : Except Abrupt Value)
    {finalizer : RunOn σ Value} {finalizer' : RunOn τ Value} (h : R.rel finalizer finalizer') :
    R.rel (finalized r finalizer) (finalized r finalizer') := by
  have hrest (r : Except Abrupt Value) := R.bind h fun _ =>
    ofCompletion_related R r fun c _ => ho c
  match r with
  | .ok v => exact hrest _
  | .error (.fatal e) => exact fatal_related R e
  | .error (.ret _) | .error (.throw _) | .error (.brk _) | .error (.cont _) => exact hrest _

theorem enterCatch_related (hh : HostRelated R host host') (hn : ∀ name, R.names name)
    (scope : ScopeId) (param : Option Pattern) (v : Value)
    (hs : param.any (·.hasSuspend false) = true → SuspendsRelated R host host') :
    R.rel (enterCatch host scope param v) (enterCatch host' scope param v) := by
  refine R.bind (R.newScope scope) fun inner => ?_
  cases param with
  | none => exact R.pure inner
  | some p => exact R.bind (p.bind_related hh hn inner (some .let) v hs) fun _ => R.pure inner

end Statements

section Execution

variable {σ τ : Type} [HasWorld σ] [HasWorld τ] {R : RunRelation σ τ} {host : HostOn σ}
  {host' : HostOn τ}

mutual

theorem Stmt.exec_related (hh : HostRelated R.toEvalRelation host host') (hn : ∀ name, R.names name)
    (ho : ∀ c, R.occurs c) : (s : Stmt) → (scope : ScopeId) → (labels : List String) →
    (s.hasSuspend false = true → SuspendsRelated R.toEvalRelation host host') →
    R.rel (s.exec host scope labels) (s.exec host' scope labels)
  | .empty, _, _, _ | .function _ _, _, _, _ => R.pure _
  | .expr e, scope, _, hs => e.eval_related_of_all hh hn scope none hs
  | .block body, scope, _, hs => R.bind (enterBlock_related hn scope body) fun inner =>
      execStmts_related hh hn ho body inner .undefined hs
  | .declare kind ds, scope, _, hs => R.bind (declareAll_related hh hn scope kind ds hs) fun _ =>
      R.pure _
  | .ifElse t y none, scope, _, hs => by
    refine R.bind (t.eval_related_of_all hh hn scope none fun h =>
      hs (by simp [Stmt.hasSuspend, h])) fun v => ?_
    split
    · exact y.exec_related hh hn ho scope [] fun h => hs (by simp [Stmt.hasSuspend, h])
    · exact R.pure _
  | .ifElse t y (some n), scope, _, hs => by
    refine R.bind (t.eval_related_of_all hh hn scope none fun h =>
      hs (by simp [Stmt.hasSuspend, h])) fun v => ?_
    split
    · exact y.exec_related hh hn ho scope [] fun h => hs (by simp [Stmt.hasSuspend, h])
    · exact n.exec_related hh hn ho scope [] fun h => hs (by simp [Stmt.hasSuspend, h])
  | .whileDo t b, scope, labels, hs => by
    have ht := t.eval_related_of_all hh hn scope none fun h => hs (by simp [Stmt.hasSuspend, h])
    have hb := b.exec_related hh hn ho scope [] fun h => hs (by simp [Stmt.hasSuspend, h])
    exact R.bind (whileLoop_related ho labels ht hb hh.fuel) fun _ => R.pure _
  | .doWhile b t, scope, labels, hs => by
    have ht := t.eval_related_of_all hh hn scope none fun h => hs (by simp [Stmt.hasSuspend, h])
    have hb := b.exec_related hh hn ho scope [] fun h => hs (by simp [Stmt.hasSuspend, h])
    exact R.bind (doLoop_related ho labels ht hb hh.fuel) fun _ => R.pure _
  | .forLoop init t u b, scope, labels, hs => by
    have hi (s : ScopeId) := init.exec_related hh hn s fun h => hs (by simp [Stmt.hasSuspend, h])
    have ht (s : ScopeId) := evalTest_related hh hn s t fun h =>
      hs (by simp only [Stmt.hasSuspend, h, Bool.or_true, Bool.true_or])
    have hu (s : ScopeId) := evalOption_related hh hn s u fun h =>
      hs (by simp only [Stmt.hasSuspend, h, Bool.or_true, Bool.true_or])
    have hb (s : ScopeId) := b.exec_related hh hn ho s [] fun h =>
      hs (by simp only [Stmt.hasSuspend, h, Bool.or_true])
    have hrest (s : ScopeId) := R.bind (hi s) fun _ =>
      R.bind (headLoop_related ho labels init.isScoped ht hu hb hh.fuel s) fun _ =>
        R.pure Value.undefined
    simp only [Stmt.exec]
    split
    · exact R.bind (R.newScope scope) hrest
    · exact hrest scope
  | .forIn target e b, scope, labels, hs => by
    have he := e.eval_related_of_all hh hn scope none fun h => hs (by simp [Stmt.hasSuspend, h])
    have hb := iterationTurn_related hh hn scope target b.bindsHere
      (fun h => hs (by simp [Stmt.hasSuspend, h]))
      fun inner => b.exec_related hh hn ho inner [] fun h => hs (by simp [Stmt.hasSuspend, h])
    exact R.bind he fun v => R.bind (overKeys_related R.toEvalRelation v) fun r =>
      R.bind (iterationLoop_related hh ho labels r hb hh.fuel) fun _ => R.pure _
  | .forOf _ _ _ true, _, _, _ => throwNew_related R.toEvalRelation _ _
  | .forOf target e b false, scope, labels, hs => by
    have he := e.eval_related_of_all hh hn scope none fun h => hs (by simp [Stmt.hasSuspend, h])
    have hb := iterationTurn_related hh hn scope target b.bindsHere
      (fun h => hs (by simp [Stmt.hasSuspend, h]))
      fun inner => b.exec_related hh hn ho inner [] fun h => hs (by simp [Stmt.hasSuspend, h])
    exact R.bind he fun v => R.bind (ofValue_related hh v) fun r =>
      R.bind (iterationLoop_related hh ho labels r hb hh.fuel) fun _ => R.pure _
  | .ret e, scope, _, hs => R.bind (evalOption_related hh hn scope e hs) fun _ => R.abrupt _ (ho _)
  | .brk _, _, _, _ | .cont _, _, _, _ => R.abrupt _ (ho _)
  | .throw e, scope, _, hs => R.bind (e.eval_related_of_all hh hn scope none hs) fun v =>
      throwValue_related R.toEvalRelation v
  | .tryCatch block none none, scope, _, hs =>
    R.bind (enterBlock_related hn scope block) fun inner =>
      execStmts_related hh hn ho block inner .undefined hs
  | .tryCatch block none (some finalizer), scope, _, hs => by
    have hb := R.bind (enterBlock_related hn scope block) fun inner =>
      execStmts_related hh hn ho block inner .undefined fun h =>
        hs (by simp [Stmt.hasSuspend, h])
    have hf := R.bind (enterBlock_related hn scope finalizer) fun inner =>
      execStmts_related hh hn ho finalizer inner .undefined fun h =>
        hs (by simp [Stmt.hasSuspend, h])
    exact R.bind (handled_related hb (throwValue_related R.toEvalRelation)) fun r =>
      finalized_related ho r hf
  | .tryCatch block (some (.mk param handler)) none, scope, _, hs => by
    have hb := R.bind (enterBlock_related hn scope block) fun inner =>
      execStmts_related hh hn ho block inner .undefined fun h =>
        hs (by simp [Stmt.hasSuspend, h])
    have hc (v : Value) := R.bind (enterCatch_related hh hn scope param v fun h =>
      hs (by simp only [Stmt.hasSuspend, h, Bool.or_true])) fun inner =>
      R.bind (enterBlock_related hn inner handler) fun inner =>
        execStmts_related hh hn ho handler inner .undefined fun h =>
          hs (by simp [Stmt.hasSuspend, h])
    exact R.bind (handled_related hb hc) fun r =>
      ofCompletion_related R.toEvalRelation r fun c _ => ho c
  | .tryCatch block (some (.mk param handler)) (some finalizer), scope, _, hs => by
    have hb := R.bind (enterBlock_related hn scope block) fun inner =>
      execStmts_related hh hn ho block inner .undefined fun h =>
        hs (by simp [Stmt.hasSuspend, h])
    have hc (v : Value) := R.bind (enterCatch_related hh hn scope param v fun h =>
      hs (by simp only [Stmt.hasSuspend, h, Bool.or_true, Bool.true_or])) fun inner =>
      R.bind (enterBlock_related hn inner handler) fun inner =>
        execStmts_related hh hn ho handler inner .undefined fun h =>
          hs (by simp [Stmt.hasSuspend, h])
    have hf := R.bind (enterBlock_related hn scope finalizer) fun inner =>
      execStmts_related hh hn ho finalizer inner .undefined fun h =>
        hs (by simp [Stmt.hasSuspend, h])
    exact R.bind (handled_related hb hc) fun r => finalized_related ho r hf
  | .switch e cases, scope, labels, hs => by
    refine R.bind (e.eval_related_of_all hh hn scope none fun h =>
      hs (by simp [Stmt.hasSuspend, h])) fun subject => R.bind (R.newScope scope) fun inner =>
      R.bind (selectCase_related hh hn inner subject 0 cases fun h =>
        hs (by simp [Stmt.hasSuspend, h])) fun selected => ?_
    cases selected <|> defaultCase cases with
    | none => exact R.pure _
    | some first => exact breakable_related ho labels (execCases_related hh hn ho cases inner first
        fun h => hs (by simp [Stmt.hasSuspend, h]))
  | .labeled label s, scope, labels, hs => by
    refine R.attempt (s.exec_related hh hn ho scope _ hs) (fun v => R.pure v) fun c _ => ?_
    match c with
    | .brk (some l) =>
      dsimp only
      split
      · exact R.pure _
      · exact R.abrupt _ (ho _)
    | .brk none | .cont _ | .ret _ | .throw _ | .fatal _ => exact R.abrupt _ (ho _)
termination_by s => sizeOf s
decreasing_by all_goals simp +arith

theorem execStmts_related (hh : HostRelated R.toEvalRelation host host') (hn : ∀ name, R.names name)
    (ho : ∀ c, R.occurs c) : (ss : List Stmt) → (scope : ScopeId) → (last : Value) →
    (anySuspend false ss = true → SuspendsRelated R.toEvalRelation host host') →
    R.rel (execStmts host scope last ss) (execStmts host' scope last ss)
  | [], _, _, _ => R.pure _
  | s :: ss, scope, _, hs => R.bind (s.exec_related hh hn ho scope [] fun h =>
      hs (by simp [anySuspend, h])) fun v =>
      execStmts_related hh hn ho ss scope v fun h => hs (by simp [anySuspend, h])
termination_by ss => sizeOf ss
decreasing_by all_goals simp +arith

theorem execCases_related (hh : HostRelated R.toEvalRelation host host') (hn : ∀ name, R.names name)
    (ho : ∀ c, R.occurs c) : (cases : List Case) → (scope : ScopeId) → (skip : Nat) →
    (casesHaveSuspend false cases = true → SuspendsRelated R.toEvalRelation host host') →
    R.rel (execCases host scope skip cases) (execCases host' scope skip cases)
  | [], _, _, _ => R.pure ()
  | .mk _ body :: cases, scope, 0, hs => R.bind (execStmts_related hh hn ho body scope .undefined
      fun h => hs (by simp [casesHaveSuspend, h])) fun _ =>
      execCases_related hh hn ho cases scope 0 fun h => hs (by simp [casesHaveSuspend, h])
  | .mk _ body :: cases, scope, n + 1, hs =>
    execCases_related hh hn ho cases scope n fun h => hs (by simp [casesHaveSuspend, h])
termination_by cases => sizeOf cases
decreasing_by all_goals simp +arith

end

end Execution

end Resumable
