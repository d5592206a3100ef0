import Resumable.Proofs.Lifecycle.Growth
import Resumable.Proofs.Lowering.VarNames

/-!
Evaluation with one step left open: what it does to bind a name that is declared by `var`. It is done for
no names but those that the code declares, and from no scopes but those that are opened inside of the one
where the code runs. Main statements: `Stmt.execBy_same`, `Pattern.bindBy_same`.
-/

set_option autoImplicit false

namespace Resumable

/-- What gives a value to a name that is declared by `var`. -/
abbrev VarBinder := ScopeId → String → Value → Run Unit

/-- Whether names are declared in the scope in which they are bound. Elements of loops get no kind in
plans when they are declared by `var`. -/
def isLexical : Option VarKind → Bool
  | some .let | some .const => true
  | some .var | none => false

section Execution

variable (bind : VarBinder) (host : Host)

/-- Binds a name as `bindName` does, unless it is declared by `var`. -/
def bindNameBy (scope : ScopeId) (kind : Option VarKind) (name : String) (v : Value) : Run Unit :=
  if isLexical kind then bindName scope kind name v else bind scope name v

mutual

def Pattern.bindBy (scope : ScopeId) (kind : Option VarKind) : Pattern → Value → Run Unit
  | .ident name, v => bindNameBy bind scope kind name v
  | .withDefault p e, v => do
    let v ← if v.isUndefined then e.eval host scope p.hint else pure v
    p.bindBy scope kind v
  | .array items, v => do
    let r ← IteratorRecord.ofValue host v
    bindItemsBy scope kind r items false
  | .object fields, v => do
    if v.isNullish then
      let shown := v.display
      Run.throwType s!"Cannot destructure '{shown}'"
    bindFieldsBy scope kind v fields
  | .rest p, v => p.bindBy scope kind v

def bindItemsBy (scope : ScopeId) (kind : Option VarKind) (r : IteratorRecord) :
    List (Option Item) → Bool → Run Unit
  | [], ended => if ended then return () else closeIterator host r.iterator false
  | none :: items, ended => do
    let (_, ended) ← r.stepUnless host ended
    bindItemsBy scope kind r items ended
  | some (.one p) :: items, ended => do
    let (v, ended) ← r.stepUnless host ended
    r.guard host ended (p.bindBy scope kind v)
    bindItemsBy scope kind r items ended
  | some (.rest p) :: items, ended => do
    let rest ← r.restUnless host ended
    let array ← Edit.newArray rest
    r.guard host true (p.bindBy scope kind (.obj array))
    bindItemsBy scope kind r items true

def bindFieldsBy (scope : ScopeId) (kind : Option VarKind) (v : Value) : List Binder → Run Unit
  | [] => return ()
  | .shorthand name :: fields => do
    bindNameBy bind scope kind name ((← Run.heap).property v name)
    bindFieldsBy scope kind v fields
  | .keyed k p :: fields => do
    let key ← k.eval host scope
    p.bindBy scope kind ((← Run.heap).property v key)
    bindFieldsBy scope kind v fields

end

def ForTarget.bindBy (outer inner : ScopeId) (target : ForTarget) (v : Value) : Run Unit :=
  match target with
  | .declare kind p => p.bindBy bind host inner (some kind) v
  | .assign p => p.bind host outer none v

def iterationTurnBy (scope : ScopeId) (target : ForTarget) (bodyBinds : Bool)
    (body : ScopeId → Run Value) (v : Value) : Run Value := do
  let inner ← Edit.newScope scope
  target.bindBy bind host (if bodyBinds then scope else inner) inner v
  body inner

def declareAllBy (scope : ScopeId) (kind : VarKind) : List Declarator → Run Unit
  | [] => return ()
  | .mk p init :: ds => do
    match init with
    | some e =>
      let v ← e.eval host scope p.hint
      p.bindBy bind host scope (some kind) v
    | none => if kind ≠ .var then p.bindBy bind host scope (some kind) .undefined
    declareAllBy scope kind ds

def ForInit.execBy (scope : ScopeId) : ForInit → Run Unit
  | .absent => return ()
  | .declare kind ds => declareAllBy bind host scope kind ds
  | .expr e => do
    let _ ← e.eval host scope none

mutual

/-- Runs a statement as `Stmt.exec` does, but for the names that it declares by `var`. -/
def Stmt.execBy (scope : ScopeId) (labels : List String) : Stmt → Run Value
  | .block body => do
    let inner ← enterBlock scope body
    execStmtsBy inner .undefined body
  | .declare kind ds => do
    declareAllBy bind host scope kind ds
    return .undefined
  | .ifElse t y none => do
    if (← t.eval host scope none).truthy then y.execBy scope [] else return .undefined
  | .ifElse t y (some n) => do
    if (← t.eval host scope none).truthy then y.execBy scope [] else n.execBy scope []
  | .whileDo t b => do
    whileLoop labels (t.eval host scope none) (b.execBy scope []) host.fuel
    return .undefined
  | .doWhile b t => do
    doLoop labels (t.eval host scope none) (b.execBy scope []) host.fuel
    return .undefined
  | .forLoop init t u b => do
    let inner ← if init.isScoped || b.bindsHere then Edit.newScope scope else pure scope
    init.execBy bind host inner
    headLoop labels init.isScoped (evalTest host · t) (evalOption host · u) (b.execBy · [])
      host.fuel inner
    return .undefined
  | .forIn target e b => do
    let r ← IteratorRecord.overKeys (← e.eval host scope none)
    iterationLoop host labels r
      (iterationTurnBy bind host scope target b.bindsHere (b.execBy · [])) host.fuel
    return .undefined
  | .forOf target e b false => do
    let r ← IteratorRecord.ofValue host (← e.eval host scope none)
    iterationLoop host labels r
      (iterationTurnBy bind host scope target b.bindsHere (b.execBy · [])) host.fuel
    return .undefined
  | .tryCatch block none none => do
    let inner ← enterBlock scope block
    execStmtsBy inner .undefined block
  | .tryCatch block none (some finalizer) => do
    let r ← handled (do execStmtsBy (← enterBlock scope block) .undefined block) Run.throwValue
    finalized r (do execStmtsBy (← enterBlock scope finalizer) .undefined finalizer)
  | .tryCatch block (some (.mk param handler)) none => do
    let r ← handled (do execStmtsBy (← enterBlock scope block) .undefined block) fun v => do
      let inner ← enterCatch host scope param v
      execStmtsBy (← enterBlock inner handler) .undefined handler
    Run.ofCompletion r
  | .tryCatch block (some (.mk param handler)) (some finalizer) => do
    let r ← handled (do execStmtsBy (← enterBlock scope block) .undefined block) fun v => do
      let inner ← enterCatch host scope param v
      execStmtsBy (← enterBlock inner handler) .undefined handler
    finalized r (do execStmtsBy (← enterBlock scope finalizer) .undefined finalizer)
  | .switch e cases => do
    let subject ← e.eval host scope none
    let inner ← Edit.newScope scope
    match (← selectCase host inner subject 0 cases) <|> defaultCase cases with
    | none => return .undefined
    | some first => breakable labels (execCasesBy inner first cases)
  | .labeled label s => do
    match ← (s.execBy scope (labels ++ [label])).attempt with
    | .error (.brk (some l)) =>
      if l == label then return .undefined else Run.abrupt (.brk (some l))
    | r => Run.ofCompletion r
  | .empty => (Stmt.empty).exec host scope labels
  | .expr e => (Stmt.expr e).exec host scope labels
  | .forOf target e b true => (Stmt.forOf target e b true).exec host scope labels
  | .ret e => (Stmt.ret e).exec host scope labels
  | .brk label => (Stmt.brk label).exec host scope labels
  | .cont label => (Stmt.cont label).exec host scope labels
  | .throw e => (Stmt.throw e).exec host scope labels
  | .function name f => (Stmt.function name f).exec host scope labels

def execStmtsBy (scope : ScopeId) (last : Value) : List Stmt → Run Value
  | [] => return last
  | s :: ss => do
    let v ← s.execBy scope []
    execStmtsBy scope v ss

def execCasesBy (scope : ScopeId) (skip : Nat) : List Case → Run Unit
  | [] => return ()
  | .mk _ body :: cases => do
    match skip with
    | 0 =>
      let _ ← execStmtsBy scope .undefined body
      execCasesBy scope 0 cases
    | n + 1 => execCasesBy scope n cases

end

end Execution

/-- What is known of the scopes in which code runs, and of how one world follows another: a scope that is
at home stays so, and so are those that are opened in it or copied from it. -/
structure Setting (host : Host) where
  home : ScopeId → World → Prop
  later : World → World → Prop
  runs : ∀ {α : Type} {x : Run α}, (host.Grows → x.Grows) → ∀ w, (x w).Leaves (later w)
  stays : ∀ {scope : ScopeId} {w w' : World}, later w w' → home scope w → home scope w'
  opens : ∀ {scope : ScopeId} {w : World}, home scope w →
    home (Edit.newScope scope w).1 (Edit.newScope scope w).2
  copies : ∀ {scope : ScopeId} {w : World}, home scope w →
    home (Edit.copyScope scope w).1 (Edit.copyScope scope w).2
  awaits : ∀ {scope : ScopeId} {x y : Run Value}, (∀ w, home scope w → y w = x w) →
    ∀ w, home scope w → host.suspend .await y w = host.suspend .await x w

namespace Setting

variable {host : Host} (S : Setting host) {scope : ScopeId} {α β : Type}

/-- Whether two runs are the same ones wherever the scope is at home. -/
structure Same (scope : ScopeId) (x y : Run α) : Prop where
  grows : host.Grows → x.Grows
  eq : ∀ w, S.home scope w → y w = x w

variable {S}

theorem Same.of_grows {x : Run α} (h : host.Grows → x.Grows) : S.Same scope x x :=
  ⟨h, fun _ _ => rfl⟩

theorem Same.bind {x y : Run α} {f g : α → Run β} (h : S.Same scope x y)
    (hf : ∀ a, S.Same scope (f a) (g a)) : S.Same scope (x >>= f) (y >>= g) := by
  refine ⟨fun hh => .bind (h.grows hh) fun a => (hf a).grows hh, fun w hw => ?_⟩
  have hleaves := S.runs h.grows w
  simp only [Bind.bind, RunOn.bind, h.eq w hw]
  cases hx : x w with
  | done a w₁ =>
    rw [hx] at hleaves
    exact (hf a).eq w₁ (S.stays hleaves hw)
  | abrupt | exhausted => rfl

theorem Same.attempt {x y : Run α} (h : S.Same scope x y) : S.Same scope x.attempt y.attempt :=
  ⟨fun hh => (h.grows hh).attempt, fun w hw => by simp only [RunOn.attempt, h.eq w hw]⟩

variable (S)

/-- Runs that are the same where the scope is at home, as evaluation respects them. -/
def same (scope : ScopeId) : RunRelation World World where
  rel := S.Same scope
  occurs _ := True
  names _ := True
  throw_occurs _ := trivial
  fatal_occurs _ := trivial
  pure a := .of_grows fun _ => .pure a
  bind := Same.bind
  attempt hx hok herror := hx.attempt.bind fun r => by
    cases r with
    | ok a => exact hok a
    | error c => exact herror c trivial
  abrupt c _ := .of_grows fun _ => .abrupt c
  exhausted := .of_grows fun _ => .exhausted
  heap := .of_grows fun _ => .read _
  lookup _ _ _ := .of_grows fun _ => .read _
  has _ _ _ := .of_grows fun _ => .read _
  this _ := .of_grows fun _ => .read _
  edit _ hl _ := .of_grows fun _ => .edit (.of_local hl)
  newScope scope := .of_grows fun _ => .edit (newScope_grows scope)
  copyScope scope := .of_grows fun _ => .edit (copyScope_grows scope)
  declare scope name kind _ := .of_grows fun _ => .edit (declare_grows scope name kind)
  assign scope name v _ := .of_grows fun _ => .edit (assign_grows scope name v)
  define scope name kind v _ := .of_grows fun _ => .edit (define_grows scope name kind v)

theorem hosted (scope : ScopeId) : HostRelated (S.same scope).toEvalRelation host host where
  call f receiver args := .of_grows fun hh => hh.calls f receiver args
  fuel := .same _
  await x y h := by
    refine ⟨fun hh => ?_, S.awaits h.eq⟩
    rw [hh.suspend_eq]
    exact (refuseSuspend_related growing.toEvalRelation .await x x).2

/-- Whether a run gives a scope that is at home where it was run from one that is. -/
def Gives (scope : ScopeId) (x : Run ScopeId) : Prop :=
  ∀ w inner w', S.home scope w → x w = .done inner w' → S.home inner w'

variable {S}

theorem Same.into {x : Run ScopeId} {f g : ScopeId → Run β} (hx : host.Grows → x.Grows)
    (hgives : S.Gives scope x) (hf : ∀ inner, S.Same inner (f inner) (g inner)) :
    S.Same scope (x >>= f) (x >>= g) := by
  refine ⟨fun hh => .bind (hx hh) fun inner => (hf inner).grows hh, fun w hw => ?_⟩
  simp only [Bind.bind, RunOn.bind]
  cases h : x w with
  | done inner w₁ => exact (hf inner).eq w₁ (hgives w inner w₁ hw h)
  | abrupt | exhausted => rfl

theorem Gives.newScope : S.Gives scope (Run.edit (Edit.newScope scope)) := by
  rintro w inner w' hw h
  cases h
  exact S.opens hw

theorem Gives.copyScope : S.Gives scope (Run.edit (Edit.copyScope scope)) := by
  rintro w inner w' hw h
  cases h
  exact S.copies hw

theorem Gives.andThen {x : Run ScopeId} (hx : S.Gives scope x) {y : ScopeId → Run Unit}
    (hy : ∀ inner, host.Grows → (y inner).Grows) :
    S.Gives scope (x >>= fun inner => y inner >>= fun _ => pure inner) := by
  intro w inner w' hw h
  simp only [Bind.bind, RunOn.bind] at h
  cases hxw : x w with
  | done a w₁ =>
    rw [hxw] at h
    dsimp only at h
    have hleaves := S.runs (hy a) w₁
    cases hyw : y a w₁ with
    | done u w₂ =>
      rw [hyw] at h hleaves
      cases h
      exact S.stays hleaves (hx w _ w₁ hw hxw)
    | abrupt | exhausted =>
      rw [hyw] at h
      cases h
  | abrupt | exhausted =>
    rw [hxw] at h
    cases h

theorem Gives.enterBlock (body : List Stmt) : S.Gives scope (enterBlock scope body) :=
  Gives.newScope.andThen fun inner _ =>
    (instantiate_related growing.toEvalRelation inner (declaredFunctions body) fun _ _ => trivial).2

theorem Gives.enterCatch (param : Option Pattern) (v : Value) :
    S.Gives scope (enterCatch host scope param v) := by
  cases param with
  | none => exact Gives.newScope.andThen fun inner _ => .pure ()
  | some p => exact Gives.newScope.andThen fun inner hh =>
      (p.bind_related hh.suits.calls hh.suits.names inner (some .let) v fun _ => hh.suits.suspends).2

/-- Whether names of a list are bound as they would be, where the scope is at home. -/
def Binds (S : Setting host) (names : List String) (bind : VarBinder) : Prop :=
  ∀ scope, ∀ name ∈ names, ∀ v w, S.home scope w →
    bind scope name v w = bindName scope none name v w

/-- Nothing is known: all scopes are alike, and any world may follow any other one. -/
def anywhere (host : Host) : Setting host where
  home _ _ := True
  later _ _ := True
  runs {_ x} _ w := by cases h : x w <;> trivial
  stays _ _ := trivial
  opens _ := trivial
  copies _ := trivial
  awaits {_ x y} h w _ := by
    have hxy : y = x := funext fun w => h w trivial
    rw [hxy]

theorem eval_same (scope : ScopeId) (hint : Option String) (e : Expr) :
    S.Same scope (e.eval host scope hint) (e.eval host scope hint) :=
  .of_grows fun hh => (eval_suited hh.suits scope hint e).2

theorem evalTest_same (scope : ScopeId) (e : Option Expr) :
    S.Same scope (evalTest host scope e) (evalTest host scope e) :=
  .of_grows fun hh => (evalTest_related hh.suits.calls hh.suits.names scope e
    fun _ => hh.suits.suspends).2

theorem evalOption_same (scope : ScopeId) (e : Option Expr) :
    S.Same scope (evalOption host scope e) (evalOption host scope e) :=
  .of_grows fun hh => (evalOption_suited hh.suits scope e).2

theorem exec_same (scope : ScopeId) (labels : List String) (s : Stmt) :
    S.Same scope (s.exec host scope labels) (s.exec host scope labels) :=
  .of_grows fun hh => (s.exec_related hh.suits.calls hh.suits.names hh.suits.occurs scope labels
    fun _ => hh.suits.suspends).2

theorem key_same (scope : ScopeId) (k : Key) :
    S.Same scope (k.eval host scope) (k.eval host scope) :=
  .of_grows fun hh => (k.eval_related hh.suits.calls scope (fun _ _ => hh.suits.names _)
    fun _ => hh.suits.suspends).2

theorem bind_same (scope inner : ScopeId) (kind : Option VarKind) (p : Pattern) (v : Value) :
    S.Same scope (p.bind host inner kind v) (p.bind host inner kind v) :=
  .of_grows fun hh => (bind_suited hh.suits inner kind p v).2

theorem selectCase_same (scope : ScopeId) (subject : Value) (position : Nat) (cases : List Case) :
    S.Same scope (selectCase host scope subject position cases)
      (selectCase host scope subject position cases) :=
  .of_grows fun hh => (selectCase_related hh.suits.calls hh.suits.names scope subject position cases
    fun _ => hh.suits.suspends).2

end Setting

section Same

open Setting

variable {host : Host} {S : Setting host} {names : List String} {bind : VarBinder}

theorem bindNameBy_same (hb : S.Binds names bind) (scope : ScopeId) {kind : Option VarKind}
    {name : String} (v : Value) (hn : isLexical kind = false → name ∈ names) :
    S.Same scope (bindName scope kind name v) (bindNameBy bind scope kind name v) := by
  refine ⟨fun _ => (bindName_related growing.toEvalRelation scope kind name v trivial).2,
    fun w hw => ?_⟩
  match kind with
  | some .var | none => exact hb scope name (hn rfl) v w hw
  | some .let | some .const => rfl

mutual

theorem Pattern.bindBy_same (hb : S.Binds names bind) (scope : ScopeId) (kind : Option VarKind) :
    (p : Pattern) → (v : Value) → (isLexical kind = false → p.names ⊆ names) →
    S.Same scope (p.bind host scope kind v) (p.bindBy bind host scope kind v)
  | .ident _, v, hn => bindNameBy_same hb scope v fun h => hn h List.mem_cons_self
  | .withDefault p e, v, hn => by
    have hp (v : Value) := p.bindBy_same hb scope kind v hn
    simp only [Pattern.bind, Pattern.bindBy]
    split
    · exact (eval_same scope p.hint e).bind hp
    · exact hp v
  | .array items, v, hn => (ofValue_related (S.hosted scope) v).bind fun r =>
      bindItemsBy_same hb scope kind r items false hn
  | .object fields, v, hn => by
    have hrest := bindFieldsBy_same hb scope kind v fields hn
    simp only [Pattern.bind, Pattern.bindBy]
    split
    · exact (throwType_related (S.same scope).toEvalRelation _).bind fun _ => hrest
    · exact hrest
  | .rest p, v, hn => p.bindBy_same hb scope kind v hn

theorem bindItemsBy_same (hb : S.Binds names bind) (scope : ScopeId) (kind : Option VarKind)
    (r : IteratorRecord) : (items : List (Option Item)) → (ended : Bool) →
    (isLexical kind = false → itemNames items ⊆ names) →
    S.Same scope (bindItems host scope kind r items ended)
      (bindItemsBy bind host scope kind r items ended)
  | [], true, _ => .of_grows fun _ => .pure ()
  | [], false, _ => closeIterator_related (S.hosted scope) r.iterator false
  | none :: items, ended, hn => (stepUnless_related (S.hosted scope) r ended).bind fun _ =>
      bindItemsBy_same hb scope kind r items _ hn
  | some (.one p) :: items, ended, hn => (stepUnless_related (S.hosted scope) r ended).bind fun q =>
      (guard_related (S.hosted scope) r _ (p.bindBy_same hb scope kind q.1 fun h =>
        (List.append_subset.1 (hn h)).1)).bind fun _ =>
          bindItemsBy_same hb scope kind r items _ fun h => (List.append_subset.1 (hn h)).2
  | some (.rest p) :: items, ended, hn => (restUnless_related (S.hosted scope) r ended).bind fun _ =>
      ((S.same scope).edit _ (newArray_local _) (newArray_calm _)).bind fun array =>
        (guard_related (S.hosted scope) r _ (p.bindBy_same hb scope kind (.obj array) fun h =>
          (List.append_subset.1 (hn h)).1)).bind fun _ =>
            bindItemsBy_same hb scope kind r items _ fun h => (List.append_subset.1 (hn h)).2

theorem bindFieldsBy_same (hb : S.Binds names bind) (scope : ScopeId) (kind : Option VarKind)
    (v : Value) : (fields : List Binder) → (isLexical kind = false → binderNames fields ⊆ names) →
    S.Same scope (bindFields host scope kind v fields) (bindFieldsBy bind host scope kind v fields)
  | [], _ => .of_grows fun _ => .pure ()
  | .shorthand _ :: fields, hn => (S.same scope).heap.bind fun _ =>
      (bindNameBy_same hb scope _ fun h => (List.cons_subset.1 (hn h)).1).bind fun _ =>
        bindFieldsBy_same hb scope kind v fields fun h => (List.cons_subset.1 (hn h)).2
  | .keyed k p :: fields, hn => (key_same scope k).bind fun _ => (S.same scope).heap.bind fun _ =>
      (p.bindBy_same hb scope kind _ fun h => (List.append_subset.1 (hn h)).1).bind fun _ =>
        bindFieldsBy_same hb scope kind v fields fun h => (List.append_subset.1 (hn h)).2

end

theorem ForTarget.bindBy_same (hb : S.Binds names bind) {outer inner : ScopeId}
    (target : ForTarget) (v : Value) (hn : target.varNames ⊆ names) :
    S.Same inner (target.bind host outer inner v) (target.bindBy bind host outer inner v) := by
  cases target with
  | declare kind p =>
    refine p.bindBy_same hb inner (some kind) v fun h => ?_
    cases kind with
    | var => exact hn
    | «let» | const => cases h
  | assign p => exact bind_same inner outer none p v

theorem iterationTurnBy_same (hb : S.Binds names bind) (scope : ScopeId) (target : ForTarget)
    (bodyBinds : Bool) (hn : target.varNames ⊆ names) {body body' : ScopeId → Run Value}
    (hbody : ∀ inner, S.Same inner (body inner) (body' inner)) (v : Value) :
    S.Same scope (iterationTurn host scope target bodyBinds body v)
      (iterationTurnBy bind host scope target bodyBinds body' v) :=
  .into (fun _ => .edit (newScope_grows scope)) .newScope fun inner =>
    (target.bindBy_same hb v hn).bind fun _ => hbody inner

theorem declareAllBy_same (hb : S.Binds names bind) (scope : ScopeId) (kind : VarKind)
    (ds : List Declarator) (hn : declaredVars kind ds ⊆ names) :
    S.Same scope (declareAll host scope kind ds) (declareAllBy bind host scope kind ds) := by
  induction ds with
  | nil => exact .of_grows fun _ => .pure ()
  | cons d ds ih =>
    obtain ⟨p, init⟩ := d
    rw [declaredVars_cons kind p init none, List.append_subset] at hn
    have hrest := ih hn.2
    have hp (v : Value) : S.Same scope (p.bind host scope (some kind) v)
        (p.bindBy bind host scope (some kind) v) := by
      refine p.bindBy_same hb scope (some kind) v fun h => ?_
      cases kind with
      | var => simpa [Stmt.varNames, declaredVars, Declarator.names] using hn.1
      | «let» | const => cases h
    cases init with
    | some e => exact (eval_same scope p.hint e).bind fun v => (hp v).bind fun _ => hrest
    | none =>
      simp only [declareAll, declareAllBy]
      split
      · exact (hp _).bind fun _ => hrest
      · exact hrest

theorem ForInit.execBy_same (hb : S.Binds names bind) (scope : ScopeId) (init : ForInit)
    (hn : init.varNames ⊆ names) :
    S.Same scope (init.exec host scope) (init.execBy bind host scope) := by
  cases init with
  | absent => exact .of_grows fun _ => .pure ()
  | declare kind ds => exact declareAllBy_same hb scope kind ds hn
  | expr e => exact (eval_same scope none e).bind fun _ => .of_grows fun _ => .pure ()

/-- Each turn runs where its own scope is at home. -/
theorem headLoop_same (labels : List String) (ownScope : Bool) {test : ScopeId → Run Bool}
    {update body body' : ScopeId → Run Value} (ht : ∀ s, S.Same s (test s) (test s))
    (hu : ∀ s, S.Same s (update s) (update s)) (hbody : ∀ s, S.Same s (body s) (body' s)) (n : Nat)
    (scope : ScopeId) :
    S.Same scope (headLoop labels ownScope test update body n scope)
      (headLoop labels ownScope test update body' n scope) := by
  induction n generalizing scope with
  | zero => exact .of_grows fun _ => .exhausted
  | succ n ih =>
    have hend : S.Same scope (pure () : Run Unit) (pure ()) := .of_grows fun _ => .pure ()
    refine (ht scope).bind fun goOn => ?_
    cases goOn with
    | false => exact hend
    | true =>
      refine (loopBody_related (R := (S.same scope).toEvalRelation) (fun _ => trivial) labels
        (hbody scope)).bind fun goOn => ?_
      cases goOn with
      | false => exact hend
      | true =>
        have hrest (s : ScopeId) := (hu s).bind fun _ => ih s
        cases ownScope with
        | true => exact .into (fun _ => .edit (copyScope_grows scope)) .copyScope hrest
        | false => exact hrest scope

theorem inBlock_same (scope : ScopeId) (body : List Stmt) {f g : ScopeId → Run Value}
    (hf : ∀ inner, S.Same inner (f inner) (g inner)) :
    S.Same scope (enterBlock scope body >>= f) (enterBlock scope body >>= g) :=
  .into (fun _ => (enterBlock_related (R := growing.toEvalRelation) (fun _ => trivial) scope body).2)
    (.enterBlock body) hf

theorem inCatch_same (scope : ScopeId) (param : Option Pattern) (v : Value) {f g : ScopeId → Run Value}
    (hf : ∀ inner, S.Same inner (f inner) (g inner)) :
    S.Same scope (enterCatch host scope param v >>= f) (enterCatch host scope param v >>= g) :=
  .into (fun hh => (enterCatch_related hh.suits.calls hh.suits.names scope param v
    fun _ => hh.suits.suspends).2) (.enterCatch param v) hf

mutual

/-- A statement whose `var` names are all in the list runs as it does with another way to bind those that
are not. -/
theorem Stmt.execBy_same (hb : S.Binds names bind) : (s : Stmt) → (scope : ScopeId) →
    (labels : List String) → s.varNames ⊆ names →
    S.Same scope (s.exec host scope labels) (s.execBy bind host scope labels)
  | .empty, scope, labels, _ | .expr _, scope, labels, _ | .forOf _ _ _ true, scope, labels, _
  | .ret _, scope, labels, _ | .brk _, scope, labels, _ | .cont _, scope, labels, _
  | .throw _, scope, labels, _ | .function _ _, scope, labels, _ => exec_same scope labels _
  | .block body, scope, _, hn => inBlock_same scope body fun inner =>
      execStmtsBy_same hb body inner .undefined hn
  | .declare kind ds, scope, _, hn => (declareAllBy_same hb scope kind ds hn).bind fun _ =>
      .of_grows fun _ => .pure _
  | .ifElse t y none, scope, _, hn => by
    refine (eval_same scope none t).bind fun v => ?_
    split
    · exact y.execBy_same hb scope [] hn
    · exact .of_grows fun _ => .pure _
  | .ifElse t y (some n), scope, _, hn => by
    have hn := List.append_subset.1 hn
    refine (eval_same scope none t).bind fun v => ?_
    split
    · exact y.execBy_same hb scope [] hn.1
    · exact n.execBy_same hb scope [] hn.2
  | .whileDo t b, scope, labels, hn =>
    (whileLoop_related (R := (S.same scope).toEvalRelation) (fun _ => trivial) labels
      (eval_same scope none t) (b.execBy_same hb scope [] hn) (.same _)).bind fun _ =>
        .of_grows fun _ => .pure _
  | .doWhile b t, scope, labels, hn =>
    (doLoop_related (R := (S.same scope).toEvalRelation) (fun _ => trivial) labels
      (eval_same scope none t) (b.execBy_same hb scope [] hn) (.same _)).bind fun _ =>
        .of_grows fun _ => .pure _
  | .forLoop init t u b, scope, labels, hn => by
    have hn := List.append_subset.1 hn
    have hrest (s : ScopeId) := (init.execBy_same hb s hn.1).bind fun _ =>
      (headLoop_same labels init.isScoped (evalTest_same · t) (evalOption_same · u)
        (fun s => b.execBy_same hb s [] hn.2) host.fuel s).bind fun _ =>
          .of_grows fun _ => .pure Value.undefined
    simp only [Stmt.exec, Stmt.execBy]
    split
    · exact .into (fun _ => .edit (newScope_grows scope)) .newScope hrest
    · exact hrest scope
  | .forIn target e b, scope, labels, hn => by
    have hn := List.append_subset.1 hn
    have hturn := iterationTurnBy_same hb scope target b.bindsHere hn.1 fun inner =>
      b.execBy_same hb inner [] hn.2
    exact (eval_same scope none e).bind fun v =>
      (overKeys_related (S.same scope).toEvalRelation v).bind fun r =>
        (iterationLoop_related (S.hosted scope) (fun _ => trivial) labels r hturn (.same _)).bind
          fun _ => .of_grows fun _ => .pure _
  | .forOf target e b false, scope, labels, hn => by
    have hn := List.append_subset.1 hn
    have hturn := iterationTurnBy_same hb scope target b.bindsHere hn.1 fun inner =>
      b.execBy_same hb inner [] hn.2
    exact (eval_same scope none e).bind fun v => (ofValue_related (S.hosted scope) v).bind fun r =>
      (iterationLoop_related (S.hosted scope) (fun _ => trivial) labels r hturn (.same _)).bind
        fun _ => .of_grows fun _ => .pure _
  | .tryCatch block none none, scope, _, hn => inBlock_same scope block fun inner =>
      execStmtsBy_same hb block inner .undefined hn
  | .tryCatch block none (some finalizer), scope, _, hn => by
    have hn := List.append_subset.1 hn
    have hblock := inBlock_same scope block fun inner =>
      execStmtsBy_same hb block inner .undefined hn.1
    have hfinalizer := inBlock_same scope finalizer fun inner =>
      execStmtsBy_same hb finalizer inner .undefined hn.2
    exact (handled_related (R := (S.same scope).toEvalRelation) hblock
      (throwValue_related (S.same scope).toEvalRelation)).bind fun r =>
        finalized_related (R := (S.same scope).toEvalRelation) (fun _ => trivial) r hfinalizer
  | .tryCatch block (some (.mk param handler)) none, scope, _, hn => by
    have hn := List.append_subset.1 hn
    have hblock := inBlock_same scope block fun inner =>
      execStmtsBy_same hb block inner .undefined hn.1
    have hhandler (v : Value) := inCatch_same scope param v fun inner =>
      inBlock_same inner handler fun inner => execStmtsBy_same hb handler inner .undefined hn.2
    exact (handled_related (R := (S.same scope).toEvalRelation) hblock hhandler).bind fun r =>
      ofCompletion_related (S.same scope).toEvalRelation r fun _ _ => trivial
  | .tryCatch block (some (.mk param handler)) (some finalizer), scope, _, hn => by
    have hf := (List.append_subset.1 hn).2
    have hn := List.append_subset.1 (List.append_subset.1 hn).1
    have hblock := inBlock_same scope block fun inner =>
      execStmtsBy_same hb block inner .undefined hn.1
    have hhandler (v : Value) := inCatch_same scope param v fun inner =>
      inBlock_same inner handler fun inner => execStmtsBy_same hb handler inner .undefined hn.2
    have hfinalizer := inBlock_same scope finalizer fun inner =>
      execStmtsBy_same hb finalizer inner .undefined hf
    exact (handled_related (R := (S.same scope).toEvalRelation) hblock hhandler).bind fun r =>
      finalized_related (R := (S.same scope).toEvalRelation) (fun _ => trivial) r hfinalizer
  | .switch e cases, scope, labels, hn => by
    refine (eval_same scope none e).bind fun subject =>
      .into (fun _ => .edit (newScope_grows scope)) .newScope fun inner =>
        (selectCase_same inner subject 0 cases).bind fun selected => ?_
    cases selected <|> defaultCase cases with
    | none => exact .of_grows fun _ => .pure _
    | some first =>
      exact breakable_related (R := (S.same inner).toEvalRelation) (fun _ => trivial) labels
        (execCasesBy_same hb cases inner first hn)
  | .labeled label s, scope, labels, hn => by
    refine (S.same scope).attempt (s.execBy_same hb scope (labels ++ [label]) hn)
      (fun v => .of_grows fun _ => .pure v) fun c _ => ?_
    have habrupt (c : Abrupt) : S.Same scope (Run.abrupt c : Run Value) (Run.abrupt c) :=
      .of_grows fun _ => .abrupt c
    match c with
    | .brk (some l) =>
      dsimp only
      split
      · exact .of_grows fun _ => .pure _
      · exact habrupt _
    | .brk none | .cont _ | .ret _ | .throw _ | .fatal _ => exact habrupt _

theorem execStmtsBy_same (hb : S.Binds names bind) : (ss : List Stmt) → (scope : ScopeId) →
    (last : Value) → listVarNames ss ⊆ names →
    S.Same scope (execStmts host scope last ss) (execStmtsBy bind host scope last ss)
  | [], _, _, _ => .of_grows fun _ => .pure _
  | s :: ss, scope, _, hn => (s.execBy_same hb scope [] (List.append_subset.1 hn).1).bind fun v =>
      execStmtsBy_same hb ss scope v (List.append_subset.1 hn).2

theorem execCasesBy_same (hb : S.Binds names bind) : (cases : List Case) → (scope : ScopeId) →
    (skip : Nat) → caseVarNames cases ⊆ names →
    S.Same scope (execCases host scope skip cases) (execCasesBy bind host scope skip cases)
  | [], _, _, _ => .of_grows fun _ => .pure ()
  | .mk _ body :: cases, scope, 0, hn =>
    (execStmtsBy_same hb body scope .undefined (List.append_subset.1 hn).1).bind fun _ =>
      execCasesBy_same hb cases scope 0 (List.append_subset.1 hn).2
  | .mk _ _ :: cases, scope, n + 1, hn =>
    execCasesBy_same hb cases scope n (List.append_subset.1 hn).2

end

end Same

end Resumable
