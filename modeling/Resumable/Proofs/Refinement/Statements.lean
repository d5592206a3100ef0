import Resumable.Proofs.Refinement.Regions

/-!
Statements in plans. Main statement: `Laid.follows`: the code of a structured statement follows its
evaluation, whatever the replies to its `yield`s.
-/

set_option autoImplicit false

namespace Resumable

open Taped (lift emit)

section Semantics

variable {σ : Type} [HasWorld σ] (host : HostOn σ) (scope : ScopeId)

def execBlock (body : List Stmt) : RunOn σ Value := do
  execStmts host (← enterBlock scope body) .undefined body

def execAlternative : Option Stmt → RunOn σ Value
  | none => return .undefined
  | some s => s.exec host scope []

def execHandler : Option Catch → Value → RunOn σ Value
  | none, v => Run.throwValue v
  | some (.mk param body), v => do
    let inner ← enterCatch host scope param v
    execBlock host inner body

def execFinalizer : Option (List Stmt) → Except Abrupt Value → RunOn σ Value
  | none, r => Run.ofCompletion r
  | some body, r => finalized r (execBlock host scope body)

omit [HasWorld σ] in
theorem handled_throwValue (x : RunOn σ Value) : handled x Run.throwValue = x.attempt := by
  funext s
  simp only [handled, bind, RunOn.bind, RunOn.attempt]
  cases x s with
  | done | exhausted => rfl
  | abrupt c => cases c <;> rfl

theorem exec_ifElse (labels : List String) (test : Expr) (yes : Stmt) (no : Option Stmt) :
    (Stmt.ifElse test yes no).exec host scope labels = test.eval host scope none >>= fun v =>
      if v.truthy then yes.exec host scope [] else execAlternative host scope no := by
  cases no <;> rfl

theorem exec_forLoop (labels : List String) (init : ForInit) (test update : Option Expr)
    (body : Stmt) :
    (Stmt.forLoop init test update body).exec host scope labels =
      (if init.isScoped || body.bindsHere then Run.edit (Edit.newScope scope) else pure scope) >>=
        fun inner => (do
          init.exec host inner
          headLoop labels init.isScoped (evalTest host · test) (evalOption host · update)
            (body.exec host · []) host.fuel inner) >>= fun _ => pure .undefined := by
  simp only [Stmt.exec, bind_assoc]
  split <;> rfl

/-- A loop over an iterator that is opened in one way or another. -/
def execIteration (labels : List String) (iterate : Value → RunOn σ IteratorRecord)
    (target : ForTarget) (subject : Expr) (body : Stmt) : RunOn σ Unit := do
  let v ← subject.eval host scope none
  let r ← iterate v
  iterationLoop host labels r
    (iterationTurn host scope target body.bindsHere (body.exec host · [])) host.fuel

theorem exec_forIn (labels : List String) (target : ForTarget) (subject : Expr) (body : Stmt) :
    (Stmt.forIn target subject body).exec host scope labels =
      execIteration host scope labels IteratorRecord.overKeys target subject body >>= fun _ =>
        pure .undefined := by
  simp only [Stmt.exec, execIteration, bind_assoc]

theorem exec_forOf (labels : List String) (target : ForTarget) (subject : Expr) (body : Stmt) :
    (Stmt.forOf target subject body false).exec host scope labels =
      execIteration host scope labels (IteratorRecord.ofValue host) target subject body >>= fun _ =>
        pure .undefined := by
  simp only [Stmt.exec, execIteration, bind_assoc]

theorem exec_tryCatch (labels : List String) (block : List Stmt) (handler : Option Catch)
    (finalizer : Option (List Stmt)) :
    (Stmt.tryCatch block handler finalizer).exec host scope labels =
      handled (execBlock host scope block) (execHandler host scope handler) >>=
        execFinalizer host scope finalizer := by
  match handler, finalizer with
  | none, none =>
    exact ((congrArg (· >>= Run.ofCompletion) (handled_throwValue _)).trans
      (Run.attempt_bind_ofCompletion _)).symm
  | none, some _ | some (.mk _ _), none | some (.mk _ _), some _ => rfl

theorem exec_isEnclosed {s : Stmt} (h : s.isEnclosed = true) (labels : List String) :
    s.exec host scope labels = s.exec host scope [] := by
  cases s with
  | expr => rfl
  | block => rfl
  | ifElse t y n => cases n <;> rfl
  | tryCatch b c f => rw [exec_tryCatch, exec_tryCatch]
  | _ => cases h

end Semantics

section Structure

variable {around : List Breakable} {labels : List String}

theorem isStructured_isEnclosed {s : Stmt} (h : s.isEnclosed = true) (hl : labels ≠ []) :
    s.isStructured (⟨labels, .block⟩ :: around) [] = s.isStructured around labels := by
  cases s with
  | expr => rfl
  | block => simp [Stmt.isStructured, enclosed, hl]
  | ifElse t y n => cases n <;> simp [Stmt.isStructured, enclosed, hl]
  | tryCatch b c f =>
    obtain _ | ⟨⟨param, handler⟩⟩ := c <;> cases f <;> simp [Stmt.isStructured, enclosed, hl]
  | _ => cases h

theorem isStructured_ifElse (test : Expr) (yes : Stmt) (no : Option Stmt) :
    (Stmt.ifElse test yes no).isStructured around labels = (!test.delegates &&
      yes.isStructured (enclosed around labels) [] &&
      no.all (·.isStructured (enclosed around labels) [])) := by
  cases no <;> simp [Stmt.isStructured]

theorem isStructured_tryCatch (block : List Stmt) (handler : Option Catch)
    (finalizer : Option (List Stmt)) :
    (Stmt.tryCatch block handler finalizer).isStructured around labels =
      (areStructured (enclosed around labels) block &&
        handler.all (fun | .mk _ body => areStructured (enclosed around labels) body) &&
        finalizer.all (areStructured (enclosed around labels))) := by
  match handler, finalizer with
  | none, none | none, some _ | some (.mk _ _), none | some (.mk _ _), some _ =>
    simp [Stmt.isStructured]

end Structure

section Leaves

variable {plan : Plan} {host : Host} {around : List Breakable} {g : Instance}

theorem leaf_follows (hg : g.Ready plan around) (hh : host.Proper) {base next : Nat} {s : Stmt}
    (hs : s.hasSuspend false = false) (hstructured : s.isStructured around [] = true)
    (hi : plan.get? base = some (s.leafInstr next)) :
    Follows.Leading host g (playing host (g.goto base)) (s.exec (scripted host) g.scope [])
      fun _ => playing host (g.goto next) := by
  have hescape : ∀ c : Abrupt, c.LeadsIn around →
      c.Leads g.loops ∧ escape host (g.goto base) c = escape host g c := fun c hc =>
    ⟨hg.leads hc, escape_over hg.nested (hg.leads hc) [] [] base nofun⟩
  have hthrows : ∀ {α : Type} {y : Run α}, y.OnlyThrows → ∀ w c w', y w = .abrupt c w' →
      c.Leads g.loops ∧ escape host (g.goto base) c = escape host g c := fun hy w c w' hc =>
    hescape c (leadsIn_of_leavesCalls (hy w c w' hc))
  have hevaluate : plan.get? base = some (.evaluate s next) →
      Follows.Leading host g (playing host (g.goto base)) (s.exec (scripted host) g.scope [])
        fun _ => playing host (g.goto next) := by
    intro hi
    have hleads := s.exec_leads hh around [] g.scope (s.jumpsLead_of_isStructured _ _ hstructured)
    rw [s.exec_scripted hh _ [] hs, ← bind_pure (lift _)]
    refine .step (hg.instr_goto hi) ?_
    exact .after (fun v => .here v) fun w c w' hc => hescape c (hleads w c w' hc)
  have hleave : ∀ c : Abrupt, c.LeadsIn around → Follows.Leading host g
      (escape host (g.goto base) c) (Run.abrupt c) fun _ : Value => playing host (g.goto next) := by
    intro c hc
    rw [(hescape c hc).2]
    exact .abrupt (hg.leads hc)
  cases s with
  | brk label => exact .step (hg.instr_goto hi) (hleave (.brk label) hstructured)
  | cont label => exact .step (hg.instr_goto hi) (hleave (.cont label) hstructured)
  | ret e =>
    have he : e.any (·.hasSuspend false) = false := hs
    have hv := (evalOption_related hh.related (fun _ => trivial) g.scope e fun _ => hh.suspends).2
    have hexec : (Stmt.ret e).exec (scripted host) g.scope [] =
        lift (evalOption host g.scope e) >>= fun v => Run.abrupt (.ret v) := by
      rw [← evalOption_scripted hh _ he]
      rfl
    rw [hexec]
    exact .step (hg.instr_goto hi) (.after (fun v => hleave (.ret v) trivial) (hthrows hv))
  | throw e =>
    have hv := eval_onlyThrows hh g.scope none e
    have hexec : (Stmt.throw e).exec (scripted host) g.scope [] =
        lift (e.eval host g.scope none) >>= fun v => Run.abrupt (.throw v) := by
      rw [← e.eval_scripted hh _ none hs]
      rfl
    rw [hexec]
    exact .step (hg.instr_goto hi) (.after (fun v => hleave (.throw v) trivial) (hthrows hv))
  | _ => exact hevaluate hi

end Leaves

def Followed (host : Host) (plan : Plan) (around : List Breakable) (next entry : Nat) :
    Part → Prop
  | .stmt labels s =>
    s.isStructured around labels = true → (labels = [] ∨ s.hasSuspend false = true) →
    ∀ g, g.Ready plan around → Follows.Leading host g (playing host (g.goto entry))
      (catching labels (s.exec (scripted host) g.scope labels)) fun _ => playing host (g.goto next)
  | .stmts ss =>
    areStructured around ss = true → ∀ g, g.Ready plan around → ∀ last,
      Follows.Leading host g (playing host (g.goto entry))
        (execStmts (scripted host) g.scope last ss) fun _ => playing host (g.goto next)
  | .block body =>
    areStructured around body = true → ∀ g, g.Ready plan around →
      Follows.Leading host g (playing host (g.goto entry))
        (execBlock (scripted host) g.scope body) fun _ => playing host (g.goto next)
  | .alternative no =>
    no.all (·.isStructured around []) = true → ∀ g, g.Ready plan around →
      Follows.Leading host g (playing host (g.goto entry))
        (execAlternative (scripted host) g.scope no) fun _ => playing host (g.goto next)
  | .headLoop labels ownScope init test update body =>
    init.delegates = false → test.any Expr.delegates = false → update.any Expr.delegates = false →
    body.isStructured (⟨labels, .loop⟩ :: around) [] = true →
    ∀ g b scope, g.Ready plan around → (ownScope = false → scope = g.scope) →
      (∀ scope s, (playing host ((g.inHead ownScope scope).goto next)).Leads s b s) →
      Follows host g (·.Passes labels g.loops)
        (playing host ((g.inHead ownScope scope).goto entry))
        (do init.exec (scripted host) scope
            headLoop labels ownScope (evalTest (scripted host) · test)
              (evalOption (scripted host) · update) (body.exec (scripted host) · []) host.fuel scope)
        fun _ => b
  | .iteration labels target subject body isAsync overKeys =>
    isAsync = false → body.bindsHere = false →
    body.isStructured (⟨labels, .loop⟩ :: around) [] = true →
    ∀ g, g.Ready plan around → Follows host g (·.Passes labels g.loops)
      (playing host (g.goto entry))
      (execIteration (scripted host) g.scope labels
        (fun v => lift (Instance.openIterator host v false overKeys)) target subject body)
      fun _ => playing host (g.goto next)
  | .handler handler onThrow =>
    handler.all (fun | .mk _ body => areStructured around body) = true →
    ∀ g onExit, g.Ready plan around →
      Handles host plan g onThrow onExit next (execHandler (scripted host) g.scope handler)
  | .finalizer body onExit =>
    body.all (areStructured around) = true → ∀ g onThrow, g.Ready plan around →
      Settles host plan g onThrow onExit next (execFinalizer (scripted host) g.scope body)
  | .cases _ _ => True

@[simp] theorem Instance.scope_goto (g : Instance) (ip : Nat) : (g.goto ip).scope = g.scope := rfl

section Templates

variable {plan : Plan} {host : Host} {around : List Breakable} {g : Instance}
  (hg : g.Ready plan around) (hh : host.Proper) (hplain : HoldsNone false plan.code)

include hg hh hplain

theorem loopTest_follows {labels : List String} {base next entry position : Nat} {test : Expr}
    {t : Fragment} (hjump : plan.get? (base + 1) = some (.jump t.entry))
    (ht : ConditionLaid false position entry base test t) (hl : Lies plan.get? position t.code)
    (hd : test.delegates = false) :
    Follows host g (·.isJump = false)
      (playing host ((g.inLoop labels .loop (some (base + 1)) next).goto (base + 1)))
      (test.eval (scripted host) g.scope none)
      fun v => playing host ((g.inLoop labels .loop (some (base + 1)) next).goto
        (if v.truthy then entry else base)) := by
  have h := ht.follows hg [] [⟨labels, .loop, some (base + 1), next, g.scopes.length,
    g.frames.length⟩] hh hplain hl hd
  exact h.lead ((hg.inLoop labels .loop (some (base + 1)) next fun _ => rfl).steps hjump rfl)

theorem head_follows {labels : List String} {ownScope : Bool} {exit after : Nat} {init : ForInit}
    {test update : Option Expr} {body : ScopeId → RunOn Taped Value} {u b t i : Fragment}
    (hl : Lies plan.get? exit
      (Fragment.headLoop exit after labels (u.step ownScope (exit + 2)) b t i).code)
    (hu : UpdateLaid false (exit + 2) (exit + 1) update u)
    (ht : TestLaid false (exit + 2 + (u.step ownScope (exit + 2)).size + b.size) b.entry exit test t)
    (hi : InitLaid false (exit + 2 + (u.step ownScope (exit + 2)).size + b.size + t.size + 1)
      (exit + 2 + (u.step ownScope (exit + 2)).size + b.size + t.size) init i)
    (hdi : init.delegates = false) (hdt : test.any Expr.delegates = false)
    (hdu : update.any Expr.delegates = false)
    (hb : ∀ k, k.Ready plan (⟨labels, .loop⟩ :: around) → Follows.Leading host k
      (playing host (k.goto b.entry)) (body k.scope)
      fun _ => playing host (k.goto (u.step ownScope (exit + 2)).entry))
    {past : Play} (hpast : ∀ scope s, (playing host ((g.inHead ownScope scope).goto after)).Leads s
      past s) (n : Nat) (scope : ScopeId) (hscope : ownScope = false → scope = g.scope) :
    Follows host g (·.Passes labels g.loops)
      (playing host ((g.inHead ownScope scope).goto i.entry))
      (do init.exec (scripted host) scope
          headLoop labels ownScope (evalTest (scripted host) · test)
            (evalOption (scripted host) · update) body n scope)
      fun _ => past := by
  generalize hc : u.step ownScope (exit + 2) = c at *
  simp only [Fragment.headLoop, List.cons_append, lies_cons, lies_append, Fragment.length_code,
    List.length_append, ← Nat.add_assoc] at hl
  obtain ⟨hexit, hjump, ⟨⟨hlc, hlb⟩, hlt⟩, henter, hli⟩ := hl
  -- the scopes and loops on top of `g`
  let xs (scope : ScopeId) : List ScopeId := if ownScope then [scope] else []
  let l (scope : ScopeId) : LoopScope := ⟨labels, .loop, some c.entry, after,
    (g.inHead ownScope scope).scopes.length, g.frames.length⟩
  have hover : ∀ scope ip, g.over (xs scope) [] ip = (g.inHead ownScope scope).goto ip := by
    intro scope ip
    cases ownScope <;> rfl
  have hloop : ∀ scope ip, g.over (xs scope) [l scope] ip =
      ((g.inHead ownScope scope).inLoop labels .loop (some c.entry) after).goto ip := by
    intro scope ip
    cases ownScope <;> rfl
  have htop : ∀ scope, (ownScope = false → scope = g.scope) →
      ((g.inHead ownScope scope).inLoop labels .loop (some c.entry) after).scope = scope := by
    intro scope h
    cases ownScope with
    | true => rfl
    | false => exact (h rfl).symm
  have hlu : Lies plan.get? (exit + 2) u.code := by
    subst hc
    cases ownScope with
    | true =>
      simp only [Fragment.step, Fragment.close, ↓reduceIte, lies_append] at hlc
      exact hlc.1
    | false => exact hlc
  have hcopy : if ownScope then plan.get? c.entry = some (.copyScope u.entry)
      else c.entry = u.entry := by
    subst hc
    cases ownScope with
    | true =>
      simp only [Fragment.step, Fragment.close, ↓reduceIte, lies_append, lies_cons,
        Fragment.length_code] at hlc
      exact hlc.2.1
    | false => rfl
  have hk := fun scope => (hg.inHead ownScope scope).inLoop labels .loop (some c.entry) after
    fun _ => rfl
  have htest : ∀ scope, (ownScope = false → scope = g.scope) → Follows host g (·.isJump = false)
      (playing host (((g.inHead ownScope scope).inLoop labels .loop (some c.entry) after).goto
        (exit + 1))) (evalTest (scripted host) scope test)
      fun go => playing host (((g.inHead ownScope scope).inLoop labels .loop (some c.entry)
        after).goto (if go then b.entry else exit)) := by
    intro scope h
    have htest := ht.follows hg (xs scope) [l scope] hh hplain hlt hdt
    simp only [hloop, Instance.scope_goto, htop scope h] at htest
    exact htest.lead ((hk scope).steps hjump rfl)
  have hbody : ∀ scope, (ownScope = false → scope = g.scope) → Follows.Leading host
      ((g.inHead ownScope scope).inLoop labels .loop (some c.entry) after)
      (playing host (((g.inHead ownScope scope).inLoop labels .loop (some c.entry) after).goto
        b.entry)) (body scope)
      fun _ => playing host (((g.inHead ownScope scope).inLoop labels .loop (some c.entry)
        after).goto c.entry) := by
    intro scope h
    have hbody := hb _ (hk scope)
    rwa [htop scope h] at hbody
  have hupdate : ∀ scope, (ownScope = false → scope = g.scope) → Follows host g (·.isJump = false)
      (playing host (((g.inHead ownScope scope).inLoop labels .loop (some c.entry) after).goto
        u.entry)) (evalOption (scripted host) scope update)
      fun _ => playing host (((g.inHead ownScope scope).inLoop labels .loop (some c.entry)
        after).goto (exit + 1)) := by
    intro scope h
    have hupdate := hu.follows hg (xs scope) [l scope] hh hplain hlu hdu
    simp only [hloop, Instance.scope_goto, htop scope h] at hupdate
    exact hupdate
  have hinit := hi.follows hg (xs scope) [] hh hplain hli hdi
  simp only [hover, Instance.scope_goto] at hinit
  rw [show (g.inHead ownScope scope).scope = scope from htop scope hscope] at hinit
  refine (hinit.mono fun _ => passes_of_not_jump).bind fun _ => ?_
  refine Follows.lead ?_ ((hg.inHead ownScope scope).steps henter rfl)
  exact headLoop_follows hg hexit hcopy htest hbody hupdate hpast n scope hscope

end Templates

section Induction

variable {plan : Plan} {host : Host} (hh : host.Proper) (hplain : HoldsNone false plan.code)

include hh hplain

theorem Laid.follows {around : Surroundings} {base next : Nat} {part : Part} {f : Fragment}
    (h : Laid around base next part f) (ha : around.inAsync = false)
    (hl : Lies plan.get? base f.code) :
    Followed host plan around.breakables next f.entry part := by
  induction h with
  | @leaf around base next labels s hs hj =>
    intro hstructured hlabels g hg
    rw [ha] at hs
    obtain rfl | hlabels := hlabels
    · rw [catching_nil]
      exact leaf_follows hg hh hs hstructured hl.1
    · rw [hs] at hlabels
      cases hlabels
  | @labeled around base next labels label s f hs _ ih =>
    intro hstructured _ g hg
    rw [catching_labeled]
    exact ih ha hl hstructured (.inr (ha ▸ hs)) g hg
  | @enclosed around base next labels s f hs he hlabels _ ih =>
    intro hstructured _ g hg
    simp only [Fragment.enclose, List.cons_append, lies_cons, lies_append, Fragment.length_code] at hl
    obtain ⟨hexit, hf, henter, -⟩ := hl
    rw [← isStructured_isEnclosed he hlabels] at hstructured
    have hx := ih ha hf hstructured (.inl rfl) _ (hg.inLoop labels .block none next (by rintro ⟨⟩))
    rw [catching_nil] at hx
    rw [exec_isEnclosed _ _ he]
    exact (enclosed_follows hg hexit hx).lead (hg.steps henter rfl)
  | @expr around base next e f hs he =>
    intro hstructured _ g hg
    rw [ha] at he
    rw [catching_nil]
    have h := he.follows hg [] [] hh hplain hl
      (by simpa [Stmt.isStructured] using hstructured) .undefined
    rw [evalSeq_singleton] at h
    exact h.mono fun _ => leads_of_not_jump
  | @blockStmt around base next body f _ _ ih =>
    intro hstructured _ g hg
    rw [catching_nil]
    exact ih ha hl hstructured g hg
  | @ifElse around base next test yes no n y t hs _ _ ht ihn ihy =>
    intro hstructured _ g hg
    simp only [lies_append, List.length_append, Fragment.length_code, ← Nat.add_assoc] at hl
    obtain ⟨⟨hln, hly⟩, hlt⟩ := hl
    rw [ha] at ht
    rw [catching_nil, exec_ifElse]
    simp only [isStructured_ifElse, Bool.and_eq_true, Bool.not_eq_true'] at hstructured
    obtain ⟨⟨hd, hy⟩, hn⟩ := hstructured
    have htest := ht.follows hg [] [] hh hplain hlt hd
    refine (htest.mono fun _ => leads_of_not_jump).bind fun v => ?_
    cases v.truthy with
    | true =>
      have hyes := ihy ha hly hy (.inl rfl) g hg
      rwa [catching_nil] at hyes
    | false => exact ihn ha hln hn g hg
  | @whileDo around base next labels test body b t hs _ ht ih =>
    intro hstructured _ g hg
    simp only [Stmt.isStructured, Bool.and_eq_true, Bool.not_eq_true'] at hstructured
    simp only [Fragment.testLoop, List.cons_append, lies_cons, lies_append, Fragment.length_code,
      List.length_append, ← Nat.add_assoc] at hl
    obtain ⟨hexit, hjump, ⟨hlb, hlt⟩, henter, -⟩ := hl
    rw [ha] at ht
    have hbody := ih ha hlb hstructured.2 (.inl rfl) _
      (hg.inLoop labels .loop (some (base + 1)) next fun _ => rfl)
    rw [catching_nil] at hbody
    have hloop := whileLoop_follows hg hexit
      (loopTest_follows hg hh hplain hjump ht hlt hstructured.1) hbody host.fuel
    exact (hloop.bind fun _ => .here .undefined).catching.lead (hg.steps henter rfl)
  | @doWhile around base next labels test body b t hs _ ht ih =>
    intro hstructured _ g hg
    simp only [Stmt.isStructured, Bool.and_eq_true, Bool.not_eq_true'] at hstructured
    simp only [Fragment.testLoop, List.cons_append, lies_cons, lies_append, Fragment.length_code,
      List.length_append, ← Nat.add_assoc] at hl
    obtain ⟨hexit, hjump, ⟨hlb, hlt⟩, henter, -⟩ := hl
    rw [ha] at ht
    have hbody := ih ha hlb hstructured.2 (.inl rfl) _
      (hg.inLoop labels .loop (some (base + 1)) next fun _ => rfl)
    rw [catching_nil] at hbody
    have hloop := doLoop_follows hg hexit
      (loopTest_follows hg hh hplain hjump ht hlt hstructured.1) hbody host.fuel
    exact (hloop.bind fun _ => .here .undefined).catching.lead (hg.steps henter rfl)
  | @forPlain around base next labels init test update body f hs ho _ ih =>
    intro hstructured _ g hg
    simp only [Stmt.isStructured, ho, Bool.false_or, Bool.and_eq_true, Bool.not_eq_true']
      at hstructured
    obtain ⟨⟨⟨⟨hi, ht⟩, hu⟩, hbinds⟩, hbody⟩ := hstructured
    have hloop := ih ha hl hi ht hu hbody g (playing host (g.goto next)) g.scope hg (fun _ => rfl)
      fun _ s => .refl _ s
    rw [exec_forLoop, ho, hbinds]
    exact (hloop.bind fun _ => .here Value.undefined).catching
  | @forScoped around base next labels init test update body f hs ho _ ih =>
    intro hstructured _ g hg
    simp only [Stmt.isStructured, ho, Bool.true_or, Bool.and_eq_true, Bool.not_eq_true']
      at hstructured
    obtain ⟨⟨⟨⟨hi, ht⟩, hu⟩, -⟩, hbody⟩ := hstructured
    simp only [Fragment.inScope, lies_cons, lies_append, List.cons_append, Fragment.length_code]
      at hl
    obtain ⟨hpop, hlf, hpush, -⟩ := hl
    rw [exec_forLoop, ho]
    refine Follows.catching ?_
    refine .step (hg.instr_goto hpush) (.edit fun inner => ?_)
    have hloop := ih ha hlf hi ht hu hbody g (playing host (g.goto next)) inner hg (by rintro ⟨⟩)
      fun scope => (hg.pushScope scope).steps hpop rfl
    exact (hloop.bind fun _ => .here Value.undefined)
  | @headLoop around exit after labels ownScope init test update body u c b t i hu hc _ ht hi ih =>
    intro hdi hdt hdu hstructured g past scope hg hscope hpast
    subst hc
    rw [ha] at hu ht hi
    have hcode := hl
    simp only [Fragment.headLoop, List.cons_append, lies_cons, lies_append, Fragment.length_code,
      List.length_append, ← Nat.add_assoc] at hcode
    refine head_follows hg hh hplain hl hu ht hi hdi hdt hdu (fun k hk => ?_) hpast host.fuel scope
      hscope
    have hbody := ih ha hcode.2.2.1.1.2 hstructured (.inl rfl) k hk
    rwa [catching_nil] at hbody
  | @forIn around base next labels target subject body f hs _ ih =>
    intro hstructured _ g hg
    simp only [Stmt.isStructured, Bool.and_eq_true, Bool.not_eq_true'] at hstructured
    have hopen : IteratorRecord.overKeys =
        fun v => lift (Instance.openIterator host v false true) :=
      funext (overKeys_related lifted.toEvalRelation)
    rw [exec_forIn, hopen]
    have hloop := ih ha hl rfl hstructured.1.2 hstructured.2 g hg
    exact (hloop.bind fun _ => .here Value.undefined).catching
  | @forOf around base next labels target subject body isAwait f hs _ ih =>
    intro hstructured _ g hg
    cases isAwait with
    | true => cases hstructured
    | false =>
      simp only [Stmt.isStructured, Bool.and_eq_true, Bool.not_eq_true'] at hstructured
      have hopen : IteratorRecord.ofValue (scripted host) =
          fun v => lift (Instance.openIterator host v false false) :=
        funext (ofValue_related (scripted_related hh))
      rw [exec_forOf, hopen]
      have hloop := ih ha hl rfl hstructured.1.2 hstructured.2 g hg
      exact (hloop.bind fun _ => .here Value.undefined).catching
  | @iteration around base next labels target subject body isAsync overKeys b _ ih =>
    rintro rfl hbinds hstructured g hg
    have hcode := hl
    simp only [Fragment.iteration, lies_cons, lies_append, List.cons_append, Fragment.length_code]
      at hcode
    obtain ⟨-, -, -, -, hlb, -, -, hopen, -⟩ := hcode
    have hsubject : subject.hasSuspend false = false := holdsNone_get hplain hopen
    have hloop := iteration_follows hg hh hplain hl
      (x := (body.exec (scripted host) · [])) (fun r inner => ?_) host.fuel
    · rw [lift_bind, bind_assoc, ← subject.eval_scripted hh _ none hsubject] at hloop
      rw [execIteration, hbinds]
      exact hloop
    · have hk := ((hg.pushFrame (.iterator r)).inLoop labels .loop (some (base + 2))
        (base + 4 + b.size) fun _ => rfl).pushScope inner
      have hbody := ih ha hlb hstructured (.inl rfl) _ hk
      rwa [catching_nil] at hbody
  | @tryCatch around base next block handler finalizer onThrow onExit f h b hs _ _ _ ihf ihh ihb =>
    intro hstructured _ g hg
    simp only [isStructured_tryCatch, Bool.and_eq_true] at hstructured
    obtain ⟨⟨hblock, hhandler⟩, hfinalizer⟩ := hstructured
    simp only [Fragment.protect, lies_cons, lies_append, List.cons_append, List.append_assoc,
      Fragment.length_code] at hl
    obtain ⟨hlf, hlh, hexit, hlb, henter, -⟩ := hl
    rw [catching_nil, exec_tryCatch]
    exact protect_follows hg (ihf ha hlf hfinalizer g onThrow hg)
      (ihh ha hlh hhandler g onExit hg) henter hexit
      (ihb ha hlb hblock _ (hg.inRegion onThrow onExit .body))
  | switch =>
    intro hstructured
    cases hstructured
  | @block around base next body b _ ih =>
    intro hstructured g hg
    simp only [Fragment.inScope, lies_cons, lies_append, List.cons_append, Fragment.length_code]
      at hl
    obtain ⟨hpop, hlb, hpush, -⟩ := hl
    exact block_follows hg hpop hpush fun inner =>
      ih ha hlb hstructured _ (hg.pushScope inner) .undefined
  | noAlternative =>
    intro _ g hg
    exact .here Value.undefined
  | alternative _ ih =>
    intro hstructured g hg
    have h := ih ha hl hstructured (.inl rfl) g hg
    rwa [catching_nil] at h
  | noFinalizer =>
    intro _ g onThrow hg
    exact settles_ofCompletion hg
  | @finalizer around base next body f _ ih =>
    intro hstructured g onThrow hg
    exact settles_finalized hg hl.1 fun pending =>
      ih ha hl.2 hstructured _ (hg.inRegion onThrow (some f.entry) (.finalizer pending))
  | noHandler =>
    intro _ g onExit hg
    rfl
  | @handler around base next param body f _ ih =>
    intro hstructured g onExit hg
    simp only [lies_cons, lies_append, List.cons_append, Fragment.length_code] at hl
    obtain ⟨hexit, hpop, hlf, hbind, -⟩ := hl
    have hk := hg.inRegion (some (base + 2 + f.size)) onExit .handler
    exact ⟨base, hexit, handler_follows hk hh hplain hbind hpop fun inner =>
      ih ha hlf hstructured _ (hk.pushScope inner)⟩
  | nil =>
    intro _ g hg last
    exact .here last
  | @cons around base next s ss rest first _ _ ihrest ihfirst =>
    intro hstructured g hg last
    simp only [areStructured, Bool.and_eq_true] at hstructured
    simp only [lies_append, Fragment.length_code] at hl
    have hfirst := ihfirst ha hl.2 hstructured.1 (.inl rfl) g hg
    rw [catching_nil] at hfirst
    exact hfirst.bind fun v => ihrest ha hl.1 hstructured.2 g hg v
  | noCase | case => trivial

end Induction

end Resumable
