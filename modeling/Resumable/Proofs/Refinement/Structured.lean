import Resumable.Proofs.Lowering.Leading
import Resumable.Proofs.Refinement.Escape

/-!
Where the jumps of a statement go. Main statement: `Stmt.exec_leads`: when the jumps in a statement
lead to constructs around it, so does any jump that it ends in. Structured bodies are bodies with
such jumps alone.
-/

set_option autoImplicit false

namespace Resumable

def Expr.delegates (e : Expr) : Bool :=
  (e.suspends false).any fun
    | .yieldStar _ => true
    | _ => false

def Declarator.delegates : Declarator → Bool
  | .mk _ init => init.any Expr.delegates

def ForInit.delegates : ForInit → Bool
  | .absent => false
  | .declare _ ds => ds.any Declarator.delegates
  | .expr e => e.delegates

mutual

/-- Statements without `switch`, `for await` and `yield*` in which every jump leads to a construct
around it, and no loop has a body that declares names in the scope of the loop itself. The labels
are those directly before the statement. -/
def Stmt.isStructured (around : List Breakable) (labels : List String) : Stmt → Bool
  | .empty | .function _ _ => true
  | .expr e | .throw e => !e.delegates
  | .ret e => !e.any Expr.delegates
  | .declare _ ds => !ds.any Declarator.delegates
  | .brk label => JumpSite.leads ⟨label, false, enclosed around labels⟩
  | .cont label => JumpSite.leads ⟨label, true, enclosed around labels⟩
  | .labeled label s => s.isStructured around (labels ++ [label])
  | .block body => areStructured (enclosed around labels) body
  | .ifElse t y none => !t.delegates && y.isStructured (enclosed around labels) []
  | .ifElse t y (some n) =>
    !t.delegates && y.isStructured (enclosed around labels) [] &&
      n.isStructured (enclosed around labels) []
  | .whileDo t b | .doWhile b t => !t.delegates && b.isStructured (⟨labels, .loop⟩ :: around) []
  | .forLoop i t u b =>
    !i.delegates && !t.any Expr.delegates && !u.any Expr.delegates &&
      (i.isScoped || !b.bindsHere) && b.isStructured (⟨labels, .loop⟩ :: around) []
  | .forIn _ e b | .forOf _ e b false =>
    !e.delegates && !b.bindsHere && b.isStructured (⟨labels, .loop⟩ :: around) []
  | .forOf _ _ _ true | .switch _ _ => false
  | .tryCatch b none none => areStructured (enclosed around labels) b
  | .tryCatch b none (some f) =>
    areStructured (enclosed around labels) b && areStructured (enclosed around labels) f
  | .tryCatch b (some (.mk _ h)) none =>
    areStructured (enclosed around labels) b && areStructured (enclosed around labels) h
  | .tryCatch b (some (.mk _ h)) (some f) =>
    areStructured (enclosed around labels) b && areStructured (enclosed around labels) h &&
      areStructured (enclosed around labels) f

def areStructured (around : List Breakable) : List Stmt → Bool
  | [] => true
  | s :: ss => s.isStructured around [] && areStructured around ss

end

mutual

theorem Stmt.jumpsLead_of_isStructured : (s : Stmt) → (around : List Breakable) →
    (labels : List String) → s.isStructured around labels = true →
    s.jumpsLead around labels = true
  | .empty, _, _, _ | .function _ _, _, _, _ | .expr _, _, _, _ | .throw _, _, _, _
  | .ret _, _, _, _ | .declare _ _, _, _, _ => rfl
  | .brk _, _, _, h | .cont _, _, _, h => h
  | .labeled label s, around, labels, h => s.jumpsLead_of_isStructured around (labels ++ [label]) h
  | .block body, around, labels, h | .tryCatch body none none, around, labels, h =>
    bodyJumpsLead_of_areStructured body (enclosed around labels) h
  | .ifElse _ y none, around, labels, h => by
    simp only [Stmt.isStructured, Bool.and_eq_true] at h
    exact y.jumpsLead_of_isStructured _ [] h.2
  | .ifElse _ y (some n), around, labels, h => by
    simp only [Stmt.isStructured, Bool.and_eq_true] at h
    simp [Stmt.jumpsLead, y.jumpsLead_of_isStructured _ [] h.1.2,
      n.jumpsLead_of_isStructured _ [] h.2]
  | .whileDo _ b, around, labels, h | .doWhile b _, around, labels, h
  | .forLoop _ _ _ b, around, labels, h | .forIn _ _ b, around, labels, h
  | .forOf _ _ b false, around, labels, h => by
    simp only [Stmt.isStructured, Bool.and_eq_true] at h
    exact b.jumpsLead_of_isStructured _ [] h.2
  | .tryCatch b none (some f), around, labels, h => by
    simp only [Stmt.isStructured, Bool.and_eq_true] at h
    simp [Stmt.jumpsLead, bodyJumpsLead_of_areStructured b _ h.1,
      bodyJumpsLead_of_areStructured f _ h.2]
  | .tryCatch b (some (.mk _ c)) none, around, labels, h => by
    simp only [Stmt.isStructured, Bool.and_eq_true] at h
    simp [Stmt.jumpsLead, bodyJumpsLead_of_areStructured b _ h.1,
      bodyJumpsLead_of_areStructured c _ h.2]
  | .tryCatch b (some (.mk _ c)) (some f), around, labels, h => by
    simp only [Stmt.isStructured, Bool.and_eq_true] at h
    simp [Stmt.jumpsLead, bodyJumpsLead_of_areStructured b _ h.1.1,
      bodyJumpsLead_of_areStructured c _ h.1.2, bodyJumpsLead_of_areStructured f _ h.2]
  | .forOf _ _ _ true, _, _, h | .switch _ _, _, _, h => by cases h

theorem bodyJumpsLead_of_areStructured : (ss : List Stmt) → (around : List Breakable) →
    areStructured around ss = true → bodyJumpsLead around ss = true
  | [], _, _ => rfl
  | s :: ss, around, h => by
    simp only [areStructured, Bool.and_eq_true] at h
    simp [bodyJumpsLead, s.jumpsLead_of_isStructured _ [] h.1,
      bodyJumpsLead_of_areStructured ss _ h.2]

end

/-- Whether a completion that is a jump leads to one of these constructs. -/
def Abrupt.LeadsIn (around : List Breakable) : Abrupt → Prop
  | .brk label => JumpSite.leads ⟨label, false, around⟩ = true
  | .cont label => JumpSite.leads ⟨label, true, around⟩ = true
  | .ret _ | .throw _ | .fatal _ => True

section Leading

variable {around : List Breakable} {b : Breakable} {c : Abrupt}

theorem leadsIn_of_leavesCalls (h : c.leavesCalls = true) : c.LeadsIn around := by
  cases c with
  | throw | fatal => trivial
  | ret | brk | cont => cases h

theorem leadsIn_skip (h : c.meantFor b = false) : c.LeadsIn (b :: around) ↔ c.LeadsIn around := by
  cases c with
  | ret | throw | fatal => exact Iff.rfl
  | brk label | cont label =>
    have hm : Breakable.isMeant label _ b = false := h
    simp [Abrupt.LeadsIn, JumpSite.leads, JumpSite.target?, hm]

theorem leads_of_leadsIn {loops : List LoopScope}
    (hl : ∀ l ∈ loops, l.kind = .loop → l.onContinue.isSome = true)
    (h : c.LeadsIn (loops.map LoopScope.breakable)) : c.Leads loops := by
  induction loops with
  | nil =>
    cases c with
    | ret | throw | fatal => trivial
    | brk | cont => cases h
  | cons l loops ih =>
    cases hm : c.meantFor l.breakable with
    | false =>
      rw [List.map_cons, leadsIn_skip hm] at h
      exact (leads_skip hm).2 (ih (fun l' hl' => hl l' (by simp [hl'])) h)
    | true =>
      cases c with
      | ret | throw | fatal => trivial
      | brk label =>
        have hm : l.breakable.isMeant label false = true := hm
        simp [Abrupt.Leads, Abrupt.signal?, jumpAmong, accepts_eq_isMeant, hm]
      | cont label =>
        have hm : l.breakable.isMeant label true = true := hm
        have hkind : l.breakable.kind = .loop := by
          simpa [Abrupt.LeadsIn, JumpSite.leads, JumpSite.target?, hm] using h
        have ho := hl l (by simp) hkind
        simpa [Abrupt.Leads, Abrupt.signal?, jumpAmong, accepts_eq_isMeant, hm] using ho

end Leading

section Execution

variable {host : Host} (hh : host.Proper) {around : List Breakable} {labels : List String}

/-- A jump that means none of the labels leads past them. -/
theorem leadsIn_enclosed {kind : LoopKind} {c : Abrupt} (h : c.meantFor ⟨labels, kind⟩ = false)
    (h' : c.meantFor ⟨labels, .block⟩ = false) (hc : c.LeadsIn (⟨labels, kind⟩ :: around)) :
    c.LeadsIn (enclosed around labels) := by
  rw [leadsIn_skip h] at hc
  unfold enclosed
  split
  · exact hc
  · exact (leadsIn_skip h').2 hc

theorem loopBody_leads {body : Run Value}
    (hb : body.EndsIn (·.LeadsIn (⟨labels, .loop⟩ :: around))) :
    (loopBody labels body).EndsIn (·.LeadsIn (enclosed around labels)) := by
  refine hb.attempt_bind (fun _ => .pure _) fun c hc => ?_
  match c with
  | .cont none | .brk none => exact .pure _
  | .cont (some l) | .brk (some l) =>
    dsimp only
    split
    · exact .pure _
    · rename_i hl
      have hl : labels.contains l = false := by simpa using hl
      exact .abrupt (leadsIn_enclosed hl hl hc)
  | .ret _ | .throw _ | .fatal _ => exact .abrupt trivial

theorem breakable_leads {body : Run Unit}
    (hb : body.EndsIn (·.LeadsIn (⟨labels, .switch⟩ :: around))) :
    (breakable labels body).EndsIn (·.LeadsIn (enclosed around labels)) := by
  refine hb.attempt_bind (fun _ => .pure _) fun c hc => ?_
  match c with
  | .brk none => exact .pure _
  | .cont none => exact .abrupt (leadsIn_enclosed rfl rfl hc)
  | .brk (some l) =>
    dsimp only
    split
    · exact .pure _
    · rename_i hl
      have hl : labels.contains l = false := by simpa using hl
      exact .abrupt (leadsIn_enclosed hl hl hc)
  | .cont (some l) =>
    have hl : labels.contains l = false := by
      cases hl : labels.contains l with
      | false => rfl
      | true =>
        have hm : Breakable.isMeant (some l) true ⟨labels, .switch⟩ = true := hl
        simp [Abrupt.LeadsIn, JumpSite.leads, JumpSite.target?, hm] at hc
    exact .abrupt (leadsIn_enclosed hl hl hc)
  | .ret _ | .throw _ | .fatal _ => exact .abrupt trivial

theorem whileLoop_leads {test body : Run Value} (ht : test.OnlyThrows)
    (hb : body.EndsIn (·.LeadsIn (⟨labels, .loop⟩ :: around))) (n : Nat) :
    (whileLoop labels test body n).EndsIn (·.LeadsIn (enclosed around labels)) := by
  induction n with
  | zero => exact .exhausted
  | succ n ih =>
    refine (ht.mono fun _ => leadsIn_of_leavesCalls).bind fun v => ?_
    split
    · refine (loopBody_leads hb).bind fun go => ?_
      split
      · exact ih
      · exact .pure _
    · exact .pure _

theorem doLoop_leads {test body : Run Value} (ht : test.OnlyThrows)
    (hb : body.EndsIn (·.LeadsIn (⟨labels, .loop⟩ :: around))) (n : Nat) :
    (doLoop labels test body n).EndsIn (·.LeadsIn (enclosed around labels)) := by
  induction n with
  | zero => exact .exhausted
  | succ n ih =>
    refine (loopBody_leads hb).bind fun go => ?_
    split
    · refine (ht.mono fun _ => leadsIn_of_leavesCalls).bind fun v => ?_
      split
      · exact ih
      · exact .pure _
    · exact .pure _

theorem headLoop_leads {test : ScopeId → Run Bool} {update body : ScopeId → Run Value}
    (ht : ∀ scope, (test scope).OnlyThrows) (hu : ∀ scope, (update scope).OnlyThrows)
    (hb : ∀ scope, (body scope).EndsIn (·.LeadsIn (⟨labels, .loop⟩ :: around))) (ownScope : Bool)
    (n : Nat) (scope : ScopeId) :
    (headLoop labels ownScope test update body n scope).EndsIn
      (·.LeadsIn (enclosed around labels)) := by
  induction n generalizing scope with
  | zero => exact .exhausted
  | succ n ih =>
    refine ((ht scope).mono fun _ => leadsIn_of_leavesCalls).bind fun v => ?_
    split
    · refine (loopBody_leads (hb scope)).bind fun go => ?_
      split
      · have hnext (scope : ScopeId) :=
          ((hu scope).mono fun _ => leadsIn_of_leavesCalls).bind fun _ => ih scope
        dsimp only
        split
        · exact .bind (.edit _) hnext
        · exact hnext scope
      · exact .pure _
    · exact .pure _

include hh

theorem iterationLoop_leads (r : IteratorRecord) {body : Value → Run Value}
    (hb : ∀ v, (body v).EndsIn (·.LeadsIn (⟨labels, .loop⟩ :: around))) (n : Nat) :
    (iterationLoop host labels r body n).EndsIn (·.LeadsIn (enclosed around labels)) := by
  have hclose (throwing : Bool) : (closeIterator host r.iterator throwing).EndsIn
      (·.LeadsIn (enclosed around labels)) :=
    (closeIterator_related hh.related r.iterator throwing).2.mono fun _ => leadsIn_of_leavesCalls
  induction n with
  | zero => exact .exhausted
  | succ n ih =>
    have hstep := (step_related hh.related r).2
    refine (hstep.mono fun _ => leadsIn_of_leavesCalls).bind fun v => ?_
    cases v with
    | none => exact .pure _
    | some v =>
      refine .bind ?_ fun go => ?_
      · refine (loopBody_leads (hb v)).attempt_bind (fun go => ?_) fun c hc => ?_
        · cases go with
          | true => exact .pure _
          | false => exact (hclose false).bind fun _ => .pure _
        · match c with
          | .fatal e => exact .abrupt trivial
          | .throw v => exact (hclose true).bind fun _ => .abrupt trivial
          | .ret _ | .brk _ | .cont _ => exact (hclose false).bind fun _ => .abrupt hc
      · split
        · exact ih
        · exact .pure _

theorem eval_leads (scope : ScopeId) (hint : Option String) (e : Expr) :
    (e.eval host scope hint).EndsIn (·.LeadsIn around) :=
  (eval_onlyThrows hh scope hint e).mono fun _ => leadsIn_of_leavesCalls

omit hh in
theorem enterBlock_leads (scope : ScopeId) (body : List Stmt) :
    (enterBlock scope body : Run ScopeId).EndsIn (·.LeadsIn around) :=
  (enterBlock_related (R := onlyThrows.toEvalRelation) (fun _ => trivial) scope body).2.mono
    fun _ => leadsIn_of_leavesCalls

theorem iterationTurn_leads (scope : ScopeId) (target : ForTarget) (bodyBinds : Bool)
    {body : ScopeId → Run Value} (hb : ∀ inner, (body inner).EndsIn (·.LeadsIn around)) (v : Value) :
    (iterationTurn host scope target bodyBinds body v).EndsIn (·.LeadsIn around) := by
  refine .bind (.edit _) fun inner => .bind ?_ fun _ => hb inner
  exact (target.bind_related hh.related (fun _ => trivial) _ inner v fun _ => hh.suspends).2.mono
    fun _ => leadsIn_of_leavesCalls

theorem enterCatch_leads (scope : ScopeId) (param : Option Pattern) (v : Value) :
    (enterCatch host scope param v).EndsIn (·.LeadsIn around) :=
  (enterCatch_related hh.related (fun _ => trivial) scope param v fun _ => hh.suspends).2.mono
    fun _ => leadsIn_of_leavesCalls

omit hh in
theorem handled_leads {block : Run Value} {handler : Value → Run Value}
    (hb : block.EndsIn (·.LeadsIn around)) (hc : ∀ v, (handler v).EndsIn (·.LeadsIn around))
    {f : Except Abrupt Value → Run Value} (hok : ∀ v, (f (.ok v)).EndsIn (·.LeadsIn around))
    (herror : ∀ c : Abrupt, c.LeadsIn around → (f (.error c)).EndsIn (·.LeadsIn around)) :
    (handled block handler >>= f).EndsIn (·.LeadsIn around) := by
  unfold handled
  rw [bind_assoc]
  refine hb.attempt_bind hok fun c h => ?_
  cases c with
  | throw v => exact (hc v).attempt_bind hok herror
  | ret | brk | cont | fatal => exact herror _ h

omit hh in
theorem finalized_leads {finalizer : Run Value} (hf : finalizer.EndsIn (·.LeadsIn around))
    (r : Except Abrupt Value) (hr : ∀ c, r = .error c → c.LeadsIn around) :
    (finalized r finalizer).EndsIn (·.LeadsIn around) := by
  match r with
  | .error (.fatal e) => exact .abrupt trivial
  | .ok v => exact hf.bind fun _ => .pure v
  | .error (.ret _) | .error (.throw _) | .error (.brk _) | .error (.cont _) =>
    exact hf.bind fun _ => .abrupt (hr _ rfl)

end Execution

theorem leadsIn_labeled {around : List Breakable} {labels : List String} {label : String}
    {c : Abrupt} (h : c.LeadsIn (enclosed around (labels ++ [label])))
    (hc : c ≠ .brk (some label)) : c.LeadsIn (enclosed around labels) := by
  have henclosed : enclosed around (labels ++ [label]) = ⟨labels ++ [label], .block⟩ :: around := by
    simp [enclosed]
  rw [henclosed] at h
  cases hm : c.meantFor ⟨labels ++ [label], .block⟩ with
  | false =>
    rw [leadsIn_skip hm] at h
    unfold enclosed
    split
    · exact h
    · refine (leadsIn_skip ?_).2 h
      cases c with
      | ret | throw | fatal => rfl
      | brk l | cont l =>
        cases l with
        | none => rfl
        | some l =>
          simp [Abrupt.meantFor, Breakable.isMeant] at hm ⊢
          exact hm.1
  | true =>
    cases c with
    | ret | throw | fatal => cases hm
    | cont l =>
      cases l with
      | none => cases hm
      | some l =>
        have hm : Breakable.isMeant (some l) true ⟨labels ++ [label], .block⟩ = true := hm
        simp [Abrupt.LeadsIn, JumpSite.leads, JumpSite.target?, hm] at h
    | brk l =>
      cases l with
      | none => cases hm
      | some l =>
        have hl : l ∈ labels := by
          simp [Abrupt.meantFor, Breakable.isMeant] at hm
          exact hm.resolve_right fun h => hc (by rw [h])
        have hne : labels.isEmpty = false := by cases labels <;> simp_all
        simp [Abrupt.LeadsIn, JumpSite.leads, JumpSite.target?, enclosed, hne, Breakable.isMeant, hl]

mutual

theorem Stmt.exec_leads {host : Host} (hh : host.Proper) : (s : Stmt) →
    (around : List Breakable) → (labels : List String) → (scope : ScopeId) →
    s.jumpsLead around labels = true →
    (s.exec host scope labels).EndsIn (·.LeadsIn (enclosed around labels))
  | .empty, _, _, _, _ | .function _ _, _, _, _, _ => .pure _
  | .expr e, _, _, scope, _ => eval_leads hh scope none e
  | .throw e, _, _, scope, _ => (eval_leads hh scope none e).bind fun _ => .abrupt trivial
  | .ret none, _, _, _, _ => .bind (.pure _) fun _ => .abrupt trivial
  | .ret (some e), _, _, scope, _ => (eval_leads hh scope none e).bind fun _ => .abrupt trivial
  | .declare kind ds, _, _, scope, _ =>
    ((declareAll_related hh.related (fun _ => trivial) scope kind ds fun _ => hh.suspends).2.mono
      fun _ => leadsIn_of_leavesCalls).bind fun _ => .pure _
  | .brk _, _, _, _, h | .cont _, _, _, _, h => .abrupt h
  | .labeled label s, around, labels, scope, h => by
    refine (s.exec_leads hh around (labels ++ [label]) scope h).attempt_bind (fun _ => .pure _)
      fun c hc => ?_
    match c with
    | .brk (some l) =>
      dsimp only
      split
      · exact .pure _
      · rename_i hl
        exact .abrupt (leadsIn_labeled hc (by simpa using hl))
    | .brk none | .cont _ | .ret _ | .throw _ | .fatal _ =>
      exact .abrupt (leadsIn_labeled hc nofun)
  | .block body, around, labels, scope, h =>
    (enterBlock_leads scope body).bind fun inner => execStmts_leads hh body _ inner .undefined h
  | .ifElse t y none, around, labels, scope, h => by
    refine (eval_leads hh scope none t).bind fun v => ?_
    split
    · exact y.exec_leads hh _ [] scope h
    · exact .pure _
  | .ifElse t y (some n), around, labels, scope, h => by
    simp only [Stmt.jumpsLead, Bool.and_eq_true] at h
    refine (eval_leads hh scope none t).bind fun v => ?_
    split
    · exact y.exec_leads hh _ [] scope h.1
    · exact n.exec_leads hh _ [] scope h.2
  | .whileDo t b, around, labels, scope, h =>
    (whileLoop_leads (eval_onlyThrows hh scope none t) (b.exec_leads hh _ [] scope h) _).bind
      fun _ => .pure _
  | .doWhile b t, around, labels, scope, h =>
    (doLoop_leads (eval_onlyThrows hh scope none t) (b.exec_leads hh _ [] scope h) _).bind
      fun _ => .pure _
  | .forLoop i t u b, around, labels, scope, h => by
    have ht (scope : ScopeId) : (evalTest host scope t).OnlyThrows :=
      (evalTest_related hh.related (fun _ => trivial) scope t fun _ => hh.suspends).2
    have hu (scope : ScopeId) : (evalOption host scope u).OnlyThrows :=
      (evalOption_related hh.related (fun _ => trivial) scope u fun _ => hh.suspends).2
    have hi (scope : ScopeId) : (i.exec host scope).OnlyThrows :=
      (i.exec_related hh.related (fun _ => trivial) scope fun _ => hh.suspends).2
    have hrest (scope : ScopeId) := ((hi scope).mono fun _ => leadsIn_of_leavesCalls).bind fun _ =>
      (headLoop_leads ht hu (fun scope => b.exec_leads hh _ [] scope h) i.isScoped host.fuel
        scope).bind fun _ => .pure Value.undefined
    simp only [Stmt.exec]
    split
    · exact .bind (.edit _) hrest
    · exact hrest scope
  | .forIn target e b, around, labels, scope, h => by
    have hb := iterationTurn_leads hh scope target b.bindsHere
      fun inner => b.exec_leads hh _ [] inner h
    refine (eval_leads hh scope none e).bind fun v => .bind ?_ fun r =>
      (iterationLoop_leads hh r hb _).bind fun _ => .pure _
    exact (overKeys_related onlyThrows.toEvalRelation v).2.mono fun _ => leadsIn_of_leavesCalls
  | .forOf target e b false, around, labels, scope, h => by
    have hb := iterationTurn_leads hh scope target b.bindsHere
      fun inner => b.exec_leads hh _ [] inner h
    refine (eval_leads hh scope none e).bind fun v => .bind ?_ fun r =>
      (iterationLoop_leads hh r hb _).bind fun _ => .pure _
    exact (ofValue_related hh.related v).2.mono fun _ => leadsIn_of_leavesCalls
  | .tryCatch b none none, around, labels, scope, h =>
    (enterBlock_leads scope b).bind fun inner => execStmts_leads hh b _ inner .undefined h
  | .tryCatch b none (some f), around, labels, scope, h => by
    simp only [Stmt.jumpsLead, Bool.and_eq_true] at h
    have hb := (enterBlock_leads scope b).bind fun inner =>
      execStmts_leads hh b _ inner .undefined h.1
    have hf := (enterBlock_leads scope f).bind fun inner =>
      execStmts_leads hh f _ inner .undefined h.2
    exact handled_leads hb (fun v => .abrupt (c := .throw v) trivial)
      (fun v => finalized_leads hf _ nofun)
      fun c hc => finalized_leads hf _ fun c' h => by
        cases h
        exact hc
  | .tryCatch b (some (.mk p c)) none, around, labels, scope, h => by
    simp only [Stmt.jumpsLead, Bool.and_eq_true] at h
    have hb := (enterBlock_leads scope b).bind fun inner =>
      execStmts_leads hh b _ inner .undefined h.1
    have hc (v : Value) := (enterCatch_leads hh scope p v).bind fun inner =>
      (enterBlock_leads inner c).bind fun inner => execStmts_leads hh c _ inner .undefined h.2
    exact handled_leads hb hc (fun v => .pure v) fun c hc => .abrupt hc
  | .tryCatch b (some (.mk p c)) (some f), around, labels, scope, h => by
    simp only [Stmt.jumpsLead, Bool.and_eq_true] at h
    have hb := (enterBlock_leads scope b).bind fun inner =>
      execStmts_leads hh b _ inner .undefined h.1.1
    have hc (v : Value) := (enterCatch_leads hh scope p v).bind fun inner =>
      (enterBlock_leads inner c).bind fun inner => execStmts_leads hh c _ inner .undefined h.1.2
    have hf := (enterBlock_leads scope f).bind fun inner =>
      execStmts_leads hh f _ inner .undefined h.2
    exact handled_leads hb hc (fun v => finalized_leads hf _ nofun)
      fun c hc => finalized_leads hf _ fun c' h => by
        cases h
        exact hc
  | .forOf _ _ _ true, _, _, _, _ => (RunOn.EndsIn.throwNew _ _).mono fun _ => leadsIn_of_leavesCalls
  | .switch e cases, around, labels, scope, h => by
    refine (eval_leads hh scope none e).bind fun subject => .bind (.edit _) fun inner => ?_
    refine .bind ?_ fun found => ?_
    · exact (selectCase_related hh.related (fun _ => trivial) inner subject 0 cases
        fun _ => hh.suspends).2.mono fun _ => leadsIn_of_leavesCalls
    · split
      · exact .pure _
      · exact breakable_leads (execCases_leads hh cases _ inner _ h)

theorem execStmts_leads {host : Host} (hh : host.Proper) : (ss : List Stmt) →
    (around : List Breakable) → (scope : ScopeId) → (last : Value) →
    bodyJumpsLead around ss = true →
    (execStmts host scope last ss).EndsIn (·.LeadsIn around)
  | [], _, _, _, _ => .pure _
  | s :: ss, around, scope, last, h => by
    simp only [bodyJumpsLead, Bool.and_eq_true] at h
    exact (s.exec_leads hh around [] scope h.1).bind fun v =>
      execStmts_leads hh ss around scope v h.2

theorem execCases_leads {host : Host} (hh : host.Proper) : (cases : List Case) →
    (around : List Breakable) → (scope : ScopeId) → (skip : Nat) →
    casesJumpsLead around cases = true →
    (execCases host scope skip cases).EndsIn (·.LeadsIn around)
  | [], _, _, _, _ => .pure _
  | .mk _ body :: cases, around, scope, 0, h => by
    simp only [casesJumpsLead, Bool.and_eq_true] at h
    exact (execStmts_leads hh body around scope .undefined h.1).bind fun _ =>
      execCases_leads hh cases around scope 0 h.2
  | .mk _ body :: cases, around, scope, n + 1, h => by
    simp only [casesJumpsLead, Bool.and_eq_true] at h
    exact execCases_leads hh cases around scope n h.2

end

end Resumable
