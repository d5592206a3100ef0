import Resumable.Proofs.Lowering.Operands
import Resumable.Proofs.Lowering.Size

/-!
Evaluation in two stages. The first stage of an expression goes past its last suspension and gives the
second, which is what is left to run. An operand that stands before a suspending one is evaluated whole
in the first stage; what is done with the operands belongs to the second. So a method whose arguments
suspend is looked up after the suspensions. Main statement: `Expr.stage_whole`: all else is evaluated
as ever.
-/

set_option autoImplicit false

namespace Resumable

theorem sizeOf_inner (e : Expr) : sizeOf e.inner ≤ sizeOf e := by
  cases e with
  | spread e =>
    rw [Expr.spread.sizeOf_spec]
    exact Nat.le_add_left ..
  | _ => exact Nat.le_refl _

section Stages

variable {σ α : Type}

def whole (x : RunOn σ (RunOn σ α)) : RunOn σ α := do
  let y ← x
  y

@[simp] theorem whole_pure (y : RunOn σ α) : whole (pure y) = y := by
  simp [whole]

@[simp] theorem whole_bind {β : Type} (x : RunOn σ β) (f : β → RunOn σ (RunOn σ α)) :
    whole (x >>= f) = x >>= fun b => whole (f b) := by
  simp [whole]

@[simp] theorem whole_map {β : Type} (x : RunOn σ β) (f : β → RunOn σ α) :
    whole (f <$> x) = x >>= f := by
  simp [whole]

def settleStage (later : Bool) (y : RunOn σ α) : RunOn σ (RunOn σ α) := do
  if later then return pure (← y) else return y

/-- The stages of an assignment, for the operator of which the old value is read first. -/
def combineStages (op : AssignOp) (old : RunOn σ Value) (x : RunOn σ (RunOn σ Value)) [HasWorld σ] :
    RunOn σ (RunOn σ Value) :=
  match op.binary? with
  | none => x
  | some op => do
    let l ← old
    let y ← x
    return do op.apply l (← y)

end Stages

variable {σ : Type} [HasWorld σ] (inAsync : Bool) (host : HostOn σ) (scope : ScopeId)

mutual

/-- The stages of an expression. One that does not suspend is left to the second stage. -/
def Expr.stage (hint : Option String) (e : Expr) : RunOn σ (RunOn σ Value) :=
  if !e.hasSuspend inAsync then return e.eval host scope hint
  else match e with
  | .yield none => do
    let v ← host.suspend .yield (pure .undefined)
    return pure v
  | .yieldStar none => do
    let v ← host.suspend .delegate (pure .undefined)
    return pure v
  | .yield (some d) => do
    let v ← host.suspend .yield (whole (d.stage none))
    return pure v
  | .yieldStar (some d) => do
    let v ← host.suspend .delegate (whole (d.stage none))
    return pure v
  | .await d => do
    if inAsync then
      let v ← host.suspend .await (whole (d.stage none))
      return pure v
    else
      let y ← d.stage none
      return host.suspend .await y
  | .assign .set (.ident name) d => do
    let y ← d.stage (some name)
    return assignName .set scope name y
  | .assign op (.ident name) d => do
    let y ← combineStages op (readName scope name) (d.stage none)
    return assignName .set scope name y
  | .assign op (.dot t name) d => do
    let v ← t.eval host scope none
    let y ← combineStages op (readMember v name) (d.stage none)
    return assignMember .set v name y
  | .assign op (.index t k) d => do
    let v ← t.eval host scope none
    let key ← k.eval host scope none
    let y ← combineStages op (readMember v key.toKey) (d.stage none)
    return assignMember .set v key.toKey y
  | .seq items => stageSeq items
  | .assign _ _ _ | .update _ _ _ | .spread _ => return e.eval host scope hint
  | e => stageOperands (e.taking host scope e.callee) e.operands
termination_by 3 * sizeOf e
decreasing_by
  all_goals first
    | have hlt := totalSize_operands e
      omega
    | have hlt := totalSize_lt items
      simp only [Expr.seq.sizeOf_spec]
      omega
    | simp <;> omega

def stageOperands : Taking σ → List Expr → RunOn σ (RunOn σ Value)
  | .done r, _ => return r
  | .args k, es => do
    let y ← stageEach es
    return k y
  | .value hint k, e :: es => do
    let y ← e.stage hint
    if listHasSuspend inAsync es then stageOperands (k (← y)) es
    else return do (k (← y)).run host scope es
  | .value _ _, [] => return pure .undefined
termination_by _ es => 3 * totalSize es + 2
decreasing_by
  · omega
  · simp only [totalSize_cons]
    omega
  · have hpos := sizeOf_pos e
    simp only [totalSize_cons]
    omega

def stageEach : List Expr → RunOn σ (RunOn σ (List (List Value)))
  | [] => return pure []
  | e :: es => do
    let y ← e.inner.stage none
    let y ← settleStage (listHasSuspend inAsync es) (do e.expand host (← y))
    let ys ← stageEach es
    return do
      let vs ← y
      return vs :: (← ys)
termination_by es => 3 * totalSize es + 1
decreasing_by
  · have hle := sizeOf_inner e
    simp only [totalSize_cons]
    omega
  · have hpos := sizeOf_pos e
    simp only [totalSize_cons]
    omega

/-- A sequence: items before the last suspending one, and that one, are evaluated whole. -/
def stageSeq : List Expr → RunOn σ (RunOn σ Value)
  | [] => return pure .undefined
  | [e] => e.stage none
  | e :: d :: es => do
    let _ ← whole (e.stage none)
    if listHasSuspend inAsync (d :: es) then stageSeq (d :: es)
    else return evalSeq host scope .undefined (d :: es)
termination_by es => 3 * totalSize es + 1
decreasing_by
  · simp
  · simp only [totalSize_cons]
    omega
  · have hpos := sizeOf_pos e
    simp only [totalSize_cons]
    omega

end

section Late

mutual

/-- Whether a method call inside has arguments that suspend. -/
def Expr.looksUpLate : Expr → Bool
  | .null | .bool _ | .num _ | .str _ | .ident _ | .this => false
  | .function _ _ | .arrow _ | .lambda _ _ _ | .yield none | .yieldStar none => false
  | .yield (some e) | .yieldStar (some e) | .await e | .spread e => e.looksUpLate
  | .unary _ e | .typeof e | .void e | .dot e _ | .update _ _ e => e.looksUpLate
  | .binary _ l r | .index l r | .logical _ l r | .assign _ l r => l.looksUpLate || r.looksUpLate
  | .cond t y n => t.looksUpLate || y.looksUpLate || n.looksUpLate
  | .call f args =>
    f.isMember && listHasSuspend inAsync args || f.looksUpLate || listLooksUpLate args
  | .new f args => f.looksUpLate || listLooksUpLate args
  | .array items => itemsLookUpLate items
  | .object ps => propertiesLookUpLate ps
  | .seq items => listLooksUpLate items

def listLooksUpLate : List Expr → Bool
  | [] => false
  | e :: es => e.looksUpLate || listLooksUpLate es

def itemsLookUpLate : List (Option Expr) → Bool
  | [] => false
  | none :: es => itemsLookUpLate es
  | some e :: es => e.looksUpLate || itemsLookUpLate es

def propertiesLookUpLate : List Property → Bool
  | [] => false
  | .mk (.computed k) e :: ps => k.looksUpLate || e.looksUpLate || propertiesLookUpLate ps
  | .mk _ e :: ps => e.looksUpLate || propertiesLookUpLate ps

end

/-- Whether arguments that suspend are evaluated at once when they are asked for. -/
def Taking.Prompt : Taking σ → List Expr → Prop
  | .done _, _ | .value _ _, [] => True
  | .args k, es => listHasSuspend inAsync es = false ∨ ∀ y, k y = y >>= fun vss => k (pure vss)
  | .value _ k, _ :: es => ∀ v, (k v).Prompt es

end Late

section Whole

variable {inAsync host scope}

theorem stage_plain {e : Expr} (h : e.hasSuspend inAsync = false) (hint : Option String) :
    e.stage inAsync host scope hint = pure (e.eval host scope hint) := by
  rw [Expr.stage.eq_def, h]
  rfl

theorem stageEach_plain {es : List Expr} (h : listHasSuspend inAsync es = false) :
    stageEach inAsync host scope es = pure (evalEach host scope es) := by
  induction es with
  | nil => rw [stageEach, evalEach]
  | cons e es ih =>
    obtain ⟨he, hes⟩ := Bool.or_eq_false_iff.1 ((listHasSuspend_cons ..).symm.trans h)
    have hinner : e.inner.hasSuspend inAsync = false := by
      cases e <;> exact he
    simp [stageEach, evalEach, evalArgument, stage_plain hinner, settleStage, hes, ih hes]

section Composite

variable (hs : ∀ x, host.suspend .await x = x >>= (host.suspend .await <| pure ·))

include hs

theorem stage_operands {e : Expr} (he : e.hasSuspend inAsync = true) (ht : e.takes = true)
    (hawait : ∀ d, e = .await d → inAsync = false) (hint : Option String) :
    e.stage inAsync host scope hint =
      stageOperands inAsync host scope (e.taking host scope e.callee) e.operands := by
  rw [Expr.stage.eq_def, he]
  cases e with
  | await d =>
    obtain rfl := hawait d rfl
    have hnone : listHasSuspend false [] = false := rfl
    simp only [Expr.taking, Expr.operands, stageOperands, hnone, Taking.run]
    simp [← hs]
  | unary | typeof | void | dot | binary | index | call | new | array | object | logical | cond => rfl
  | _ => cases ht

end Composite

theorem stageEach_whole {es : List Expr}
    (h : ∀ d ∈ es, whole (d.inner.stage inAsync host scope none) = d.inner.eval host scope none) :
    whole (stageEach inAsync host scope es) = evalEach host scope es := by
  induction es with
  | nil => simp [stageEach, evalEach]
  | cons e es ih =>
    obtain ⟨he, hes⟩ := List.forall_mem_cons.1 h
    have he : (e.inner.stage inAsync host scope none >>= fun y => y) = e.inner.eval host scope none := he
    cases hl : listHasSuspend inAsync es with
    | true =>
      have ih : (stageEach inAsync host scope es >>= fun y => y) = evalEach host scope es := ih hes
      simp [stageEach, evalEach, evalArgument, settleStage, hl, ← he, ← ih]
    | false =>
      simp [stageEach, evalEach, evalArgument, settleStage, hl, ← he, stageEach_plain hl]

theorem stageOperands_whole {es : List Expr} (t : Taking σ) (ht : t.Prompt inAsync es)
    (h : ∀ d ∈ es, ∀ hint, whole (d.stage inAsync host scope hint) = d.eval host scope hint ∧
      whole (d.inner.stage inAsync host scope hint) = d.inner.eval host scope hint) :
    whole (stageOperands inAsync host scope t es) = t.run host scope es := by
  induction es generalizing t with
  | nil =>
    cases t with
    | done r => simp [stageOperands, Taking.run]
    | value => simp [stageOperands, Taking.run]
    | args k => simp [stageOperands, Taking.run, stageEach, evalEach]
  | cons e es ih =>
    obtain ⟨he, hes⟩ := List.forall_mem_cons.1 h
    cases t with
    | done r => simp [stageOperands, Taking.run]
    | value hint k =>
      have he : (e.stage inAsync host scope hint >>= fun y => y) = e.eval host scope hint := (he hint).1
      cases hl : listHasSuspend inAsync es with
      | true =>
        simp [stageOperands, Taking.run, hl, ← he, ih _ (ht _) hes]
      | false => simp [stageOperands, Taking.run, hl, ← he]
    | args k =>
      have heach := stageEach_whole fun d hd => (h d hd none).2
      obtain hplain | hprompt := ht
      · simp [stageOperands, Taking.run, stageEach_plain hplain]
      · have heach : (stageEach inAsync host scope (e :: es) >>= fun y => y) = _ := heach
        rw [Taking.run, hprompt, ← heach]
        simp only [stageOperands, whole_bind, whole_pure, bind_assoc]
        exact bind_congr hprompt

theorem mem_propertyOperands {ps : List Property} (h : propertiesLookUpLate inAsync ps = false) :
    ∀ d ∈ propertyOperands ps, d.looksUpLate inAsync = false := by
  induction ps with
  | nil => exact nofun
  | cons p ps ih =>
    obtain ⟨key, v⟩ := p
    cases key with
    | computed k =>
      simp only [propertiesLookUpLate, Bool.or_eq_false_iff] at h
      exact List.forall_mem_cons.2 ⟨h.1.1, List.forall_mem_cons.2 ⟨h.1.2, ih h.2⟩⟩
    | ident | str | num =>
      simp only [propertiesLookUpLate, Bool.or_eq_false_iff] at h
      exact List.forall_mem_cons.2 ⟨h.1, ih h.2⟩

theorem listLooksUpLate_eq_false {es : List Expr} :
    listLooksUpLate inAsync es = false ↔ ∀ d ∈ es, d.looksUpLate inAsync = false := by
  induction es with
  | nil => simp [listLooksUpLate]
  | cons e es ih => simp [listLooksUpLate, ih]

theorem itemsLookUpLate_eq_false {items : List (Option Expr)} :
    itemsLookUpLate inAsync items = false ↔
      ∀ d ∈ items.filterMap id, d.looksUpLate inAsync = false := by
  induction items with
  | nil => simp [itemsLookUpLate]
  | cons item items ih => cases item <;> simp [itemsLookUpLate, ih]

theorem operands_looksUpLate {e : Expr} (h : e.looksUpLate inAsync = false) :
    ∀ d ∈ e.operands, d.looksUpLate inAsync = false := by
  cases e with
  | array items => exact itemsLookUpLate_eq_false.1 h
  | object ps => exact mem_propertyOperands h
  | call f args =>
    simp only [Expr.looksUpLate, Bool.or_eq_false_iff, listLooksUpLate_eq_false] at h
    rcases f.member_cases with ⟨t, name, rfl⟩ | ⟨t, key, rfl⟩ | hf
    · exact List.forall_mem_cons.2 ⟨h.1.2, h.2⟩
    · obtain ⟨ht, hk⟩ := Bool.or_eq_false_iff.1 h.1.2
      exact List.forall_mem_cons.2 ⟨ht, List.forall_mem_cons.2 ⟨hk, h.2⟩⟩
    · rw [operands_call f args hf]
      exact List.forall_mem_cons.2 ⟨h.1.2, h.2⟩
  | new f args =>
    simp only [Expr.looksUpLate, Bool.or_eq_false_iff, listLooksUpLate_eq_false] at h
    exact List.forall_mem_cons.2 h
  | binary op l r | index l r =>
    simpa [Expr.operands, Expr.looksUpLate] using h
  | unary op d | typeof d | void d | spread d | await d | dot d => exact List.forall_mem_singleton.2 h
  | logical op l r =>
    exact List.forall_mem_singleton.2 (Bool.or_eq_false_iff.1 h).1
  | cond t y n =>
    simp only [Expr.looksUpLate, Bool.or_eq_false_iff] at h
    exact List.forall_mem_singleton.2 h.1.1
  | _ => rintro _ ⟨⟩

/-- Only a method call looks something up before its arguments. -/
theorem taking_prompt {e : Expr} (h : e.looksUpLate inAsync = false) :
    (e.taking host scope e.callee).Prompt inAsync e.operands := by
  have hproperties : ∀ (finish : Dict Field → RunOn σ Value) ps fields,
      (Taking.ofProperties finish ps fields).Prompt inAsync (propertyOperands ps) := by
    intro finish ps
    induction ps with
    | nil => exact fun _ => trivial
    | cons p ps ih =>
      obtain ⟨key, v⟩ := p
      cases key with
      | computed => exact fun _ _ _ => ih _
      | ident | str | num => exact fun _ _ => ih _
  cases e with
  | object ps => exact hproperties _ ps .empty
  | call f args =>
    simp only [Expr.looksUpLate, Bool.or_eq_false_iff, Bool.and_eq_false_iff] at h
    rcases f.member_cases with ⟨t, name, rfl⟩ | ⟨t, key, rfl⟩ | hf
    · exact fun _ => .inl (h.1.1.resolve_left (by rintro ⟨⟩))
    · exact fun _ _ => .inl (h.1.1.resolve_left (by rintro ⟨⟩))
    · rw [taking_call hf, operands_call f args hf]
      exact fun _ => .inr fun y => by simp
  | new f args => exact fun _ => .inr fun y => by simp
  | array items => exact .inr fun y => by simp
  | unary | typeof | void | await | dot | logical | cond => exact fun _ => trivial
  | binary | index => exact fun _ _ => trivial
  | _ => trivial

theorem refillItems_self (items : List (Option Expr)) :
    refillItems items (items.filterMap id) = items := by
  induction items with
  | nil => rfl
  | cons item items ih => cases item <;> exact congrArg _ ih

theorem refillProperties_self (ps : List Property) :
    refillProperties ps (propertyOperands ps) = ps := by
  induction ps with
  | nil => rfl
  | cons p ps ih =>
    obtain ⟨key, v⟩ := p
    cases key <;> exact congrArg _ ih

theorem withOperands_self (e : Expr) : e.withOperands e.operands = e := by
  cases e with
  | array items => exact congrArg Expr.array (refillItems_self items)
  | object ps => exact congrArg Expr.object (refillProperties_self ps)
  | call f args => cases f <;> rfl
  | _ => rfl

theorem evalSeq_from (last other : Value) (e : Expr) (es : List Expr) :
    evalSeq host scope last (e :: es) = evalSeq host scope other (e :: es) := by
  rw [evalSeq, evalSeq]

theorem stageSeq_whole {es : List Expr} (hne : es ≠ [])
    (h : ∀ d ∈ es, whole (d.stage inAsync host scope none) = d.eval host scope none) :
    whole (stageSeq inAsync host scope es) = evalSeq host scope .undefined es := by
  induction es with
  | nil => exact absurd rfl hne
  | cons e es ih =>
    obtain ⟨he, hes⟩ := List.forall_mem_cons.1 h
    cases es with
    | nil => simp [stageSeq, evalSeq, he]
    | cons d es =>
      simp only [stageSeq, whole_bind, he]
      rw [evalSeq]
      refine bind_congr fun v => ?_
      rw [evalSeq_from v .undefined]
      split
      · exact ih (List.cons_ne_nil _ _) hes
      · exact whole_pure _

theorem assignName_stages (op : AssignOp) (name : String) (x : RunOn σ (RunOn σ Value)) :
    whole (do
      let y ← combineStages op (readName scope name) x
      return assignName .set scope name y) = assignName op scope name (whole x) := by
  unfold assignName combineStages combine
  cases op.binary? <;> simp [whole, AssignOp.binary?]

theorem assignMember_stages (op : AssignOp) (v : Value) (key : String) (x : RunOn σ (RunOn σ Value)) :
    whole (do
      let y ← combineStages op (readMember v key) x
      return assignMember .set v key y) = assignMember op v key (whole x) := by
  unfold assignMember combineStages combine
  cases op.binary? <;> simp [whole, AssignOp.binary?]

theorem inner_looksUpLate (e : Expr) : e.inner.looksUpLate inAsync = e.looksUpLate inAsync := by
  cases e <;> rfl

theorem fits_self {e : Expr} (he : e.hasSuspend inAsync = true) : e.Fits e.operands := by
  cases e with
  | typeof d =>
    cases d with
    | function name => cases name <;> rfl
    | ident => cases he
    | _ => rfl
  | call f args => cases f <;> trivial
  | _ => trivial

/-- One stage after the other is the evaluation of the expression, unless a method is looked up late. -/
theorem Expr.stage_whole (hs : ∀ x, host.suspend .await x = x >>= (host.suspend .await <| pure ·))
    (e : Expr) (hint : Option String) (h : e.looksUpLate inAsync = false) :
    whole (e.stage inAsync host scope hint) = e.eval host scope hint := by
  induction hn : sizeOf e using Nat.strongRecOn generalizing e hint with
  | ind n ih =>
    subst hn
    cases he : e.hasSuspend inAsync with
    | false => rw [stage_plain he, whole_pure]
    | true =>
      have htakes (ht : e.takes = true) (hawait : ∀ d, e = .await d → inAsync = false) :
          whole (e.stage inAsync host scope hint) = e.eval host scope hint := by
        have hoperands : ∀ d ∈ e.operands, ∀ hint,
            whole (d.stage inAsync host scope hint) = d.eval host scope hint ∧
            whole (d.inner.stage inAsync host scope hint) = d.inner.eval host scope hint := by
          intro d hd hint
          have hlt := Nat.lt_of_le_of_lt (le_totalSize hd) (totalSize_operands e)
          have hlate := operands_looksUpLate h d hd
          refine ⟨ih _ hlt d hint hlate rfl, ?_⟩
          exact ih _ (Nat.lt_of_le_of_lt (sizeOf_inner d) hlt) _ hint
            ((inner_looksUpLate d).trans hlate) rfl
        rw [stage_operands hs he ht hawait, stageOperands_whole _ (taking_prompt h) hoperands]
        conv => rhs; rw [← withOperands_self e]
        rw [eval_withOperands hs ht rfl (fits_self he), withOperands_self]
      have hvalue (x : RunOn σ Value) : whole (do return pure (← x)) = x := by simp
      have hpart (d : Expr) (hlt : sizeOf d < sizeOf e) (hlate : d.looksUpLate inAsync = false)
          (hint : Option String) := ih _ hlt d hint hlate rfl
      cases e with
      | unary | typeof | void | dot | binary | index | call | new | array | object | logical | cond =>
        exact htakes rfl nofun
      | await d =>
        cases hasync : inAsync with
        | false => exact hasync ▸ htakes rfl fun _ _ => hasync
        | true =>
          subst hasync
          rw [Expr.stage.eq_def, he]
          simp only [hpart d (by simp) h]
          exact hvalue _
      | yield d | yieldStar d =>
        rw [Expr.stage.eq_def, he]
        cases d with
        | none => exact hvalue _
        | some d =>
          simp only [hpart d (by simp; omega) h]
          exact hvalue _
      | seq items =>
        rw [Expr.stage.eq_def, he]
        have hne : items ≠ [] := by
          rintro rfl
          cases he
        refine stageSeq_whole hne fun d hd => hpart d ?_ (listLooksUpLate_eq_false.1 h d hd) none
        have hle := le_totalSize hd
        have hlt := totalSize_lt items
        simp only [Expr.seq.sizeOf_spec]
        omega
      | assign op target value =>
        have hvalue := hpart value (by rw [Expr.assign.sizeOf_spec]; omega) (Bool.or_eq_false_iff.1 h).2
        rw [Expr.stage.eq_def, he]
        cases target with
        | ident name =>
          cases op with
          | set => exact (assignName_stages .set name _).trans (congrArg _ (hvalue (some name)))
          | _ => exact (assignName_stages ..).trans (congrArg _ (hvalue none))
        | dot t name =>
          have hassign (op : AssignOp) (v : Value) :=
            (assignMember_stages op v name _).trans (congrArg _ (hvalue none))
          cases op <;> exact (whole_bind ..).trans (bind_congr fun v => hassign _ v)
        | index t k =>
          have hassign (op : AssignOp) (v key : Value) :=
            (assignMember_stages op v key.toKey _).trans (congrArg _ (hvalue none))
          cases op <;> exact (whole_bind ..).trans (bind_congr fun v => (whole_bind ..).trans
            (bind_congr fun key => hassign _ v key))
        | _ => cases op <;> exact whole_pure _
      | update | spread =>
        rw [Expr.stage.eq_def, he]
        exact whole_pure _
      | _ => cases he

end Whole

section Effects

variable {σ α : Type} [HasWorld σ] (inAsync : Bool) (host : HostOn σ) (scope : ScopeId)

/-- Expressions for their effects, each in both stages. -/
def stageEffects : List Expr → RunOn σ Unit
  | [] => return ()
  | e :: es => do
    let _ ← whole (e.stage inAsync host scope none)
    stageEffects es

variable {inAsync host scope}

theorem evalSeq_effects {es : List Expr} (h : listHasSuspend inAsync es = false) (last : Value)
    (x : RunOn σ α) : (do let _ ← evalSeq host scope last es; x) =
      (do stageEffects inAsync host scope es; x) := by
  induction es generalizing last with
  | nil => simp [evalSeq, stageEffects]
  | cons e es ih =>
    obtain ⟨he, hes⟩ := Bool.or_eq_false_iff.1 ((listHasSuspend_cons ..).symm.trans h)
    simp [evalSeq, stageEffects, stage_plain he, ih hes]

theorem stageSeq_effects (es : List Expr) (x : RunOn σ α) :
    (do let _ ← whole (stageSeq inAsync host scope es); x) =
      (do stageEffects inAsync host scope es; x) := by
  induction es with
  | nil => simp [stageSeq, stageEffects]
  | cons e es ih =>
    cases es with
    | nil => simp [stageSeq, stageEffects]
    | cons d es =>
      rw [stageSeq, stageEffects]
      simp only [whole_bind, bind_assoc]
      refine bind_congr fun _ => ?_
      split
      · exact ih
      · rename_i hes
        rw [whole_pure]
        exact evalSeq_effects (Bool.eq_false_iff.2 hes) _ x

theorem stage_seq_effects (es : List Expr) (x : RunOn σ α) :
    (do let _ ← whole ((Expr.seq es).stage inAsync host scope none); x) =
      (do stageEffects inAsync host scope es; x) := by
  cases hs : (Expr.seq es).hasSuspend inAsync with
  | false =>
    rw [stage_plain hs, whole_pure]
    exact evalSeq_effects hs _ x
  | true =>
    rw [Expr.stage.eq_def, hs]
    exact stageSeq_effects es x

end Effects

end Resumable
