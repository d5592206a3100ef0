import Resumable.Eval.Expr
import Resumable.Proofs.Lowering.Order

/-!
Composite expressions take their operands from left to right and then act on them. `Expr.taking` says
this apart from the operands themselves, so that others can be put in their place. Main statement:
`eval_withOperands`.
-/

set_option autoImplicit false

namespace Resumable

/-- What a composite expression does with its operands, one after the other. -/
inductive Taking (σ : Type) where
  | done (r : RunOn σ Value)
  | value (hint : Option String) (k : Value → Taking σ)
  /-- All operands that are left are arguments, which give a list of values each. They are evaluated
  when they are asked for. -/
  | args (k : RunOn σ (List (List Value)) → RunOn σ Value)

def Expr.inner : Expr → Expr
  | .spread e => e
  | e => e

section Arguments

variable {σ : Type} [HasWorld σ] (host : HostOn σ) (scope : ScopeId)

def Expr.expand : Expr → Value → RunOn σ (List Value)
  | .spread _, v => do return (← iterate host v).toList
  | _, v => return [v]

def evalArgument (e : Expr) : RunOn σ (List Value) := do
  e.expand host (← e.inner.eval host scope none)

def evalEach : List Expr → RunOn σ (List (List Value))
  | [] => return []
  | e :: es => do
    let vs ← evalArgument host scope e
    return vs :: (← evalEach es)

def fillHoles : List (Option Expr) → List (List Value) → List Value
  | none :: items, vss => .undefined :: fillHoles items vss
  | some _ :: items, vs :: vss => vs ++ fillHoles items vss
  | [], _ | some _ :: _, [] => []

variable {host scope}

theorem evalArgument_of_ne {e : Expr} (h : ∀ d, e ≠ .spread d) :
    evalArgument host scope e = do return [← e.eval host scope none] := by
  cases e with
  | spread d => exact absurd rfl (h d)
  | _ => rfl

theorem evalArgs_cons (e : Expr) (es : List Expr) :
    evalArgs host scope (e :: es) = do
      let vs ← evalArgument host scope e
      return vs ++ (← evalArgs host scope es) := by
  by_cases hs : ∃ d, e = .spread d
  · obtain ⟨d, rfl⟩ := hs
    simp [evalArgs, evalArgument, Expr.expand, Expr.inner]
  · have hne (d : Expr) (hd : e = .spread d) : False := hs ⟨d, hd⟩
    simp [evalArgs.eq_3 _ _ _ _ hne, evalArgument_of_ne hne]

theorem evalItems_cons (e : Expr) (es : List (Option Expr)) :
    evalItems host scope (some e :: es) = do
      let vs ← evalArgument host scope e
      return vs ++ (← evalItems host scope es) := by
  by_cases hs : ∃ d, e = .spread d
  · obtain ⟨d, rfl⟩ := hs
    simp [evalItems, evalArgument, Expr.expand, Expr.inner]
  · have hne (d : Expr) (hd : e = .spread d) : False := hs ⟨d, hd⟩
    simp [evalItems.eq_4 _ _ _ _ hne, evalArgument_of_ne hne]

theorem evalArgs_eq (es : List Expr) :
    evalArgs host scope es = do return (← evalEach host scope es).flatten := by
  induction es with
  | nil => simp [evalArgs, evalEach]
  | cons e es ih => simp [evalArgs_cons, evalEach, ih]

theorem evalItems_eq (items : List (Option Expr)) (es : List Expr)
    (hl : es.length = (items.filterMap id).length) :
    evalItems host scope (refillItems items es) =
      do return fillHoles items (← evalEach host scope es) := by
  induction items generalizing es with
  | nil =>
    obtain rfl := List.length_eq_zero_iff.1 hl
    simp [refillItems, evalItems, evalEach, fillHoles]
  | cons item items ih =>
    cases item with
    | none => simp [refillItems, evalItems, fillHoles, ih es hl]
    | some d =>
      match es, hl with
      | e :: es, hl =>
        simp [refillItems, evalItems_cons, evalEach, fillHoles, ih es (Nat.succ.inj hl)]

end Arguments

namespace Taking

variable {σ : Type} [HasWorld σ] (host : HostOn σ) (scope : ScopeId)

def run : Taking σ → List Expr → RunOn σ Value
  | .done r, _ => r
  | .args k, es => k (evalEach host scope es)
  | .value hint k, e :: es => do
    let v ← e.eval host scope hint
    (k v).run es
  | .value _ _, [] => return .undefined

def ofProperties (finish : Dict Field → RunOn σ Value) : List Property → Dict Field → Taking σ
  | [], fields => .done (finish fields)
  | .mk (.computed _) _ :: ps, fields => .value none fun k => .value (some k.toKey) fun v =>
      ofProperties finish ps (fields.insert k.toKey ⟨v, true, true⟩)
  | .mk (.ident name) _ :: ps, fields | .mk (.str name) _ :: ps, fields =>
    .value (some name) fun v => ofProperties finish ps (fields.insert name ⟨v, true, true⟩)
  | .mk (.num x) _ :: ps, fields => .value (some (Number.text x)) fun v =>
      ofProperties finish ps (fields.insert (Number.text x) ⟨v, true, true⟩)

variable {host scope}

theorem run_ofProperties (finish : Dict Field → RunOn σ Value) (ps : List Property)
    (es : List Expr) (fields : Dict Field) (hl : es.length = (propertyOperands ps).length) :
    (Taking.ofProperties finish ps fields).run host scope es =
      (do
        let fields ← evalProperties host scope fields (refillProperties ps es)
        finish fields) := by
  induction ps generalizing es fields with
  | nil =>
    obtain rfl := List.length_eq_zero_iff.1 hl
    simp [Taking.ofProperties, Taking.run, refillProperties, evalProperties]
  | cons p ps ih =>
    obtain ⟨key, d⟩ := p
    cases key with
    | computed k =>
      obtain ⟨k, es, rfl⟩ := List.exists_cons_of_length_eq_add_one hl
      obtain ⟨v, es, rfl⟩ := List.exists_cons_of_length_eq_add_one (Nat.succ.inj hl)
      have hl := Nat.succ.inj (Nat.succ.inj hl)
      simp [Taking.ofProperties, Taking.run, refillProperties, evalProperties, Key.eval, ih _ _ hl]
    | ident name | str name | num name =>
      obtain ⟨v, es, rfl⟩ := List.exists_cons_of_length_eq_add_one hl
      have hl := Nat.succ.inj hl
      simp [Taking.ofProperties, Taking.run, refillProperties, evalProperties, Key.eval, ih _ _ hl]

end Taking

def Expr.callee : Expr → Expr
  | .call f _ | .new f _ => f
  | e => e

section Composite

variable {σ : Type} [HasWorld σ] (host : HostOn σ) (scope : ScopeId)

/-- Looks up a method and then evaluates the arguments of the call. -/
def methodTaking (callee : Expr) (v : Value) (key : String) : Taking σ :=
  .args fun args => do
    let f ← readMember v key
    let vss ← args
    callChecked host callee f v vss.flatten

/-- What a composite expression does with its operands. An error names the callee. -/
def Expr.taking (e callee : Expr) : Taking σ :=
  match e with
  | .unary op _ => .value none fun v => .done (return op.apply v)
  | .typeof _ => .value none fun v => .done (do return .ofString ((← Run.heap).typeof v))
  | .void _ => .value none fun _ => .done (return .undefined)
  | .await _ => .value none fun v => .done (host.suspend .await (return v))
  | .dot _ name => .value none fun v => .done (readMember v name)
  | .logical op _ r => .value none fun x =>
      .done (if op.decides x then return x else r.eval host scope none)
  | .cond _ y n => .value none fun v =>
      .done (if v.truthy then y.eval host scope none else n.eval host scope none)
  | .binary op _ _ => .value none fun x => .value none fun y => .done (op.apply x y)
  | .index _ _ => .value none fun v => .value none fun k => .done (readMember v k.toKey)
  | .call (.dot _ name) _ => .value none fun v => methodTaking host callee v name
  | .call (.index _ _) _ => .value none fun v => .value none fun k =>
      methodTaking host callee v k.toKey
  | .call _ _ => .value none fun f => .args fun args => do
      let vss ← args
      callChecked host callee f .undefined vss.flatten
  | .new _ _ => .value none fun f => .args fun args => do
      let vss ← args
      construct host callee f vss.flatten
  | .array items => .args fun args => do
      let vss ← args
      return .obj (← Edit.newArray (fillHoles items vss).toArray)
  | .object ps => .ofProperties (fun fields => do
      return .obj (← Edit.alloc ⟨some (← Edit.realm).object, fields, .ordinary⟩)) ps .empty
  | _ => .done (return .undefined)

/-- Whether an expression has such a way with operands. -/
def Expr.takes : Expr → Bool
  | .unary _ _ | .typeof _ | .void _ | .await _ | .dot _ _ | .logical _ _ _ | .cond _ _ _ => true
  | .binary _ _ _ | .index _ _ | .call _ _ | .new _ _ | .array _ | .object _ => true
  | _ => false

/-- Whether the expression does the same with these operands as with its own. -/
def Expr.Fits : Expr → List Expr → Prop
  | .typeof _, [e] => e.look.isName = false
  | .call (.dot _ _) _, _ | .call (.index _ _) _, _ => True
  | .call _ _, f :: _ => f.isMember = false
  | _, _ => True

variable {host scope}

theorem takes_of_composite {inAsync : Bool} {e : Expr} (hc : e.isComposite inAsync)
    (hspread : e.look ≠ .spread) : e.takes = true := by
  cases e with
  | spread => exact absurd rfl hspread
  | _ => first | rfl | simp [Expr.isComposite] at hc

theorem eval_call {f : Expr} (hf : f.isMember = false) (args : List Expr) (hint : Option String) :
    (Expr.call f args).eval host scope hint =
      (do
        let v ← f.eval host scope none
        let args ← evalArgs host scope args
        callChecked host f v .undefined args) := by
  cases f with
  | dot | index => cases hf
  | _ => rfl

theorem eval_typeof {e : Expr} (he : e.look.isName = false) (hint : Option String) :
    (Expr.typeof e).eval host scope hint = do
      let v ← e.eval host scope none
      return .ofString ((← Run.heap).typeof v) := by
  cases e with
  | ident => cases he
  | _ => rfl

theorem taking_call {f : Expr} (hf : f.isMember = false) (callee : Expr) (args : List Expr) :
    (Expr.call f args).taking host scope callee =
      .value none fun v => .args fun args =>
        args >>= fun vss => callChecked host callee v .undefined vss.flatten := by
  cases f with
  | dot | index => cases hf
  | _ => rfl

/-- A composite expression takes its operands and does with them what it does. -/
theorem eval_withOperands (hs : ∀ x, host.suspend .await x = x >>= (host.suspend .await <| pure ·))
    {e : Expr} (he : e.takes = true) {es : List Expr}
    (hl : es.length = e.operands.length) (hfits : e.Fits es) (hint : Option String) :
    (e.withOperands es).eval host scope hint =
      (e.taking host scope (e.withOperands es).callee).run host scope es := by
  cases e with
  | array items =>
    change (do
      let values ← evalItems host scope (refillItems items es)
      return Value.obj (← Edit.newArray values.toArray)) = _
    simp [evalItems_eq items es hl, Expr.taking, Taking.run]
  | object ps =>
    rw [Expr.taking, Taking.run_ofProperties _ _ _ _ hl]
    rfl
  | call f args =>
    rcases f.member_cases with ⟨t, name, rfl⟩ | ⟨t, key, rfl⟩ | hf
    · obtain ⟨t, es, rfl⟩ := List.exists_cons_of_length_eq_add_one hl
      change (do
        let v ← t.eval host scope none
        let f ← readMember v name
        callChecked host (.dot t name) f v (← evalArgs host scope es)) = _
      simp [evalArgs_eq, Expr.taking, methodTaking, Taking.run, Expr.withOperands, Expr.callee]
    · obtain ⟨t, es, rfl⟩ := List.exists_cons_of_length_eq_add_one hl
      obtain ⟨k, es, rfl⟩ := List.exists_cons_of_length_eq_add_one (Nat.succ.inj hl)
      change (do
        let v ← t.eval host scope none
        let key ← k.eval host scope none
        let f ← readMember v key.toKey
        callChecked host (.index t k) f v (← evalArgs host scope es)) = _
      simp [evalArgs_eq, Expr.taking, methodTaking, Taking.run, Expr.withOperands, Expr.callee]
    · rw [operands_call f args hf] at hl
      obtain ⟨g, es, rfl⟩ := List.exists_cons_of_length_eq_add_one hl
      have hg : g.isMember = false := by cases f <;> first | exact hfits | cases hf
      rw [withOperands_call f args hf, eval_call hg, taking_call hf]
      simp [Taking.run, Expr.callee, evalArgs_eq]
  | new f args =>
    obtain ⟨g, es, rfl⟩ := List.exists_cons_of_length_eq_add_one hl
    change (do
      let v ← g.eval host scope none
      construct host g v (← evalArgs host scope es)) = _
    simp [evalArgs_eq, Expr.taking, Taking.run, Expr.withOperands, Expr.callee]
  | binary op l r | index l r =>
    obtain ⟨l, es, rfl⟩ := List.exists_cons_of_length_eq_add_one hl
    obtain ⟨r, rfl⟩ := List.length_eq_one_iff.1 (Nat.succ.inj hl)
    rfl
  | typeof d =>
    obtain ⟨d, rfl⟩ := List.length_eq_one_iff.1 hl
    have hd : d.look.isName = false := hfits
    exact eval_typeof hd hint
  | await d =>
    obtain ⟨d, rfl⟩ := List.length_eq_one_iff.1 hl
    exact hs _
  | logical op d r | cond d y n | unary op d | void d | dot d name =>
    obtain ⟨d, rfl⟩ := List.length_eq_one_iff.1 hl
    rfl
  | _ => cases he

end Composite

end Resumable
