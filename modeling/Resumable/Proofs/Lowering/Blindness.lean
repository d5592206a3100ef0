import Resumable.Proofs.Lowering.Spilling

/-!
Code without slots of its own, on both sides of lowering. Whatever waits in the slots, it evaluates to
the same, and a composite expression does the same with its operands. Only the name under which a callee
is refused may differ. Main statements: `Private.Blind.taking`, `Private.Blind.run`.
-/

set_option autoImplicit false

namespace Resumable

namespace Private

variable {p : Private} {host : Host}

theorem follows_of_awaits {α : Type} {x y : RunOn Dialogue α} (h : ∀ t, p.Awaits [] t x y) :
    p.Follows x y := fun s s' hs => h s' s s' hs nofun

section Runs

variable (hb : p.Blind host)
include hb

theorem Blind.eval {e : Expr} (hn : ∀ x ∈ e.uses, isSlotName x = false) (scope : ScopeId)
    (hint : Option String) : p.Follows (e.eval (answering host) scope hint)
      (e.eval (answering host) scope hint) :=
  (e.eval_related hb.related scope hint ⟨fun _ => Blind.suspends, hn⟩).follows

theorem Blind.evalSeq {es : List Expr} (hn : ∀ x ∈ listUses es, isSlotName x = false)
    (scope : ScopeId) (last : Value) : p.Follows (evalSeq (answering host) scope last es)
      (evalSeq (answering host) scope last es) :=
  (evalSeq_related hb.related scope last es ⟨fun _ => Blind.suspends, hn⟩).follows

theorem Blind.expand (e : Expr) (v : Value) :
    p.Follows (e.expand (answering host) v) (e.expand (answering host) v) := by
  cases e with
  | spread => exact (Unseen.bind (iterate_related hb.related v) fun _ => .pure _).follows
  | _ => exact (Unseen.pure _).follows

theorem Blind.evalEach {es : List Expr} (hn : ∀ x ∈ listUses es, isSlotName x = false)
    (scope : ScopeId) : p.Follows (evalEach (answering host) scope es)
      (evalEach (answering host) scope es) := by
  induction es with
  | nil => exact (Unseen.pure _).follows
  | cons e es ih =>
    have hinner (x : String) (hx : x ∈ e.inner.uses) : isSlotName x = false :=
      hn x (List.mem_append_left _ (by cases e <;> exact hx))
    refine .bind (.bind (hb.eval hinner scope none) fun v => hb.expand e v) fun vs => ?_
    exact (ih fun x hx => hn x (List.mem_append_right _ hx)).bind fun vss => (Unseen.pure _).follows

/-- A callee that cannot be called is refused under its name. -/
theorem Blind.callChecked (callee other : Expr) (f receiver : Value) (args : List Value) :
    p.Follows (callChecked (answering host) callee f receiver args)
      (callChecked (answering host) other f receiver args) := by
  refine (p.unseen.heap : p.Unseen _ _).follows.bind fun h => ?_
  dsimp only
  split
  · exact (hb.related.call f receiver args).follows
  · exact fun _ _ hs => ⟨.notFunction callee other hs, nofun⟩

theorem Blind.construct (callee other : Expr) (f : Value) (args : List Value) :
    p.Follows (construct (answering host) callee f args)
      (construct (answering host) other f args) := by
  refine (p.unseen.heap : p.Unseen _ _).follows.bind fun h => ?_
  dsimp only
  split
  · exact (hb.related.call _ _ _).follows
  · have hmade (proto : ObjectId) : p.Unseen (do
        let receiver := Value.obj (← Edit.newObject (some proto))
        let result ← (answering host).call f receiver args
        return if result.isObject then result else receiver : RunOn Dialogue Value) (do
        let receiver := Value.obj (← Edit.newObject (some proto))
        let result ← (answering host).call f receiver args
        return if result.isObject then result else receiver) :=
      .bind (p.unseen.edit _ (newObject_local _) (newObject_calm _)) fun _ =>
        .bind (hb.related.call _ _ _) fun _ => .pure _
    split
    · exact (hmade _).follows
    · exact (Unseen.bind (p.unseen.edit _ realm_local realm_calm) fun _ => hmade _).follows
  · exact fun _ _ hs => ⟨.notConstructor callee other hs, nofun⟩

end Runs

/-- Whether operands are taken alike, and in the end the same is done with them. -/
inductive Tracks (p : Private) : Taking Dialogue → Taking Dialogue → Prop where
  | done {r r' : RunOn Dialogue Value} : p.Follows r r' → Tracks p (.done r) (.done r')
  | value {hint : Option String} {k k' : Value → Taking Dialogue} :
    (∀ v, Tracks p (k v) (k' v)) → Tracks p (.value hint k) (.value hint k')
  | args {k k' : RunOn Dialogue (List (List Value)) → RunOn Dialogue Value} :
    (∀ slots t y y', p.Awaits slots t y y' → p.Awaits slots t (k y) (k' y')) →
    Tracks p (.args k) (.args k')

theorem Tracks.ofValues {f f' : List (List Value) → RunOn Dialogue Value}
    (h : ∀ vss, p.Follows (f vss) (f' vss)) : p.Tracks (.args (· >>= f)) (.args (· >>= f')) :=
  .args fun _ _ _ _ hy => hy.bind fun vss => .ofFollows (h vss)

theorem Tracks.ofProperties {finish finish' : Dict Field → RunOn Dialogue Value}
    (h : ∀ fields, p.Follows (finish fields) (finish' fields)) (ps : List Property)
    (fields : Dict Field) :
    p.Tracks (.ofProperties finish ps fields) (.ofProperties finish' ps fields) := by
  induction ps generalizing fields with
  | nil => exact .done (h fields)
  | cons q _ ih =>
    obtain ⟨key, _⟩ := q
    cases key with
    | computed => exact .value fun _ => .value fun _ => ih _
    | ident | str | num => exact .value fun _ => ih _

section Composite

variable (hb : p.Blind host)
include hb

theorem Blind.methodTaking (callee other : Expr) (v : Value) (key : String) :
    p.Tracks (methodTaking (answering host) callee v key)
      (methodTaking (answering host) other v key) := by
  refine .args fun _ _ _ _ hy => ?_
  have hread : p.Follows (readMember v key) (readMember v key) :=
    (readMember_related p.unseen v key).follows
  exact .bind (.ofFollows hread) fun f => hy.bind fun vss =>
    .ofFollows (hb.callChecked callee other f v vss.flatten)

/-- A composite expression does the same with its operands under any name of the callee. -/
theorem Blind.taking (scope : ScopeId) {e : Expr} (hn : ∀ x ∈ e.uses, isSlotName x = false)
    (callee other : Expr) :
    p.Tracks (e.taking (answering host) scope callee) (e.taking (answering host) scope other) := by
  have hheap : p.Unseen Run.heap Run.heap := p.unseen.heap
  cases e with
  | unary | void => exact .value fun v => .done (Unseen.pure _).follows
  | typeof => exact .value fun v => .done (hheap.bind fun _ => .pure _).follows
  | await => exact .value fun v => .done (Unseen.bind (.pure v) fun v => .answer _ v).follows
  | dot => exact .value fun v => .done (readMember_related p.unseen v _).follows
  | binary op => exact .value fun v => .value fun u => .done (apply_related p.unseen op v u).follows
  | index => exact .value fun v => .value fun k => .done (readMember_related p.unseen v _).follows
  | logical op l r =>
    refine .value fun v => .done ?_
    split
    · exact (Unseen.pure _).follows
    · exact hb.eval (fun x hx => hn x (List.mem_append_right _ hx)) scope none
  | cond t y n =>
    refine .value fun v => .done ?_
    split
    · exact hb.eval (fun x hx => hn x (List.mem_append_left _ (List.mem_append_right _ hx))) scope none
    · exact hb.eval (fun x hx => hn x (List.mem_append_right _ hx)) scope none
  | array items =>
    exact .ofValues fun vss => (Unseen.bind (p.unseen.edit _ (newArray_local _) (newArray_calm _))
      fun _ => .pure _).follows
  | object ps =>
    exact .ofProperties (fun fields => (Unseen.bind (p.unseen.edit _ realm_local realm_calm)
      fun _ => .bind (p.unseen.edit _ (alloc_local _) (alloc_calm rfl)) fun _ =>
        .pure _).follows) ps .empty
  | new f args =>
    exact .value fun v => .ofValues fun vss => hb.construct callee other v vss.flatten
  | call f args =>
    rcases f.member_cases with ⟨t, name, rfl⟩ | ⟨t, key, rfl⟩ | hf
    · exact .value fun v => hb.methodTaking callee other v name
    · exact .value fun v => .value fun k => hb.methodTaking callee other v k.toKey
    · rw [taking_call hf, taking_call hf]
      exact .value fun v => .ofValues fun vss => hb.callChecked callee other v .undefined vss.flatten
  | _ => exact .done (Unseen.pure _).follows

/-- Operands are taken as they are. -/
theorem Blind.run (scope : ScopeId) {t t' : Taking Dialogue} (ht : p.Tracks t t') {es : List Expr}
    (hn : ∀ x ∈ listUses es, isSlotName x = false) :
    p.Follows (t.run (answering host) scope es) (t'.run (answering host) scope es) := by
  induction es generalizing t t' with
  | nil =>
    cases ht with
    | done h => exact h
    | value => exact (Unseen.pure _).follows
    | args h => exact follows_of_awaits fun t => h _ t _ _ (.ofFollows (hb.evalEach hn scope))
  | cons e es ih =>
    cases ht with
    | done h => exact h
    | args h => exact follows_of_awaits fun t => h _ t _ _ (.ofFollows (hb.evalEach hn scope))
    | value h =>
      refine (hb.eval (fun x hx => hn x (List.mem_append_left _ hx)) scope _).bind fun v => ?_
      exact ih (h v) fun x hx => hn x (List.mem_append_right _ hx)

end Composite

end Private

end Resumable
