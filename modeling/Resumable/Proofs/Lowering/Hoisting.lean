import Resumable.Lowering.Expr

/-!
What hoisting can do, said once. `Hoists` follows the recursion of `Expr.hoist` with the monad taken
away, and with one rule for all expressions that evaluate their operands from left to right. Later
proofs about lowering go by induction on it.
-/

set_option autoImplicit false

namespace Resumable

section Run

variable {σ ε α β : Type}

theorem run_pure_ok (a b : α) (n m : σ) :
    (pure a : StateT σ (Except ε) α).run n = .ok (b, m) ↔ a = b ∧ n = m := by
  rw [StateT.run_pure]
  simp [pure, Except.pure]

theorem run_bind_ok (x : StateT σ (Except ε) α) (f : α → StateT σ (Except ε) β) (b : β)
    (n m : σ) :
    (x >>= f).run n = .ok (b, m) ↔
      ∃ a k, x.run n = .ok (a, k) ∧ (f a).run k = .ok (b, m) := by
  rw [StateT.run_bind]
  cases h : x.run n with
  | error r => simp [bind, Except.bind]
  | ok p =>
    obtain ⟨a, k⟩ := p
    constructor
    · intro hf
      exact ⟨a, k, rfl, hf⟩
    · rintro ⟨a', k', ha, hf⟩
      cases ha
      exact hf

theorem run_map_ok (x : StateT σ (Except ε) α) (f : α → β) (b : β) (n m : σ) :
    (f <$> x).run n = .ok (b, m) ↔ ∃ a, x.run n = .ok (a, m) ∧ f a = b := by
  rw [map_eq_pure_bind, run_bind_ok]
  constructor
  · rintro ⟨a, k, hx, hf⟩
    obtain ⟨hb, rfl⟩ := (run_pure_ok ..).1 hf
    exact ⟨a, hx, hb⟩
  · rintro ⟨a, hx, hb⟩
    exact ⟨a, m, hx, (run_pure_ok ..).2 ⟨hb, rfl⟩⟩

theorem run_refuse_ok (r : Obstacle) (p : α × SlotNumber) (n : SlotNumber) :
    (Lower.refuse r : Lower α).run n = .ok p ↔ False := by
  simp [Lower.refuse, throw, throwThe, MonadExceptOf.throw, StateT.run, StateT.lift, bind,
    Except.bind]

theorem run_unless_ok {b : Bool} (hb : b = true) (x y : StateT σ (Except ε) α) (p : α × σ)
    (n : σ) : (if !b then x else y).run n = .ok p ↔ y.run n = .ok p := by
  simp [hb]

theorem run_guard_ok (c : Prop) [Decidable c] (r : Obstacle) (f : β → Lower α) (x : Lower α)
    (p : α × SlotNumber) (n : SlotNumber) :
    (if c then Lower.refuse r >>= f else x).run n = .ok p ↔ ¬c ∧ x.run n = .ok p := by
  by_cases h : c
  · obtain ⟨a, m⟩ := p
    rw [if_pos h, run_bind_ok]
    simp [run_refuse_ok, h]
  · simp [h]

end Run

theorem run_storeSlot_ok (e : Expr) (h : Hoisted) (n m : SlotNumber) :
    (storeSlot e).run n = .ok (h, m) ↔
      ⟨[.assign .set (.ident (slotName n)) e], .ident (slotName n)⟩ = h ∧ n + 1 = m := by
  have hstore : (storeSlot e).run n =
      .ok (⟨[.assign .set (.ident (slotName n)) e], .ident (slotName n)⟩, n + 1) := rfl
  simp [hstore]

/-- The operands of an expression that hoisting takes from left to right. Operands that are
evaluated only under a condition are not among them. -/
def Expr.operands : Expr → List Expr
  | .unary _ e | .typeof e | .void e | .spread e | .await e | .dot e _ => [e]
  | .logical _ e _ | .cond e _ _ => [e]
  | .binary _ l r | .index l r => [l, r]
  | .call (.dot t _) args => t :: args
  | .call (.index t k) args => t :: k :: args
  | .call f args | .new f args => f :: args
  | .array items => items.filterMap id
  | .object ps => ps.flatMap fun
    | .mk (.computed k) v => [k, v]
    | .mk _ v => [v]
  | _ => []

/-- Puts expressions into the places of an array literal that are no holes. -/
def refillItems : List (Option Expr) → List Expr → List (Option Expr)
  | none :: items, es => none :: refillItems items es
  | some _ :: items, e :: es => some e :: refillItems items es
  | _, _ => []

def refillProperties : List Property → List Expr → List Property
  | .mk (.computed _) _ :: ps, k :: v :: es => .mk (.computed k) v :: refillProperties ps es
  | .mk key _ :: ps, v :: es => .mk key v :: refillProperties ps es
  | _, _ => []

def Expr.withOperands : Expr → List Expr → Expr
  | .unary op _, [e] => .unary op e
  | .typeof _, [e] => .typeof e
  | .void _, [e] => .void e
  | .spread _, [e] => .spread e
  | .await _, [e] => .await e
  | .dot _ name, [e] => .dot e name
  | .logical op _ r, [e] => .logical op e r
  | .cond _ y n, [e] => .cond e y n
  | .binary op _ _, [l, r] => .binary op l r
  | .index _ _, [l, r] => .index l r
  | .call (.dot _ name) _, t :: args => .call (.dot t name) args
  | .call (.index _ _) _, t :: k :: args => .call (.index t k) args
  | .call _ _, f :: args => .call f args
  | .new _ _, f :: args => .new f args
  | .array items, es => .array (refillItems items es)
  | .object ps, es => .object (refillProperties ps es)
  | e, _ => e

/-- Whether hoisting does no more with the expression than to hoist its operands. -/
def Expr.isComposite (inAsync : Bool) : Expr → Bool
  | .unary _ _ | .typeof _ | .void _ | .spread _ | .dot _ _ | .binary _ _ _ | .index _ _ => true
  | .call _ _ | .new _ _ | .array _ | .object _ => true
  | .await _ => !inAsync
  | .logical _ _ r => !r.hasSuspend inAsync
  | .cond _ y n => !y.hasSuspend inAsync && !n.hasSuspend inAsync
  | _ => false

/-- A suspend expression around its operand. -/
inductive Suspends (inAsync : Bool) : (Expr → Expr) → Prop where
  | yield : Suspends inAsync fun e => .yield (some e)
  | yieldStar : Suspends inAsync fun e => .yieldStar (some e)
  | await : inAsync = true → Suspends inAsync .await

/-- A suspend expression without operand. -/
inductive SuspendsBare : Expr → Prop where
  | yield : SuspendsBare (.yield none)
  | yieldStar : SuspendsBare (.yieldStar none)

/-- One part of the work, with its result. -/
inductive Hoisting where
  | expr (e : Expr) (h : Hoisted)
  | operands (es before rest : List Expr)
  | effects (es before : List Expr)
  | items (es : List Expr) (h : Hoisted)

/-- What hoisting gives, and how it moves the slot number. -/
inductive Hoists (inAsync : Bool) : SlotNumber → Hoisting → SlotNumber → Prop where
  | plain {n : SlotNumber} {e : Expr} :
    e.hasSuspend inAsync = false → Hoists inAsync n (.expr e ⟨[], e⟩) n
  | bare {n : SlotNumber} {e : Expr} : SuspendsBare e →
    Hoists inAsync n (.expr e ⟨[.assign .set (.ident (slotName n)) e], .ident (slotName n)⟩) (n + 1)
  | suspend {n m : SlotNumber} {wrap : Expr → Expr} {e : Expr} {h : Hoisted} :
    Suspends inAsync wrap → Hoists inAsync n (.expr e h) m →
    Hoists inAsync n (.expr (wrap e) ⟨h.before ++ [.assign .set (.ident (slotName m)) (wrap h.rest)],
      .ident (slotName m)⟩) (m + 1)
  | composite {n m : SlotNumber} {e : Expr} {before rest : List Expr} :
    e.hasSuspend inAsync = true → e.isComposite inAsync →
    Hoists inAsync n (.operands e.operands before rest) m →
    Hoists inAsync n (.expr e ⟨before, e.withOperands rest⟩) m
  | assign {n k m : SlotNumber} {target value : Expr} {t v : Hoisted} :
    value.hasSuspend inAsync = true → target.hasSuspend inAsync = false →
    target.spillTarget.run n = .ok (t, k) → Hoists inAsync k (.expr value v) m →
    Hoists inAsync n (.expr (.assign .set target value)
      ⟨t.before ++ v.before, .assign .set t.rest v.rest⟩) m
  | compound {n k k' m : SlotNumber} {op : AssignOp} {bin : BinaryOp} {target value : Expr}
    {t old v : Hoisted} :
    op.binary? = some bin → value.hasSuspend inAsync = true → target.hasSuspend inAsync = false →
    target.spillTarget.run n = .ok (t, k) → t.rest.spill.run k = .ok (old, k') →
    Hoists inAsync k' (.expr value v) m →
    Hoists inAsync n (.expr (.assign op target value)
      ⟨t.before ++ old.before ++ v.before, .assign .set t.rest (.binary bin old.rest v.rest)⟩) m
  | sequence {n m : SlotNumber} {es : List Expr} {h : Hoisted} :
    listHasSuspend inAsync es = true → Hoists inAsync n (.items es h) m →
    Hoists inAsync n (.expr (.seq es) h) m
  | noOperand {n : SlotNumber} : Hoists inAsync n (.operands [] [] []) n
  | operand {n k k' m : SlotNumber} {e : Expr} {es before rest : List Expr} {h s : Hoisted} :
    Hoists inAsync n (.expr e h) k →
    (h.settle (listHasSuspend inAsync es)).run k = .ok (s, k') →
    Hoists inAsync k' (.operands es before rest) m →
    Hoists inAsync n (.operands (e :: es) (s.before ++ before) (s.rest :: rest)) m
  | noEffect {n : SlotNumber} : Hoists inAsync n (.effects [] []) n
  | innerEffects {n k m : SlotNumber} {inner es first rest : List Expr} :
    Hoists inAsync n (.effects inner first) k → Hoists inAsync k (.effects es rest) m →
    Hoists inAsync n (.effects (.seq inner :: es) (first ++ rest)) m
  | simpleEffect {n m : SlotNumber} {e : Expr} {es rest : List Expr} :
    e.isSimpleEffect inAsync → Hoists inAsync n (.effects es rest) m →
    Hoists inAsync n (.effects (e :: es) (e :: rest)) m
  | effect {n k m : SlotNumber} {e : Expr} {es rest : List Expr} {h : Hoisted} :
    Hoists inAsync n (.expr e h) k → Hoists inAsync k (.effects es rest) m →
    Hoists inAsync n (.effects (e :: es) (h.effects ++ rest)) m
  | lastItem {n m : SlotNumber} {e : Expr} {h : Hoisted} :
    Hoists inAsync n (.expr e h) m → Hoists inAsync n (.items [e] h) m
  | item {n k m : SlotNumber} {e : Expr} {es first : List Expr} {h : Hoisted} :
    Hoists inAsync n (.effects [e] first) k → listHasSuspend inAsync es = true →
    Hoists inAsync k (.items es h) m →
    Hoists inAsync n (.items (e :: es) (h.after first)) m
  | lastEffect {n m : SlotNumber} {e : Expr} {es first : List Expr} :
    Hoists inAsync n (.effects [e] first) m → es ≠ [] → listHasSuspend inAsync es = false →
    Hoists inAsync n (.items (e :: es) ⟨first, .ofItems es⟩) m

theorem itemsSuspends_eq (inAsync : Bool) (items : List (Option Expr)) :
    itemsSuspends inAsync items = listSuspends inAsync (items.filterMap id) := by
  induction items with
  | nil => rfl
  | cons item items ih => cases item <;> simp [itemsSuspends, listSuspends, ih]

theorem itemsHasSuspend_eq (inAsync : Bool) (items : List (Option Expr)) :
    itemsHasSuspend inAsync items = listHasSuspend inAsync (items.filterMap id) := by
  simp [itemsHasSuspend, listHasSuspend, itemsSuspends_eq]

/-- The operands of the properties of an object literal. -/
def propertyOperands (ps : List Property) : List Expr := (Expr.object ps).operands

@[simp] theorem propertyOperands_computed (k v : Expr) (ps : List Property) :
    propertyOperands (.mk (.computed k) v :: ps) = k :: v :: propertyOperands ps := rfl

theorem propertiesSuspends_eq (inAsync : Bool) (ps : List Property) :
    propertiesSuspends inAsync ps = listSuspends inAsync (propertyOperands ps) := by
  induction ps with
  | nil => rfl
  | cons p ps ih =>
    obtain ⟨key, v⟩ := p
    cases key <;>
      simp [propertyOperands, Expr.operands, propertiesSuspends, listSuspends] at ih ⊢ <;>
      simp [ih]

theorem propertiesHasSuspend_eq (inAsync : Bool) (ps : List Property) :
    propertiesHasSuspend inAsync ps = listHasSuspend inAsync (propertyOperands ps) := by
  simp [propertiesHasSuspend, listHasSuspend, propertiesSuspends_eq]

theorem listHasSuspend_cons (inAsync : Bool) (e : Expr) (es : List Expr) :
    listHasSuspend inAsync (e :: es) = (e.hasSuspend inAsync || listHasSuspend inAsync es) := by
  simp only [listHasSuspend, listSuspends, Expr.hasSuspend]
  cases e.suspends inAsync <;> simp

@[simp] theorem listHasSuspend_nil (inAsync : Bool) : listHasSuspend inAsync [] = false := rfl

@[simp] theorem listHasSuspend_one (inAsync : Bool) (e : Expr) :
    listHasSuspend inAsync [e] = e.hasSuspend inAsync := by
  simp [listHasSuspend_cons]

theorem run_settle_false (h s : Hoisted) (n m : SlotNumber) :
    (h.settle false).run n = .ok (s, m) ↔ h = s ∧ n = m := by
  have hp : h.settle false = pure h := by simp [Hoisted.settle]
  rw [hp, run_pure_ok]

theorem hoist_run_plain (inAsync : Bool) (e : Expr) (h : Hoisted) (n m : SlotNumber)
    (hs : e.hasSuspend inAsync = false) :
    (e.hoist inAsync).run n = .ok (h, m) ↔ ⟨[], e⟩ = h ∧ n = m := by
  have hp : e.hoist inAsync = pure ⟨[], e⟩ := by
    rw [Expr.hoist.eq_def]
    simp [hs, Hoisted.plain]
  rw [hp, run_pure_ok]

namespace Hoists

variable {inAsync : Bool} {n k m : SlotNumber}

theorem lastOperand {e : Expr} {h : Hoisted} (hh : Hoists inAsync n (.expr e h) m) :
    Hoists inAsync n (.operands [e] h.before [h.rest]) m := by
  have hs : (h.settle (listHasSuspend inAsync [])).run m = .ok (h, m) :=
    (run_settle_false h h m m).2 ⟨rfl, rfl⟩
  simpa using operand hh hs noOperand

theorem ofRun {e : Expr} {h : Hoisted} (hr : (e.hoist inAsync).run n = .ok (h, m))
    (hh : e.hasSuspend inAsync = true → Hoists inAsync n (.expr e h) m) :
    Hoists inAsync n (.expr e h) m := by
  cases hs : e.hasSuspend inAsync with
  | false =>
    obtain ⟨rfl, rfl⟩ := (hoist_run_plain inAsync e h n m hs).1 hr
    exact plain hs
  | true => exact hh hs

end Hoists

/-- Whether the expression reads a member, so that a call of it has a receiver. -/
def Expr.isMember : Expr → Bool
  | .dot _ _ | .index _ _ => true
  | _ => false

theorem Expr.member_cases (f : Expr) :
    (∃ t name, f = .dot t name) ∨ (∃ t k, f = .index t k) ∨ f.isMember = false := by
  cases f <;> simp [Expr.isMember]

def Expr.isSeq : Expr → Bool
  | .seq _ => true
  | _ => false

theorem Expr.seq_cases (e : Expr) : (∃ items, e = .seq items) ∨ e.isSeq = false := by
  cases e <;> simp [Expr.isSeq]

/-- One expression for its effects, unless it is a sequence. -/
def Expr.hoistOne (inAsync : Bool) (e : Expr) : Lower (List Expr) :=
  if e.isSimpleEffect inAsync then pure [e] else Hoisted.effects <$> e.hoist inAsync

theorem hoistEffects_cons (inAsync : Bool) (e : Expr) (es : List Expr) (he : e.isSeq = false) :
    hoistEffects inAsync (e :: es) = do
      let first ← e.hoistOne inAsync
      return first ++ (← hoistEffects inAsync es) := by
  rw [hoistEffects, Expr.hoistOne]
  · split <;> rfl
  · rintro items rfl
    simp [Expr.isSeq] at he

theorem hoistSeq_cons (inAsync : Bool) (e d : Expr) (es : List Expr) (he : e.isSeq = false) :
    hoistSeq inAsync (e :: d :: es) = do
      let first ← e.hoistOne inAsync
      if listHasSuspend inAsync (d :: es) then return (← hoistSeq inAsync (d :: es)).after first
      return ⟨first, .ofItems (d :: es)⟩ := by
  rw [hoistSeq, Expr.hoistOne]
  · split <;> rfl
  · simp
  · rintro items rfl
    simp [Expr.isSeq] at he

section Other

variable (f : Expr) (args : List Expr) (hf : f.isMember = false)
include hf

theorem operands_call : (Expr.call f args).operands = f :: args := by
  cases f <;> simp [Expr.isMember] at hf <;> rfl

theorem withOperands_call (g : Expr) (es : List Expr) :
    (Expr.call f args).withOperands (g :: es) = .call g es := by
  cases f <;> simp [Expr.isMember] at hf <;> rfl

theorem hoist_call (inAsync : Bool) (hs : (Expr.call f args).hasSuspend inAsync = true) :
    (Expr.call f args).hoist inAsync = do
      let f ← (← f.hoist inAsync).settle (listHasSuspend inAsync args)
      let (before, args) ← hoistList inAsync args
      return ⟨f.before ++ before, .call f.rest args⟩ := by
  rw [Expr.hoist.eq_def]
  cases f <;> simp [Expr.isMember] at hf <;> simp [hs]

end Other

mutual

theorem Expr.hoists (inAsync : Bool) : (e : Expr) → (n m : SlotNumber) → (h : Hoisted) →
    (e.hoist inAsync).run n = .ok (h, m) → Hoists inAsync n (.expr e h) m
  | .null, n, m, h, hr | .bool _, n, m, h, hr | .num _, n, m, h, hr | .str _, n, m, h, hr
  | .ident _, n, m, h, hr | .this, n, m, h, hr | .function _ _, n, m, h, hr | .arrow _, n, m, h, hr
  | .lambda _ _ _, n, m, h, hr => .ofRun hr fun hs => by
    simp [Expr.hasSuspend, Expr.suspends] at hs
  | .yield none, n, m, h, hr => .ofRun hr fun hs => by
    rw [Expr.hoist] at hr
    simp only [run_unless_ok hs, run_storeSlot_ok] at hr
    obtain ⟨rfl, rfl⟩ := hr
    exact .bare .yield
  | .yieldStar none, n, m, h, hr => .ofRun hr fun hs => by
    rw [Expr.hoist] at hr
    simp only [run_unless_ok hs, run_storeSlot_ok] at hr
    obtain ⟨rfl, rfl⟩ := hr
    exact .bare .yieldStar
  | .yield (some e), n, m, h, hr => .ofRun hr fun hs => by
    rw [Expr.hoist] at hr
    simp only [run_unless_ok hs, run_guard_ok, run_bind_ok, run_pure_ok,
      run_storeSlot_ok] at hr
    obtain ⟨-, o, k, ho, s, k', ⟨rfl, rfl⟩, rfl, rfl⟩ := hr
    exact .suspend .yield (e.hoists inAsync _ _ _ ho)
  | .yieldStar (some e), n, m, h, hr => .ofRun hr fun hs => by
    rw [Expr.hoist] at hr
    simp only [run_unless_ok hs, run_guard_ok, run_bind_ok, run_pure_ok,
      run_storeSlot_ok] at hr
    obtain ⟨-, o, k, ho, s, k', ⟨rfl, rfl⟩, rfl, rfl⟩ := hr
    exact .suspend .yieldStar (e.hoists inAsync _ _ _ ho)
  | .await e, n, m, h, hr => .ofRun hr fun hs => by
    rw [Expr.hoist] at hr
    simp only [run_unless_ok hs, run_bind_ok] at hr
    obtain ⟨o, k, ho, hr⟩ := hr
    have hh := e.hoists inAsync _ _ _ ho
    split at hr
    · rename_i ha
      simp only [run_bind_ok, run_pure_ok, run_storeSlot_ok] at hr
      obtain ⟨s, k', ⟨rfl, rfl⟩, rfl, rfl⟩ := hr
      exact .suspend (.await ha) hh
    · rename_i ha
      obtain ⟨rfl, rfl⟩ := (run_pure_ok ..).1 hr
      exact .composite (e := .await e) hs (by simp [Expr.isComposite, ha]) hh.lastOperand
  | .unary op e, n, m, h, hr => .ofRun hr fun hs => by
    rw [Expr.hoist] at hr
    simp only [run_unless_ok hs, run_bind_ok, run_pure_ok] at hr
    obtain ⟨o, k, ho, rfl, rfl⟩ := hr
    exact .composite (e := .unary op e) hs rfl (e.hoists inAsync _ _ _ ho).lastOperand
  | .typeof e, n, m, h, hr => .ofRun hr fun hs => by
    rw [Expr.hoist] at hr
    simp only [run_unless_ok hs, run_bind_ok, run_pure_ok] at hr
    obtain ⟨o, k, ho, rfl, rfl⟩ := hr
    exact .composite (e := .typeof e) hs rfl (e.hoists inAsync _ _ _ ho).lastOperand
  | .void e, n, m, h, hr => .ofRun hr fun hs => by
    rw [Expr.hoist] at hr
    simp only [run_unless_ok hs, run_bind_ok, run_pure_ok] at hr
    obtain ⟨o, k, ho, rfl, rfl⟩ := hr
    exact .composite (e := .void e) hs rfl (e.hoists inAsync _ _ _ ho).lastOperand
  | .spread e, n, m, h, hr => .ofRun hr fun hs => by
    rw [Expr.hoist] at hr
    simp only [run_unless_ok hs, run_bind_ok, run_pure_ok] at hr
    obtain ⟨o, k, ho, rfl, rfl⟩ := hr
    exact .composite (e := .spread e) hs rfl (e.hoists inAsync _ _ _ ho).lastOperand
  | .dot e name, n, m, h, hr => .ofRun hr fun hs => by
    rw [Expr.hoist] at hr
    simp only [run_unless_ok hs, run_bind_ok, run_pure_ok] at hr
    obtain ⟨o, k, ho, rfl, rfl⟩ := hr
    exact .composite (e := .dot e name) hs rfl (e.hoists inAsync _ _ _ ho).lastOperand
  | .binary op l r, n, m, h, hr => .ofRun hr fun hs => by
    rw [Expr.hoist] at hr
    simp only [run_unless_ok hs, run_bind_ok, run_pure_ok] at hr
    obtain ⟨a, k, ha, s, k', hk, b, k'', hb, rfl, rfl⟩ := hr
    exact .composite (e := .binary op l r) hs rfl
      (.operand (l.hoists inAsync _ _ _ ha) (by simpa using hk) (r.hoists inAsync _ _ _ hb).lastOperand)
  | .index l r, n, m, h, hr => .ofRun hr fun hs => by
    rw [Expr.hoist] at hr
    simp only [run_unless_ok hs, run_bind_ok, run_pure_ok] at hr
    obtain ⟨a, k, ha, s, k', hk, b, k'', hb, rfl, rfl⟩ := hr
    exact .composite (e := .index l r) hs rfl
      (.operand (l.hoists inAsync _ _ _ ha) (by simpa using hk) (r.hoists inAsync _ _ _ hb).lastOperand)
  | .logical op e r, n, m, h, hr => .ofRun hr fun hs => by
    rw [Expr.hoist] at hr
    simp only [run_unless_ok hs, run_guard_ok, run_bind_ok, run_pure_ok] at hr
    obtain ⟨hc, o, k, ho, rfl, rfl⟩ := hr
    exact .composite (e := .logical op e r) hs (by simpa [Expr.isComposite] using hc)
      (e.hoists inAsync _ _ _ ho).lastOperand
  | .cond e y z, n, m, h, hr => .ofRun hr fun hs => by
    rw [Expr.hoist] at hr
    simp only [run_unless_ok hs, run_guard_ok, run_bind_ok, run_pure_ok] at hr
    obtain ⟨hc, o, k, ho, rfl, rfl⟩ := hr
    exact .composite (e := .cond e y z) hs (by simpa [Expr.isComposite] using hc)
      (e.hoists inAsync _ _ _ ho).lastOperand
  | .update op first e, n, m, h, hr => .ofRun hr fun hs => by
    rw [Expr.hoist] at hr
    simp only [run_unless_ok hs, run_refuse_ok] at hr
  | .assign op target value, n, m, h, hr => .ofRun hr fun hs => by
    rw [Expr.hoist] at hr
    simp only [run_unless_ok hs, run_bind_ok, run_guard_ok] at hr
    obtain ⟨ht, t, k, hk, hr⟩ := hr
    have hvalue : value.hasSuspend inAsync = true := by
      simp only [Expr.hasSuspend, Expr.suspends] at hs ht ⊢
      grind
    cases hop : op.binary? with
    | none =>
      simp only [hop, run_bind_ok, run_pure_ok] at hr
      obtain ⟨v, k', hv, rfl, rfl⟩ := hr
      have : op = .set := by cases op <;> simp [AssignOp.binary?] at hop ⊢
      subst this
      exact .assign hvalue (by simpa using ht) hk (value.hoists inAsync _ _ _ hv)
    | some bin =>
      simp only [hop, run_bind_ok, run_pure_ok] at hr
      obtain ⟨old, k', ho, v, k'', hv, rfl, rfl⟩ := hr
      exact .compound hop hvalue (by simpa using ht) hk ho (value.hoists inAsync _ _ _ hv)
  | .call f args, n, m, h, hr => .ofRun hr fun hs => by
    rcases f.member_cases with ⟨t, name, rfl⟩ | ⟨t, key, rfl⟩ | hf
    · rw [Expr.hoist] at hr
      simp only [run_unless_ok hs, run_bind_ok, run_pure_ok] at hr
      obtain ⟨o, k, ho, s, k', hk, ⟨before, rest⟩, k'', hl, rfl, rfl⟩ := hr
      exact .composite (e := .call (.dot t name) args) hs rfl
        (.operand (t.hoists inAsync _ _ _ ho) hk (hoists_operands inAsync args _ _ _ _ hl))
    · rw [Expr.hoist] at hr
      simp only [run_unless_ok hs, run_bind_ok, run_pure_ok] at hr
      obtain ⟨o, k, ho, s, k₁, hk, i, k₂, hi, s', k₃, hk', ⟨before, rest⟩, k₄, hl, rfl, rfl⟩ := hr
      rw [List.append_assoc]
      refine .composite (e := .call (.index t key) args) hs rfl
        (.operand (t.hoists inAsync _ _ _ ho) ?_
          (.operand (key.hoists inAsync _ _ _ hi) hk' (hoists_operands inAsync args _ _ _ _ hl)))
      rwa [listHasSuspend_cons, Bool.or_comm]
    · rw [hoist_call f args hf inAsync hs] at hr
      simp only [run_bind_ok, run_pure_ok] at hr
      obtain ⟨o, k, ho, s, k', hk, ⟨before, rest⟩, k'', hl, rfl, rfl⟩ := hr
      have hh : Hoists inAsync n (.operands (Expr.call f args).operands (s.before ++ before)
          (s.rest :: rest)) k'' := by
        rw [operands_call f args hf]
        exact .operand (f.hoists inAsync _ _ _ ho) hk (hoists_operands inAsync args _ _ _ _ hl)
      simpa only [withOperands_call f args hf] using Hoists.composite (e := .call f args) hs rfl hh
  | .new f args, n, m, h, hr => .ofRun hr fun hs => by
    rw [Expr.hoist] at hr
    simp only [run_unless_ok hs, run_bind_ok, run_pure_ok] at hr
    obtain ⟨o, k, ho, s, k', hk, ⟨before, rest⟩, k'', hl, rfl, rfl⟩ := hr
    exact .composite (e := .new f args) hs rfl
      (.operand (f.hoists inAsync _ _ _ ho) hk (hoists_operands inAsync args _ _ _ _ hl))
  | .array items, n, m, h, hr => .ofRun hr fun hs => by
    rw [Expr.hoist] at hr
    simp only [run_unless_ok hs, run_bind_ok, run_pure_ok] at hr
    obtain ⟨⟨before, rest⟩, k, hi, rfl, rfl⟩ := hr
    obtain ⟨es, rfl, hh⟩ := hoists_items inAsync items _ _ _ _ hi
    exact .composite (e := .array items) hs rfl hh
  | .object ps, n, m, h, hr => .ofRun hr fun hs => by
    rw [Expr.hoist] at hr
    simp only [run_unless_ok hs, run_bind_ok, run_pure_ok] at hr
    obtain ⟨⟨before, rest⟩, k, hi, rfl, rfl⟩ := hr
    obtain ⟨es, rfl, hh⟩ := hoists_properties inAsync ps _ _ _ _ hi
    exact .composite (e := .object ps) hs rfl hh
  | .seq items, n, m, h, hr => .ofRun hr fun hs => by
    rw [Expr.hoist] at hr
    simp only [run_unless_ok hs] at hr
    exact .sequence hs (hoists_seq inAsync items _ _ _ hs hr)
termination_by e => sizeOf e
decreasing_by all_goals (subst_vars; simp +arith)

theorem hoists_operands (inAsync : Bool) : (es : List Expr) → (n m : SlotNumber) →
    (before rest : List Expr) → (hoistList inAsync es).run n = .ok ((before, rest), m) →
    Hoists inAsync n (.operands es before rest) m
  | [], n, m, before, rest, hr => by
    simp only [hoistList, run_pure_ok, Prod.mk.injEq] at hr
    obtain ⟨⟨rfl, rfl⟩, rfl⟩ := hr
    exact .noOperand
  | e :: es, n, m, before, rest, hr => by
    simp only [hoistList, run_bind_ok, run_pure_ok, Prod.mk.injEq] at hr
    obtain ⟨o, k, ho, s, k', hk, ⟨b, r⟩, k'', hl, ⟨rfl, rfl⟩, rfl⟩ := hr
    exact .operand (e.hoists inAsync _ _ _ ho) hk (hoists_operands inAsync es _ _ _ _ hl)
termination_by es => sizeOf es
decreasing_by all_goals simp +arith

theorem hoists_items (inAsync : Bool) : (items : List (Option Expr)) → (n m : SlotNumber) →
    (before : List Expr) → (rest : List (Option Expr)) →
    (hoistItems inAsync items).run n = .ok ((before, rest), m) →
    ∃ es, refillItems items es = rest ∧
      Hoists inAsync n (.operands (items.filterMap id) before es) m
  | [], n, m, before, rest, hr => by
    simp only [hoistItems, run_pure_ok, Prod.mk.injEq] at hr
    obtain ⟨⟨rfl, rfl⟩, rfl⟩ := hr
    exact ⟨[], rfl, .noOperand⟩
  | none :: items, n, m, before, rest, hr => by
    simp only [hoistItems, run_bind_ok, run_pure_ok, Prod.mk.injEq] at hr
    obtain ⟨⟨b, r⟩, k, hi, ⟨rfl, rfl⟩, rfl⟩ := hr
    obtain ⟨es, rfl, hh⟩ := hoists_items inAsync items _ _ _ _ hi
    exact ⟨es, by simp [refillItems], by simpa using hh⟩
  | some e :: items, n, m, before, rest, hr => by
    simp only [hoistItems, run_bind_ok, run_pure_ok, Prod.mk.injEq] at hr
    obtain ⟨o, k, ho, s, k', hk, ⟨b, r⟩, k'', hi, ⟨rfl, rfl⟩, rfl⟩ := hr
    obtain ⟨es, rfl, hh⟩ := hoists_items inAsync items _ _ _ _ hi
    rw [itemsHasSuspend_eq] at hk
    exact ⟨s.rest :: es, rfl, .operand (e.hoists inAsync _ _ _ ho) hk hh⟩
termination_by items => sizeOf items
decreasing_by all_goals simp +arith

theorem hoists_properties (inAsync : Bool) : (ps : List Property) → (n m : SlotNumber) →
    (before : List Expr) → (rest : List Property) →
    (hoistProperties inAsync ps).run n = .ok ((before, rest), m) →
    ∃ es, refillProperties ps es = rest ∧
      Hoists inAsync n (.operands (propertyOperands ps) before es) m
  | [], n, m, before, rest, hr => by
    simp only [hoistProperties, run_pure_ok, Prod.mk.injEq] at hr
    obtain ⟨⟨rfl, rfl⟩, rfl⟩ := hr
    exact ⟨[], rfl, .noOperand⟩
  | .mk (.computed key) value :: ps, n, m, before, rest, hr => by
    simp only [hoistProperties, run_bind_ok, run_pure_ok, Prod.mk.injEq] at hr
    obtain ⟨i, k, hi, s, k₁, hk, o, k₂, ho, s', k₃, hk', ⟨b, r⟩, k₄, hl, ⟨rfl, rfl⟩, rfl⟩ := hr
    obtain ⟨es, rfl, hh⟩ := hoists_properties inAsync ps _ _ _ _ hl
    rw [propertiesHasSuspend_eq] at hk hk'
    rw [← listHasSuspend_cons] at hk
    rw [List.append_assoc]
    exact ⟨s.rest :: s'.rest :: es, rfl, .operand (key.hoists inAsync _ _ _ hi) hk
      (.operand (value.hoists inAsync _ _ _ ho) hk' hh)⟩
  | .mk (.ident name) value :: ps, n, m, before, rest, hr
  | .mk (.str name) value :: ps, n, m, before, rest, hr
  | .mk (.num name) value :: ps, n, m, before, rest, hr => by
    simp only [hoistProperties, run_bind_ok, run_pure_ok, Prod.mk.injEq] at hr
    obtain ⟨o, k, ho, s, k', hk, ⟨b, r⟩, k'', hl, ⟨rfl, rfl⟩, rfl⟩ := hr
    obtain ⟨es, rfl, hh⟩ := hoists_properties inAsync ps _ _ _ _ hl
    rw [propertiesHasSuspend_eq] at hk
    exact ⟨s.rest :: es, rfl, .operand (value.hoists inAsync _ _ _ ho) hk hh⟩
termination_by ps => sizeOf ps
decreasing_by all_goals simp +arith

theorem hoists_effects (inAsync : Bool) : (es : List Expr) → (n m : SlotNumber) →
    (before : List Expr) → (hoistEffects inAsync es).run n = .ok (before, m) →
    Hoists inAsync n (.effects es before) m
  | [], n, m, before, hr => by
    simp only [hoistEffects, run_pure_ok] at hr
    obtain ⟨rfl, rfl⟩ := hr
    exact .noEffect
  | e :: es, n, m, before, hr => by
    rcases e.seq_cases with ⟨inner, rfl⟩ | he
    · simp only [hoistEffects, run_bind_ok, run_pure_ok] at hr
      obtain ⟨first, k, hf, rest, k', hl, rfl, rfl⟩ := hr
      exact .innerEffects (hoists_effects inAsync inner _ _ _ hf) (hoists_effects inAsync es _ _ _ hl)
    · simp only [hoistEffects_cons inAsync e es he, run_bind_ok, run_pure_ok] at hr
      obtain ⟨first, k, hf, rest, k', hl, rfl, rfl⟩ := hr
      have hh := hoists_effects inAsync es _ _ _ hl
      rw [Expr.hoistOne] at hf
      split at hf
      · rename_i hsimple
        obtain ⟨rfl, rfl⟩ := (run_pure_ok ..).1 hf
        exact .simpleEffect hsimple hh
      · obtain ⟨o, ho, rfl⟩ := (run_map_ok ..).1 hf
        exact .effect (e.hoists inAsync _ _ _ ho) hh
termination_by es => sizeOf es
decreasing_by all_goals (subst_vars; simp +arith)

theorem hoists_seq (inAsync : Bool) : (items : List Expr) → (n m : SlotNumber) →
    (h : Hoisted) → listHasSuspend inAsync items = true →
    (hoistSeq inAsync items).run n = .ok (h, m) → Hoists inAsync n (.items items h) m
  | [], n, m, h, hs, hr => by simp at hs
  | [e], n, m, h, hs, hr => by
    rw [hoistSeq] at hr
    exact .lastItem (e.hoists inAsync _ _ _ hr)
  | e :: d :: es, n, m, h, hs, hr => by
    have hh : ∃ first k, Hoists inAsync n (.effects [e] first) k ∧
        (if listHasSuspend inAsync (d :: es) then
          (do return (← hoistSeq inAsync (d :: es)).after first)
        else return ⟨first, .ofItems (d :: es)⟩ : Lower Hoisted).run k = .ok (h, m) := by
      rcases e.seq_cases with ⟨inner, rfl⟩ | he
      · simp only [hoistSeq, run_bind_ok] at hr
        obtain ⟨first, k, hf, hr⟩ := hr
        have := Hoists.innerEffects (hoists_effects inAsync inner _ _ _ hf) .noEffect
        exact ⟨first, k, by simpa using this, hr⟩
      · simp only [hoistSeq_cons inAsync e d es he, run_bind_ok] at hr
        obtain ⟨first, k, hf, hr⟩ := hr
        refine ⟨first, k, ?_, hr⟩
        rw [Expr.hoistOne] at hf
        split at hf
        · rename_i hsimple
          obtain ⟨rfl, rfl⟩ := (run_pure_ok ..).1 hf
          exact .simpleEffect hsimple .noEffect
        · obtain ⟨o, ho, rfl⟩ := (run_map_ok ..).1 hf
          simpa using Hoists.effect (e.hoists inAsync _ _ _ ho) .noEffect
    obtain ⟨first, k, hf, hr⟩ := hh
    split at hr
    · rename_i hl
      simp only [run_bind_ok, run_pure_ok] at hr
      obtain ⟨o, k', ho, rfl, rfl⟩ := hr
      exact .item hf hl (hoists_seq inAsync (d :: es) _ _ _ hl ho)
    · rename_i hl
      obtain ⟨rfl, rfl⟩ := (run_pure_ok ..).1 hr
      exact .lastEffect hf (by simp) (by simpa using hl)
termination_by items => sizeOf items
decreasing_by all_goals (subst_vars; simp +arith)

end

end Resumable
