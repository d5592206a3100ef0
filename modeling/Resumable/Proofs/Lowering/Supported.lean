import Resumable.Proofs.Lowering.Idempotence

/-!
The operands and bodies that lowering supports. An operand is supported if it yields at most once and
suspends nowhere where evaluation may pass by or has nowhere to put a value; a body is supported if all
its operands are and nothing else in it suspends. Main definitions: `Stmt.isSupported`,
`Stmt.crowdsHead`, `Lower.Admits`.
-/

set_option autoImplicit false

namespace Resumable

mutual

/-- Whether no suspend point stands in the right operand of a logical operator, in a branch of a
conditional expression, in the operand of an update or in the target of an assignment. -/
def Expr.isRegular (inAsync : Bool) : Expr → Bool
  | .null | .bool _ | .num _ | .str _ | .ident _ | .this => true
  | .function _ _ | .arrow _ | .lambda _ _ _ => true
  | .yield none | .yieldStar none => true
  | .yield (some e) | .yieldStar (some e) | .await e => e.isRegular inAsync
  | .unary _ e | .typeof e | .void e | .spread e | .dot e _ => e.isRegular inAsync
  | .binary _ l r | .index l r => l.isRegular inAsync && r.isRegular inAsync
  | .logical _ l r => l.isRegular inAsync && !r.hasSuspend inAsync
  | .cond t y n => t.isRegular inAsync && !(y.hasSuspend inAsync || n.hasSuspend inAsync)
  | .update _ _ e => !e.hasSuspend inAsync
  | .assign _ target value => !target.hasSuspend inAsync && value.isRegular inAsync
  | .call f args | .new f args => f.isRegular inAsync && areRegular inAsync args
  | .array items => itemsAreRegular inAsync items
  | .object ps => propertiesAreRegular inAsync ps
  | .seq items => areRegular inAsync items

def areRegular (inAsync : Bool) : List Expr → Bool
  | [] => true
  | e :: es => e.isRegular inAsync && areRegular inAsync es

def itemsAreRegular (inAsync : Bool) : List (Option Expr) → Bool
  | [] => true
  | none :: items => itemsAreRegular inAsync items
  | some e :: items => e.isRegular inAsync && itemsAreRegular inAsync items

def propertiesAreRegular (inAsync : Bool) : List Property → Bool
  | [] => true
  | .mk (.computed k) v :: ps =>
    k.isRegular inAsync && v.isRegular inAsync && propertiesAreRegular inAsync ps
  | .mk (.ident _) v :: ps | .mk (.str _) v :: ps | .mk (.num _) v :: ps =>
    v.isRegular inAsync && propertiesAreRegular inAsync ps

end

/-- Whether an operand of a statement is one that lowering supports. -/
def Expr.isSupported (inAsync : Bool) (e : Expr) : Bool :=
  decide (e.yields.length ≤ 1) && e.isRegular inAsync

def optionIsSupported (inAsync : Bool) (e : Option Expr) : Bool := e.all (·.isSupported inAsync)

def Declarator.isSupported (inAsync : Bool) : Declarator → Bool
  | .mk p init => !p.hasSuspend inAsync && optionIsSupported inAsync init

def ForInit.isSupported (inAsync : Bool) : ForInit → Bool
  | .absent => true
  | .declare _ ds => ds.all (·.isSupported inAsync)
  | .expr e => e.isSupported inAsync

mutual

/-- Whether every operand in a statement is supported, and no pattern and no test of a case
suspends. -/
def Stmt.isSupported (inAsync : Bool) : Stmt → Bool
  | .empty | .brk _ | .cont _ | .function _ _ | .ret none => true
  | .expr e | .throw e | .ret (some e) => e.isSupported inAsync
  | .block body => areSupported inAsync body
  | .declare _ ds => ds.all (·.isSupported inAsync)
  | .ifElse t y none => t.isSupported inAsync && y.isSupported inAsync
  | .ifElse t y (some n) => t.isSupported inAsync && y.isSupported inAsync && n.isSupported inAsync
  | .whileDo t b | .doWhile b t => t.isSupported inAsync && b.isSupported inAsync
  | .forLoop i t u b =>
    i.isSupported inAsync && optionIsSupported inAsync t && optionIsSupported inAsync u &&
      b.isSupported inAsync
  | .forIn p e b | .forOf p e b _ =>
    !p.pattern.hasSuspend inAsync && e.isSupported inAsync && b.isSupported inAsync
  | .tryCatch b none none => areSupported inAsync b
  | .tryCatch b none (some f) => areSupported inAsync b && areSupported inAsync f
  | .tryCatch b (some (.mk p h)) none =>
    areSupported inAsync b && !p.any (·.hasSuspend inAsync) && areSupported inAsync h
  | .tryCatch b (some (.mk p h)) (some f) =>
    areSupported inAsync b && !p.any (·.hasSuspend inAsync) && areSupported inAsync h &&
      areSupported inAsync f
  | .switch e cases => e.isSupported inAsync && casesAreSupported inAsync cases
  | .labeled _ s => s.isSupported inAsync

def areSupported (inAsync : Bool) : List Stmt → Bool
  | [] => true
  | s :: ss => s.isSupported inAsync && areSupported inAsync ss

def casesAreSupported (inAsync : Bool) : List Case → Bool
  | [] => true
  | .mk t body :: cases =>
    !t.any (·.hasSuspend inAsync) && areSupported inAsync body && casesAreSupported inAsync cases

end

/-- Whether an initializer yields more than once although a later one suspends. -/
def crowds (inAsync : Bool) : List Declarator → Bool
  | [] => false
  | .mk _ init :: ds =>
    (ds.any (·.initHasSuspend inAsync) && init.any (1 < ·.yields.length)) || crowds inAsync ds

def ForInit.crowds (inAsync : Bool) : ForInit → Bool
  | .absent | .expr _ => false
  | .declare _ ds => Resumable.crowds inAsync ds

mutual

/-- Whether the head of a loop in the statement declares names and is crowded. -/
def Stmt.crowdsHead (inAsync : Bool) : Stmt → Bool
  | .empty | .expr _ | .declare _ _ | .ret _ | .brk _ | .cont _ | .throw _ | .function _ _ => false
  | .block body => anyCrowdsHead inAsync body
  | .ifElse _ y none => y.crowdsHead inAsync
  | .ifElse _ y (some n) => y.crowdsHead inAsync || n.crowdsHead inAsync
  | .whileDo _ b | .doWhile b _ | .forIn _ _ b | .forOf _ _ b _ | .labeled _ b =>
    b.crowdsHead inAsync
  | .forLoop i _ _ b => i.crowds inAsync || b.crowdsHead inAsync
  | .tryCatch b none none => anyCrowdsHead inAsync b
  | .tryCatch b none (some f) => anyCrowdsHead inAsync b || anyCrowdsHead inAsync f
  | .tryCatch b (some (.mk _ h)) none => anyCrowdsHead inAsync b || anyCrowdsHead inAsync h
  | .tryCatch b (some (.mk _ h)) (some f) =>
    anyCrowdsHead inAsync b || anyCrowdsHead inAsync h || anyCrowdsHead inAsync f
  | .switch _ cases => casesCrowdHead inAsync cases

def anyCrowdsHead (inAsync : Bool) : List Stmt → Bool
  | [] => false
  | s :: ss => s.crowdsHead inAsync || anyCrowdsHead inAsync ss

def casesCrowdHead (inAsync : Bool) : List Case → Bool
  | [] => false
  | .mk _ body :: cases => anyCrowdsHead inAsync body || casesCrowdHead inAsync cases

end

/-- Whether lowering succeeds, from whatever slot number, and nothing is crowded, exactly if what it
lowers is supported. -/
def Lower.Admits {α : Type} (x : Lower α) (crowded supported : Bool) : Prop :=
  ∀ n, (∃ r, x.run n = .ok r) ∧ crowded = false ↔ supported = true

namespace Lower.Admits

variable {α β : Type} {x : Lower α} {f : α → Lower β} {c d p q : Bool}

theorem congr (h : x.Admits c p) (hc : d = c) (hp : q = p) : x.Admits d q := by
  rwa [hc, hp]

theorem pure (a : α) : (Pure.pure a : Lower α).Admits false true :=
  fun n => ⟨fun _ => rfl, fun _ => ⟨⟨(a, n), rfl⟩, rfl⟩⟩

theorem refuse (o : Obstacle) : (Lower.refuse o : Lower α).Admits false false := by
  intro n
  simp [run_refuse_ok]

theorem bind (hx : x.Admits c p) (hf : ∀ a, (f a).Admits d q) :
    (x >>= f).Admits (c || d) (p && q) := by
  intro n
  rw [Bool.or_eq_false_iff, Bool.and_eq_true]
  constructor
  · rintro ⟨⟨⟨b, m⟩, hr⟩, rfl, rfl⟩
    obtain ⟨a, k, ha, hb⟩ := (run_bind_ok ..).1 hr
    exact ⟨(hx n).1 ⟨⟨_, ha⟩, rfl⟩, (hf a k).1 ⟨⟨_, hb⟩, rfl⟩⟩
  · rintro ⟨rfl, rfl⟩
    obtain ⟨⟨⟨a, k⟩, ha⟩, hc⟩ := (hx n).2 rfl
    obtain ⟨⟨⟨b, m⟩, hb⟩, hd⟩ := (hf a k).2 rfl
    exact ⟨⟨(b, m), (run_bind_ok ..).2 ⟨a, k, ha, hb⟩⟩, hc, hd⟩

theorem map (hx : x.Admits c p) (g : α → β) : (do return g (← x) : Lower β).Admits c p :=
  (hx.bind fun a => pure (g a)).congr (Bool.or_false c).symm (Bool.and_true p).symm

theorem guard (hx : x.Admits c p) (b : Bool) (o : Obstacle) (g : β → Lower α) :
    (if b then Lower.refuse o >>= g else x).Admits c (!b && p) := by
  cases b with
  | false => exact hx
  | true =>
    intro n
    rw [if_pos rfl]
    constructor
    · rintro ⟨⟨⟨a, m⟩, hr⟩, -⟩
      obtain ⟨_, _, h, -⟩ := (run_bind_ok ..).1 hr
      exact ((run_refuse_ok ..).1 h).elim
    · rintro ⟨⟩

theorem crowd (hx : x.Admits false p) (c : Bool) : x.Admits c (p && !c) := by
  intro n
  have hx := hx n
  cases c <;> simp_all

end Lower.Admits

/-- Whether a `yield` stands in the operand of this one. -/
def Expr.wrapsYield : Expr → Bool
  | .yield (some operand) | .yieldStar (some operand) => !operand.yields.isEmpty
  | _ => false

def Expr.isHoistable (inAsync : Bool) (e : Expr) : Bool :=
  e.isRegular inAsync && !(e.suspends false).any Expr.wrapsYield

def areHoistable (inAsync : Bool) (es : List Expr) : Bool :=
  areRegular inAsync es && !(listSuspends false es).any Expr.wrapsYield

def itemsAreHoistable (inAsync : Bool) (items : List (Option Expr)) : Bool :=
  itemsAreRegular inAsync items && !(itemsSuspends false items).any Expr.wrapsYield

def propertiesAreHoistable (inAsync : Bool) (ps : List Property) : Bool :=
  propertiesAreRegular inAsync ps && !(propertiesSuspends false ps).any Expr.wrapsYield

section Plain

variable {inAsync : Bool}

mutual

theorem Expr.isRegular_of_plain : (e : Expr) → e.suspends inAsync = [] → e.isRegular inAsync = true
  | .null, _ | .bool _, _ | .num _, _ | .str _, _ | .ident _, _ | .this, _ | .function _ _, _
  | .arrow _, _ | .lambda _ _ _, _ => rfl
  | .yield _, h | .yieldStar _, h => by cases ‹Option Expr› <;> simp [Expr.suspends] at h
  | .await e, h => e.isRegular_of_plain (List.append_eq_nil_iff.1 h).1
  | .unary _ e, h | .typeof e, h | .void e, h | .spread e, h | .dot e _, h => e.isRegular_of_plain h
  | .binary _ l r, h | .index l r, h => by
    obtain ⟨hl, hr⟩ := List.append_eq_nil_iff.1 h
    simp [Expr.isRegular, l.isRegular_of_plain hl, r.isRegular_of_plain hr]
  | .logical _ l r, h => by
    obtain ⟨hl, hr⟩ := List.append_eq_nil_iff.1 h
    simp [Expr.isRegular, Expr.hasSuspend, l.isRegular_of_plain hl, hr]
  | .cond t y n, h => by
    simp only [Expr.suspends, List.append_eq_nil_iff] at h
    simp [Expr.isRegular, Expr.hasSuspend, t.isRegular_of_plain h.1.1, h.1.2, h.2]
  | .update _ _ e, h => by
    have h : e.suspends inAsync = [] := h
    simp [Expr.isRegular, Expr.hasSuspend, h]
  | .assign _ target value, h => by
    obtain ⟨ht, hv⟩ := List.append_eq_nil_iff.1 h
    simp [Expr.isRegular, Expr.hasSuspend, ht, value.isRegular_of_plain hv]
  | .call f args, h | .new f args, h => by
    obtain ⟨hf, ha⟩ := List.append_eq_nil_iff.1 h
    simp [Expr.isRegular, f.isRegular_of_plain hf, areRegular_of_plain args ha]
  | .array items, h => itemsAreRegular_of_plain items h
  | .object ps, h => propertiesAreRegular_of_plain ps h
  | .seq items, h => areRegular_of_plain items h

theorem areRegular_of_plain : (es : List Expr) → listSuspends inAsync es = [] →
    areRegular inAsync es = true
  | [], _ => rfl
  | e :: es, h => by
    obtain ⟨he, hes⟩ := List.append_eq_nil_iff.1 h
    simp [areRegular, e.isRegular_of_plain he, areRegular_of_plain es hes]

theorem itemsAreRegular_of_plain : (items : List (Option Expr)) →
    itemsSuspends inAsync items = [] → itemsAreRegular inAsync items = true
  | [], _ => rfl
  | none :: items, h => itemsAreRegular_of_plain items h
  | some e :: items, h => by
    obtain ⟨he, hes⟩ := List.append_eq_nil_iff.1 h
    simp [itemsAreRegular, e.isRegular_of_plain he, itemsAreRegular_of_plain items hes]

theorem propertiesAreRegular_of_plain : (ps : List Property) →
    propertiesSuspends inAsync ps = [] → propertiesAreRegular inAsync ps = true
  | [], _ => rfl
  | .mk (.computed k) v :: ps, h => by
    simp only [propertiesSuspends, List.append_eq_nil_iff] at h
    simp [propertiesAreRegular, k.isRegular_of_plain h.1.1, v.isRegular_of_plain h.1.2,
      propertiesAreRegular_of_plain ps h.2]
  | .mk (.ident _) v :: ps, h | .mk (.str _) v :: ps, h | .mk (.num _) v :: ps, h => by
    obtain ⟨hv, hps⟩ := List.append_eq_nil_iff.1 h
    simp [propertiesAreRegular, v.isRegular_of_plain hv, propertiesAreRegular_of_plain ps hps]

end

theorem suspends_of_plain {e : Expr} (h : e.hasSuspend inAsync = false) :
    e.suspends inAsync = [] := by
  simpa [Expr.hasSuspend] using h

theorem yields_of_plain {e : Expr} (h : e.hasSuspend inAsync = false) : e.suspends false = [] := by
  rw [suspends_false_eq inAsync, suspends_of_plain h]
  rfl

theorem isHoistable_of_plain {e : Expr} (h : e.hasSuspend inAsync = false) :
    e.isHoistable inAsync = true := by
  simp [Expr.isHoistable, e.isRegular_of_plain (suspends_of_plain h), yields_of_plain h]

theorem areHoistable_cons (e : Expr) (es : List Expr) :
    areHoistable inAsync (e :: es) = (e.isHoistable inAsync && areHoistable inAsync es) := by
  simp only [areHoistable, Expr.isHoistable, areRegular, listSuspends, List.any_append, Bool.not_or]
  ac_rfl

theorem areHoistable_of_plain {es : List Expr} (h : listHasSuspend inAsync es = false) :
    areHoistable inAsync es = true := by
  induction es with
  | nil => rfl
  | cons e es ih =>
    obtain ⟨he, hes⟩ := Bool.or_eq_false_iff.1 ((listHasSuspend_cons ..).symm.trans h)
    rw [areHoistable_cons, isHoistable_of_plain he, ih hes]
    rfl

theorem isHoistable_of_isSimpleSuspend {e : Expr} (h : e.isSimpleSuspend inAsync = true) :
    e.isHoistable inAsync = true := by
  match e with
  | .yield none | .yieldStar none => rfl
  | .yield (some d) | .yieldStar (some d) =>
    have hd : d.hasSuspend inAsync = false := by simpa [Expr.isSimpleSuspend] using h
    simp [Expr.isHoistable, Expr.isRegular, Expr.suspends, Expr.wrapsYield, Expr.yields,
      d.isRegular_of_plain (suspends_of_plain hd), yields_of_plain hd]
  | .await d =>
    simp only [Expr.isSimpleSuspend, Bool.and_eq_true, Bool.not_eq_true'] at h
    simp [Expr.isHoistable, Expr.isRegular, Expr.suspends,
      d.isRegular_of_plain (suspends_of_plain h.2), yields_of_plain h.2]

theorem isHoistable_of_isSimpleEffect {e : Expr} (h : e.isSimpleEffect inAsync = true) :
    e.isHoistable inAsync = true := by
  rw [Expr.isSimpleEffect.eq_def] at h
  split at h
  · have hvalue := isHoistable_of_isSimpleSuspend h
    simpa [Expr.isHoistable, Expr.isRegular, Expr.hasSuspend, Expr.suspends] using hvalue
  · exact isHoistable_of_isSimpleSuspend h

end Plain

end Resumable
