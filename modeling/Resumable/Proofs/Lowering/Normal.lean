import Resumable.Lowering.Stmt
import Resumable.Proofs.Lowering.Hoisting

/-!
The form of lowered bodies. Every suspend point of a lowered body is a simple effect, and the
suspend points are those of the body before, in the same order. Main statements:
`Hoists.sound`, `lowerStmts_sound`.
-/

set_option autoImplicit false

namespace Resumable

/-- What the outside sees of a suspend expression. -/
inductive SuspendForm where
  | yield (isBare : Bool)
  | delegate (isBare : Bool)
  | await
  deriving DecidableEq, Repr

def Expr.form : Expr → SuspendForm
  | .yield operand => .yield operand.isNone
  | .yieldStar operand => .delegate operand.isNone
  | _ => .await

/-- The forms of the suspend points, in the order in which they are reached. -/
def Expr.forms (inAsync : Bool) (e : Expr) : List SuspendForm := (e.suspends inAsync).map Expr.form

def listForms (inAsync : Bool) (es : List Expr) : List SuspendForm :=
  es.flatMap (Expr.forms inAsync)

@[simp] theorem listForms_nil (inAsync : Bool) : listForms inAsync [] = [] := rfl

@[simp] theorem listForms_cons (inAsync : Bool) (e : Expr) (es : List Expr) :
    listForms inAsync (e :: es) = e.forms inAsync ++ listForms inAsync es := by
  simp [listForms]

@[simp] theorem listForms_append (inAsync : Bool) (es ds : List Expr) :
    listForms inAsync (es ++ ds) = listForms inAsync es ++ listForms inAsync ds := by
  simp [listForms]

theorem forms_eq_nil_iff (inAsync : Bool) (e : Expr) :
    e.forms inAsync = [] ↔ e.hasSuspend inAsync = false := by
  simp [Expr.forms, Expr.hasSuspend]

theorem map_form_listSuspends (inAsync : Bool) (es : List Expr) :
    (listSuspends inAsync es).map Expr.form = listForms inAsync es := by
  induction es with
  | nil => rfl
  | cons e es ih => simp [listSuspends, ih, Expr.forms]

theorem listForms_eq_nil_iff (inAsync : Bool) (es : List Expr) :
    listForms inAsync es = [] ↔ listHasSuspend inAsync es = false := by
  simp [← map_form_listSuspends, listHasSuspend]

@[simp] theorem forms_ident (inAsync : Bool) (name : String) :
    (Expr.ident name).forms inAsync = [] := rfl

@[simp] theorem forms_assign (inAsync : Bool) (op : AssignOp) (target value : Expr) :
    (Expr.assign op target value).forms inAsync = target.forms inAsync ++ value.forms inAsync := by
  simp [Expr.forms, Expr.suspends]

@[simp] theorem forms_binary (inAsync : Bool) (op : BinaryOp) (l r : Expr) :
    (Expr.binary op l r).forms inAsync = l.forms inAsync ++ r.forms inAsync := by
  simp [Expr.forms, Expr.suspends]

@[simp] theorem forms_index (inAsync : Bool) (l r : Expr) :
    (Expr.index l r).forms inAsync = l.forms inAsync ++ r.forms inAsync := by
  simp [Expr.forms, Expr.suspends]

@[simp] theorem forms_seq (inAsync : Bool) (es : List Expr) :
    (Expr.seq es).forms inAsync = listForms inAsync es := by
  simp [Expr.forms, Expr.suspends, map_form_listSuspends]

theorem suspends_composite (inAsync : Bool) (e : Expr) (h : e.isComposite inAsync) :
    e.suspends inAsync = listSuspends inAsync e.operands := by
  cases e with
  | array items =>
    simp only [Expr.suspends, Expr.operands]
    exact itemsSuspends_eq inAsync items
  | object ps => exact propertiesSuspends_eq inAsync ps
  | call f args => cases f <;> simp [Expr.suspends, Expr.operands, listSuspends]
  | await e => simp_all [Expr.isComposite, Expr.suspends, Expr.operands, listSuspends]
  | logical op l r =>
    simp_all [Expr.isComposite, Expr.suspends, Expr.operands, listSuspends, Expr.hasSuspend]
  | cond t y n =>
    simp_all [Expr.isComposite, Expr.suspends, Expr.operands, listSuspends, Expr.hasSuspend]
  | unary | binary | new | dot | index | spread | typeof | void =>
    simp [Expr.suspends, Expr.operands, listSuspends]
  | _ => simp [Expr.isComposite] at h

theorem suspends_refillItems (inAsync : Bool) (items : List (Option Expr)) (es : List Expr)
    (hl : es.length = (items.filterMap id).length) :
    itemsSuspends inAsync (refillItems items es) = listSuspends inAsync es := by
  induction items generalizing es with
  | nil =>
    have : es = [] := List.length_eq_zero_iff.1 hl
    simp [this, refillItems, itemsSuspends, listSuspends]
  | cons item items ih =>
    cases item with
    | none => simpa [refillItems, itemsSuspends] using ih es hl
    | some d =>
      cases es with
      | nil => simp at hl
      | cons e es =>
        simp only [refillItems, itemsSuspends, listSuspends]
        rw [ih es (by simpa using hl)]

theorem suspends_refillProperties (inAsync : Bool) (ps : List Property) (es : List Expr)
    (hl : es.length = (propertyOperands ps).length) :
    propertiesSuspends inAsync (refillProperties ps es) = listSuspends inAsync es := by
  induction ps generalizing es with
  | nil =>
    have : es = [] := List.length_eq_zero_iff.1 hl
    simp [this, refillProperties, propertiesSuspends, listSuspends]
  | cons p ps ih =>
    obtain ⟨key, d⟩ := p
    cases key with
    | computed k =>
      obtain ⟨k, es, rfl⟩ := List.exists_cons_of_length_eq_add_one hl
      obtain ⟨v, es, rfl⟩ := List.exists_cons_of_length_eq_add_one (Nat.succ.inj hl)
      simp only [refillProperties, propertiesSuspends, listSuspends]
      rw [ih es (by simpa using hl), List.append_assoc]
    | ident name | str name | num name =>
      obtain ⟨v, es, rfl⟩ := List.exists_cons_of_length_eq_add_one hl
      simp only [refillProperties, propertiesSuspends, listSuspends]
      rw [ih es (Nat.succ.inj hl)]

theorem suspends_withOperands (inAsync : Bool) (e : Expr) (es : List Expr)
    (h : e.isComposite inAsync) (hl : es.length = e.operands.length) :
    (e.withOperands es).suspends inAsync = listSuspends inAsync es := by
  cases e with
  | array items => exact suspends_refillItems inAsync items es hl
  | object ps => exact suspends_refillProperties inAsync ps es hl
  | call f args =>
    rcases f.member_cases with ⟨t, name, rfl⟩ | ⟨t, key, rfl⟩ | hf
    · obtain ⟨t, es, rfl⟩ := List.exists_cons_of_length_eq_add_one hl
      simp [Expr.withOperands, Expr.suspends, listSuspends]
    · obtain ⟨t, es, rfl⟩ := List.exists_cons_of_length_eq_add_one hl
      obtain ⟨k, es, rfl⟩ := List.exists_cons_of_length_eq_add_one (Nat.succ.inj hl)
      simp [Expr.withOperands, Expr.suspends, listSuspends]
    · rw [operands_call f args hf] at hl
      obtain ⟨g, es, rfl⟩ := List.exists_cons_of_length_eq_add_one hl
      simp [withOperands_call f args hf, Expr.suspends, listSuspends]
  | new f args =>
    obtain ⟨g, es, rfl⟩ := List.exists_cons_of_length_eq_add_one hl
    simp [Expr.withOperands, Expr.suspends, listSuspends]
  | binary op l r | index l r =>
    obtain ⟨l, es, rfl⟩ := List.exists_cons_of_length_eq_add_one hl
    obtain ⟨r, rfl⟩ := List.length_eq_one_iff.1 (Nat.succ.inj hl)
    simp [Expr.withOperands, Expr.suspends, listSuspends]
  | await d | logical op d r | cond d y n | unary op d | typeof d | void d | spread d | dot d name =>
    obtain ⟨e, rfl⟩ := List.length_eq_one_iff.1 hl
    simp_all [Expr.isComposite, Expr.withOperands, Expr.suspends, listSuspends, Expr.hasSuspend]
  | _ => simp [Expr.isComposite] at h

theorem forms_composite (inAsync : Bool) (e : Expr) (h : e.isComposite inAsync) :
    e.forms inAsync = listForms inAsync e.operands := by
  rw [Expr.forms, suspends_composite inAsync e h, map_form_listSuspends]

theorem forms_withOperands (inAsync : Bool) (e : Expr) (es : List Expr)
    (h : e.isComposite inAsync) (hl : es.length = e.operands.length) :
    (e.withOperands es).forms inAsync = listForms inAsync es := by
  rw [Expr.forms, suspends_withOperands inAsync e es h hl, map_form_listSuspends]

/-- An expression that suspends only if it is a simple effect. -/
def Expr.isEffect (inAsync : Bool) (e : Expr) : Bool :=
  !e.hasSuspend inAsync || e.isSimpleEffect inAsync

theorem isEffect_of_forms {inAsync : Bool} {e : Expr} (h : e.forms inAsync = []) :
    e.isEffect inAsync = true := by
  simp [Expr.isEffect, (forms_eq_nil_iff inAsync e).1 h]

theorem run_spill_ok (e : Expr) (s : Hoisted) (n m : SlotNumber)
    (hr : e.spill.run n = .ok (s, m)) :
    (∃ d t, e = .spread d ∧ d.spill.run n = .ok (t, m) ∧ s = ⟨t.before, .spread t.rest⟩) ∨
    (e.isInert = true ∧ s = ⟨[], e⟩ ∧ m = n) ∨
    (s = ⟨[.assign .set (.ident (slotName n)) e], .ident (slotName n)⟩ ∧ m = n + 1) := by
  rw [Expr.spill.eq_def] at hr
  split at hr
  · rename_i d
    simp only [run_bind_ok, run_pure_ok] at hr
    obtain ⟨t, k, ht, rfl, rfl⟩ := hr
    exact .inl ⟨d, t, rfl, ht, rfl⟩
  · split at hr
    · rename_i hinert
      obtain ⟨rfl, rfl⟩ := (run_pure_ok ..).1 hr
      exact .inr (.inl ⟨hinert, rfl, rfl⟩)
    · obtain ⟨rfl, rfl⟩ := (run_storeSlot_ok ..).1 hr
      exact .inr (.inr ⟨rfl, rfl⟩)

theorem spill_forms (inAsync : Bool) (e : Expr) (s : Hoisted) (n m : SlotNumber)
    (hr : e.spill.run n = .ok (s, m)) (he : e.forms inAsync = []) :
    s.rest.forms inAsync = [] ∧ listForms inAsync s.before = [] := by
  rcases run_spill_ok e s n m hr with ⟨d, t, rfl, ht, rfl⟩ | ⟨-, rfl, -⟩ | ⟨rfl, -⟩
  · exact spill_forms inAsync d t n m ht he
  · simp [he]
  · simp [he]
termination_by sizeOf e

theorem spillTarget_forms (inAsync : Bool) (e : Expr) (s : Hoisted) (n m : SlotNumber)
    (hr : e.spillTarget.run n = .ok (s, m)) (he : e.forms inAsync = []) :
    s.rest.forms inAsync = [] ∧ listForms inAsync s.before = [] := by
  rw [Expr.spillTarget.eq_def] at hr
  split at hr
  · simp only [run_bind_ok, run_pure_ok] at hr
    obtain ⟨t, k, ht, rfl, rfl⟩ := hr
    exact spill_forms inAsync _ t n k ht he
  · rename_i t i
    simp only [run_bind_ok, run_pure_ok] at hr
    obtain ⟨t', k, ht, i', k', hi, rfl, rfl⟩ := hr
    rw [forms_index, List.append_eq_nil_iff] at he
    have ht := spill_forms inAsync t t' n k ht he.1
    have hi := spill_forms inAsync i i' k k' hi he.2
    simp [ht, hi]
  · obtain ⟨rfl, rfl⟩ := (run_pure_ok ..).1 hr
    simp [Hoisted.plain, he]

theorem settle_forms (inAsync : Bool) (later : Bool) (h s : Hoisted) (n m : SlotNumber)
    (hr : (h.settle later).run n = .ok (s, m)) (he : h.rest.forms inAsync = []) :
    s.rest.forms inAsync = [] ∧ ∃ ds, s.before = h.before ++ ds ∧ listForms inAsync ds = [] := by
  rw [Hoisted.settle] at hr
  split at hr
  · simp only [run_bind_ok, run_pure_ok] at hr
    obtain ⟨t, k, ht, rfl, rfl⟩ := hr
    have ht := spill_forms inAsync _ t n k ht he
    exact ⟨ht.1, t.before, rfl, ht.2⟩
  · obtain ⟨rfl, rfl⟩ := (run_pure_ok ..).1 hr
    exact ⟨he, [], by simp, rfl⟩

/-- Whether expressions can stand as statements of a lowered body. -/
def AreEffects (inAsync : Bool) (es : List Expr) : Prop := ∀ e ∈ es, e.isEffect inAsync = true

theorem areEffects_append {inAsync : Bool} {es ds : List Expr} (he : AreEffects inAsync es)
    (hd : AreEffects inAsync ds) : AreEffects inAsync (es ++ ds) := by
  intro e h
  rcases List.mem_append.1 h with h | h
  · exact he e h
  · exact hd e h

theorem areEffects_of_forms {inAsync : Bool} {es : List Expr} (h : listForms inAsync es = []) :
    AreEffects inAsync es := by
  intro e he
  exact isEffect_of_forms (List.flatMap_eq_nil_iff.1 h e he)

theorem areEffects_one {inAsync : Bool} {e : Expr} (h : e.isSimpleEffect inAsync) :
    AreEffects inAsync [e] := by
  simp [AreEffects, Expr.isEffect, h]

theorem effects_forms (inAsync : Bool) (h : Hoisted) (hr : h.rest.forms inAsync = []) :
    (AreEffects inAsync h.before → AreEffects inAsync h.effects) ∧
      listForms inAsync h.effects = listForms inAsync h.before := by
  rw [Hoisted.effects]
  split
  · exact ⟨id, rfl⟩
  · refine ⟨fun hb => areEffects_append hb (areEffects_of_forms ?_), ?_⟩ <;> simp [hr]

theorem forms_ofItems (inAsync : Bool) (es : List Expr) :
    (Expr.ofItems es).forms inAsync = listForms inAsync es := by
  rw [Expr.ofItems.eq_def]
  split <;> simp

namespace Suspends

variable {inAsync : Bool} {wrap : Expr → Expr}

theorem forms (hw : Suspends inAsync wrap) (e : Expr) :
    (wrap e).forms inAsync = e.forms inAsync ++ [(wrap e).form] := by
  cases hw with
  | yield | yieldStar => simp [Expr.forms, Expr.suspends]
  | await ha => simp [Expr.forms, Expr.suspends, ha]

theorem form_eq (hw : Suspends inAsync wrap) (e d : Expr) : (wrap e).form = (wrap d).form := by
  cases hw <;> rfl

theorem isSimpleSuspend (hw : Suspends inAsync wrap) {e : Expr} (he : e.forms inAsync = []) :
    (wrap e).isSimpleSuspend inAsync = true := by
  rw [forms_eq_nil_iff] at he
  cases hw with
  | yield | yieldStar => simp [Expr.isSimpleSuspend, he]
  | await ha =>
    subst ha
    simp [Expr.isSimpleSuspend, he]

end Suspends

/-- What hoisting promises of each part of its work: nothing suspends in what is left, what goes
before is made of effects, and no suspend point is lost or moved. -/
def Hoisting.Sound (inAsync : Bool) : Hoisting → Prop
  | .expr e h => h.rest.forms inAsync = [] ∧ AreEffects inAsync h.before ∧
      listForms inAsync h.before = e.forms inAsync
  | .operands es before rest => rest.length = es.length ∧ listForms inAsync rest = [] ∧
      AreEffects inAsync before ∧ listForms inAsync before = listForms inAsync es
  | .effects es before =>
      AreEffects inAsync before ∧ listForms inAsync before = listForms inAsync es
  | .items es h => h.rest.forms inAsync = [] ∧ AreEffects inAsync h.before ∧
      listForms inAsync h.before = listForms inAsync es

theorem Hoists.sound {inAsync : Bool} {n m : SlotNumber} {w : Hoisting}
    (h : Hoists inAsync n w m) : w.Sound inAsync := by
  induction h with
  | plain he =>
    rw [← forms_eq_nil_iff] at he
    exact ⟨he, by simp [AreEffects], he.symm⟩
  | bare he =>
    refine ⟨rfl, areEffects_one ?_, by simp⟩
    cases he <;> rfl
  | suspend hw _ ih =>
    obtain ⟨hr, hb, hf⟩ := ih
    refine ⟨rfl, areEffects_append hb (areEffects_one ?_), ?_⟩
    · exact hw.isSimpleSuspend hr
    · simp [hf, hw.forms, hr, hw.form_eq _ Expr.null]
  | composite _ hc _ ih =>
    obtain ⟨hl, hr, hb, hf⟩ := ih
    refine ⟨?_, hb, ?_⟩
    · rw [forms_withOperands inAsync _ _ hc hl, hr]
    · rw [hf, forms_composite inAsync _ hc]
  | assign _ ht hr _ ih =>
    obtain ⟨hv, hb, hf⟩ := ih
    rw [← forms_eq_nil_iff] at ht
    obtain ⟨h1, h2⟩ := spillTarget_forms inAsync _ _ _ _ hr ht
    exact ⟨by simp [h1, hv], areEffects_append (areEffects_of_forms h2) hb, by simp [h2, hf, ht]⟩
  | compound ho _ ht hr hs _ ih =>
    obtain ⟨hv, hb, hf⟩ := ih
    rw [← forms_eq_nil_iff] at ht
    obtain ⟨h1, h2⟩ := spillTarget_forms inAsync _ _ _ _ hr ht
    obtain ⟨h3, h4⟩ := spill_forms inAsync _ _ _ _ hs h1
    refine ⟨by simp [h1, h3, hv], ?_, by simp [h2, h4, hf, ht]⟩
    exact areEffects_append (areEffects_append (areEffects_of_forms h2) (areEffects_of_forms h4)) hb
  | sequence _ _ ih =>
    obtain ⟨hr, hb, hf⟩ := ih
    exact ⟨hr, hb, by rw [hf, forms_seq]⟩
  | noOperand => exact ⟨rfl, rfl, by simp [AreEffects], rfl⟩
  | operand _ hs _ ihe ihes =>
    obtain ⟨hr, hb, hf⟩ := ihe
    obtain ⟨hl, hr', hb', hf'⟩ := ihes
    obtain ⟨h1, ds, h2, h3⟩ := settle_forms inAsync _ _ _ _ _ hs hr
    rw [h2]
    refine ⟨by simp [hl], by simp [h1, hr'], ?_, by simp [hf, h3, hf']⟩
    exact areEffects_append (areEffects_append hb (areEffects_of_forms h3)) hb'
  | noEffect => exact ⟨by simp [AreEffects], rfl⟩
  | innerEffects _ _ ih ih' => exact ⟨areEffects_append ih.1 ih'.1, by simp [ih.2, ih'.2]⟩
  | simpleEffect he _ ih =>
    exact ⟨areEffects_append (areEffects_one he) ih.1, by simp [ih.2]⟩
  | effect _ _ ih ih' =>
    obtain ⟨hr, hb, hf⟩ := ih
    obtain ⟨h1, h2⟩ := effects_forms inAsync _ hr
    exact ⟨areEffects_append (h1 hb) ih'.1, by simp [h2, hf, ih'.2]⟩
  | lastItem _ ih => simpa [Hoisting.Sound] using ih
  | item _ _ _ ih ih' =>
    obtain ⟨hr, hb, hf⟩ := ih'
    exact ⟨hr, areEffects_append ih.1 hb, by simp [Hoisted.after, ih.2, hf]⟩
  | lastEffect _ _ hs ih =>
    rw [← listForms_eq_nil_iff] at hs
    exact ⟨by rw [forms_ofItems, hs], ih.1, by simpa [hs] using ih.2⟩

end Resumable
