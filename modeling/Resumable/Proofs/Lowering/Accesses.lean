import Resumable.Plan.Basic
import Resumable.Proofs.Lowering.Places
import Resumable.Script.Slots

/-!
The names that code reads and writes itself, those inside functions left out. `Expr.accesses` lists them
for an expression, in the order of the text, `bodyAccesses` for statements and `Instr.accesses` for an
instruction. Main statements: `uses_eq`, `accesses_withOperands`, `mem_slots`, `mem_bodySlots`.
-/

set_option autoImplicit false

namespace Resumable

/-- A name at one place in a text. An assignment with an operator counts as a write only, and so does
the declaration of a name. -/
inductive Access where
  | read (name : String)
  | write (name : String)
  deriving DecidableEq

namespace Access

def name : Access → String
  | read x | write x => x

/-- The access to the same name from the left of an assignment. -/
def toWrite (a : Access) : Access := write a.name

@[simp] theorem name_read (x : String) : (read x).name = x := rfl

@[simp] theorem name_write (x : String) : (write x).name = x := rfl

@[simp] theorem name_toWrite (a : Access) : a.toWrite.name = a.name := rfl

end Access

def Expr.isIdent : Expr → Bool
  | .ident _ => true
  | _ => false

/-- What a target of an assignment accesses, given what it accesses as an operand: a name is written,
the parts of a member are read. -/
def Expr.aim (target : Expr) (accesses : List Access) : List Access :=
  if target.isIdent then accesses.map Access.toWrite else accesses

@[simp] theorem map_name_aim (target : Expr) (as : List Access) :
    (target.aim as).map Access.name = as.map Access.name := by
  unfold Expr.aim
  split
  · simp
  · rfl

mutual

/-- The names that evaluation of an expression accesses itself. A named function binds its own name. -/
def Expr.accesses : Expr → List Access
  | .null | .bool _ | .num _ | .str _ | .this | .arrow _ | .lambda _ _ _ => []
  | .ident name => [.read name]
  | .function name _ => name.toList.map .write
  | .array items => itemsAccesses items
  | .object properties => propertiesAccesses properties
  | .unary _ e | .spread e | .typeof e | .void e | .dot e _ | .await e => e.accesses
  | .update _ _ target => target.aim target.accesses
  | .assign _ target value => target.aim target.accesses ++ value.accesses
  | .binary _ l r | .logical _ l r | .index l r => l.accesses ++ r.accesses
  | .cond t y n => t.accesses ++ y.accesses ++ n.accesses
  | .call f args | .new f args => f.accesses ++ listAccesses args
  | .seq items => listAccesses items
  | .yield none | .yieldStar none => []
  | .yield (some e) | .yieldStar (some e) => e.accesses

def listAccesses : List Expr → List Access
  | [] => []
  | e :: es => e.accesses ++ listAccesses es

def itemsAccesses : List (Option Expr) → List Access
  | [] => []
  | none :: es => itemsAccesses es
  | some e :: es => e.accesses ++ itemsAccesses es

def propertiesAccesses : List Property → List Access
  | [] => []
  | .mk (.computed k) v :: ps => k.accesses ++ v.accesses ++ propertiesAccesses ps
  | .mk (.ident _) v :: ps | .mk (.str _) v :: ps | .mk (.num _) v :: ps =>
    v.accesses ++ propertiesAccesses ps

end

@[simp] theorem listAccesses_append (es ds : List Expr) :
    listAccesses (es ++ ds) = listAccesses es ++ listAccesses ds := by
  induction es with
  | nil => rfl
  | cons e es ih => simp only [List.cons_append, listAccesses, ih, List.append_assoc]

mutual

/-- The names that are accessed are those that are used. -/
theorem uses_eq : (e : Expr) → e.uses = e.accesses.map Access.name
  | .null | .bool _ | .num _ | .str _ | .this | .arrow _ | .lambda _ _ _ | .ident _
  | .yield none | .yieldStar none => rfl
  | .function name _ => by cases name <;> rfl
  | .array items => itemsUses_accesses items
  | .object properties => propertiesUses_accesses properties
  | .unary _ e | .spread e | .typeof e | .void e | .dot e _ | .await e => uses_eq e
  | .yield (some e) | .yieldStar (some e) => uses_eq e
  | .update _ _ target => by simp [Expr.uses, Expr.accesses, uses_eq target]
  | .assign _ target value => by
    simp [Expr.uses, Expr.accesses, uses_eq target, uses_eq value]
  | .binary _ l r | .logical _ l r | .index l r => by
    simp [Expr.uses, Expr.accesses, uses_eq l, uses_eq r]
  | .cond t y n => by simp [Expr.uses, Expr.accesses, uses_eq t, uses_eq y, uses_eq n]
  | .call f args | .new f args => by
    simp [Expr.uses, Expr.accesses, uses_eq f, listUses_eq args]
  | .seq items => listUses_eq items

theorem listUses_eq : (es : List Expr) → listUses es = (listAccesses es).map Access.name
  | [] => rfl
  | e :: es => by simp [listUses, listAccesses, uses_eq e, listUses_eq es]

theorem itemsUses_accesses : (items : List (Option Expr)) →
    itemsUses items = (itemsAccesses items).map Access.name
  | [] => rfl
  | none :: items => itemsUses_accesses items
  | some e :: items => by
    simp [itemsUses, itemsAccesses, uses_eq e, itemsUses_accesses items]

theorem propertiesUses_accesses : (ps : List Property) →
    propertiesUses ps = (propertiesAccesses ps).map Access.name
  | [] => rfl
  | .mk (.computed k) v :: ps => by
    simp [propertiesUses, propertiesAccesses, uses_eq k, uses_eq v, propertiesUses_accesses ps]
  | .mk (.ident _) v :: ps | .mk (.str _) v :: ps | .mk (.num _) v :: ps => by
    simp [propertiesUses, propertiesAccesses, uses_eq v, propertiesUses_accesses ps]

end

theorem accesses_refillItems (items : List (Option Expr)) (es : List Expr) :
    ∀ a ∈ itemsAccesses (refillItems items es), a ∈ listAccesses es := by
  induction items generalizing es with
  | nil => exact fun _ => nofun
  | cons item items ih =>
    cases item with
    | none => exact ih es
    | some d =>
      cases es with
      | nil => exact fun _ => nofun
      | cons e es => exact fun a ha => List.mem_append.2 ((List.mem_append.1 ha).imp_right (ih es a))

theorem accesses_refillProperties (ps : List Property) (es : List Expr) :
    ∀ a ∈ propertiesAccesses (refillProperties ps es),
      a ∈ listAccesses es ∨ a ∈ propertiesAccesses ps := by
  induction ps generalizing es with
  | nil => exact fun _ => nofun
  | cons p ps ih =>
    obtain ⟨key, d⟩ := p
    intro a ha
    cases key with
    | computed k =>
      cases es with
      | nil => cases ha
      | cons e es =>
        cases es with
        | nil =>
          have := ih [] a
          simp only [refillProperties, propertiesAccesses, listAccesses, List.mem_append] at ha ⊢
          grind [listAccesses]
        | cons v es =>
          have := ih es a
          simp only [refillProperties, propertiesAccesses, listAccesses, List.mem_append] at ha ⊢
          grind
    | ident | str | num =>
      cases es with
      | nil => cases ha
      | cons v es =>
        have := ih es a
        simp only [refillProperties, propertiesAccesses, listAccesses, List.mem_append] at ha ⊢
        grind

/-- With other operands an expression accesses what these access, and what it did before. -/
theorem accesses_withOperands (e : Expr) (es : List Expr) :
    ∀ a ∈ (e.withOperands es).accesses, a ∈ listAccesses es ∨ a ∈ e.accesses := by
  fun_cases Expr.withOperands e es
  all_goals
    intro a ha
    first
    | exact .inr ha
    | exact .inl (accesses_refillItems _ es a ha)
    | exact accesses_refillProperties _ es a ha
    | simp only [Expr.accesses, listAccesses, List.mem_append] at ha ⊢
      grind

mutual

/-- A slot that is filled is written. -/
theorem mem_slots : (e : Expr) → ∀ x ∈ e.slots, isSlotName x = true ∧ .write x ∈ e.accesses
  | .seq items, x, hx => mem_listSlots items x hx
  | .assign .set (.ident name) value, x, hx => by
    simp only [Expr.slots] at hx
    split at hx
    · rename_i hslot
      obtain rfl := List.mem_singleton.1 hx
      exact ⟨hslot, by simp [Expr.accesses, Expr.aim, Expr.isIdent, Access.toWrite]⟩
    · cases hx

theorem mem_listSlots : (es : List Expr) →
    ∀ x ∈ listSlots es, isSlotName x = true ∧ .write x ∈ listAccesses es
  | e :: es, x, hx => by
    rcases List.mem_append.1 hx with h | h
    · exact (mem_slots e x h).imp_right (List.mem_append_left _)
    · exact (mem_listSlots es x h).imp_right (List.mem_append_right _)

end

def optionAccesses : Option Expr → List Access
  | some e => e.accesses
  | none => []

def Key.accesses : Key → List Access
  | .computed k => k.accesses
  | .ident _ | .str _ | .num _ => []

mutual

/-- What it takes to bind a pattern: its names are written, its defaults and keys evaluated. -/
def Pattern.accesses : Pattern → List Access
  | .ident name => [.write name]
  | .array items => elementAccesses items
  | .object fields => binderAccesses fields
  | .withDefault p e => e.accesses ++ p.accesses
  | .rest p => p.accesses

def elementAccesses : List (Option Item) → List Access
  | [] => []
  | none :: items => elementAccesses items
  | some (.one p) :: items | some (.rest p) :: items => p.accesses ++ elementAccesses items

def binderAccesses : List Binder → List Access
  | [] => []
  | .shorthand name :: fields => .write name :: binderAccesses fields
  | .keyed key p :: fields => key.accesses ++ p.accesses ++ binderAccesses fields

end

def Declarator.accesses : Declarator → List Access
  | .mk p init => optionAccesses init ++ p.accesses

def ForInit.accesses : ForInit → List Access
  | .absent => []
  | .declare _ ds => ds.flatMap Declarator.accesses
  | .expr e => e.accesses

def ForTarget.accesses (target : ForTarget) : List Access := target.pattern.accesses

mutual

/-- The names that a statement accesses itself. -/
def Stmt.accesses : Stmt → List Access
  | .empty | .brk _ | .cont _ => []
  | .expr e | .throw e => e.accesses
  | .ret e => optionAccesses e
  | .block body => bodyAccesses body
  | .declare _ ds => ds.flatMap Declarator.accesses
  | .ifElse t y none => t.accesses ++ y.accesses
  | .ifElse t y (some n) => t.accesses ++ y.accesses ++ n.accesses
  | .whileDo t b => t.accesses ++ b.accesses
  | .doWhile b t => b.accesses ++ t.accesses
  | .forLoop i t u b => i.accesses ++ optionAccesses t ++ optionAccesses u ++ b.accesses
  | .forIn target e b | .forOf target e b _ => target.accesses ++ e.accesses ++ b.accesses
  | .tryCatch b none none => bodyAccesses b
  | .tryCatch b none (some f) => bodyAccesses b ++ bodyAccesses f
  | .tryCatch b (some (.mk p h)) none =>
    bodyAccesses b ++ p.toList.flatMap Pattern.accesses ++ bodyAccesses h
  | .tryCatch b (some (.mk p h)) (some f) =>
    bodyAccesses b ++ p.toList.flatMap Pattern.accesses ++ bodyAccesses h ++ bodyAccesses f
  | .switch e cases => e.accesses ++ caseAccesses cases
  | .labeled _ s => s.accesses
  | .function name _ => [.write name]

def bodyAccesses : List Stmt → List Access
  | [] => []
  | s :: ss => s.accesses ++ bodyAccesses ss

def caseAccesses : List Case → List Access
  | [] => []
  | .mk t body :: cases => optionAccesses t ++ bodyAccesses body ++ caseAccesses cases

end

@[simp] theorem bodyAccesses_append (ss ts : List Stmt) :
    bodyAccesses (ss ++ ts) = bodyAccesses ss ++ bodyAccesses ts := by
  induction ss with
  | nil => rfl
  | cons s ss ih => simp only [List.cons_append, bodyAccesses, ih, List.append_assoc]

theorem mem_optionSlots : (e : Option Expr) →
    ∀ x ∈ optionSlots e, isSlotName x = true ∧ .write x ∈ optionAccesses e
  | some e, x, hx => mem_slots e x hx

theorem mem_initSlots : (i : ForInit) →
    ∀ x ∈ i.slots, isSlotName x = true ∧ .write x ∈ i.accesses
  | .expr e, x, hx => mem_slots e x hx

theorem mem_slots_append {xs ys : List String} {as bs : List Access}
    (h : ∀ x ∈ xs, isSlotName x = true ∧ .write x ∈ as)
    (h' : ∀ x ∈ ys, isSlotName x = true ∧ .write x ∈ bs) :
    ∀ x ∈ xs ++ ys, isSlotName x = true ∧ .write x ∈ as ++ bs := by
  intro x hx
  rcases List.mem_append.1 hx with hx | hx
  · exact (h x hx).imp_right (List.mem_append_left _)
  · exact (h' x hx).imp_right (List.mem_append_right _)

theorem mem_slots_after {xs : List String} {as : List Access} (bs : List Access)
    (h : ∀ x ∈ xs, isSlotName x = true ∧ .write x ∈ as) :
    ∀ x ∈ xs, isSlotName x = true ∧ .write x ∈ bs ++ as :=
  fun x hx => (h x hx).imp_right (List.mem_append_right _)

theorem mem_slots_before {xs : List String} {as : List Access} (bs : List Access)
    (h : ∀ x ∈ xs, isSlotName x = true ∧ .write x ∈ as) :
    ∀ x ∈ xs, isSlotName x = true ∧ .write x ∈ as ++ bs :=
  fun x hx => (h x hx).imp_right (List.mem_append_left _)

mutual

theorem mem_stmtSlots : (s : Stmt) → ∀ x ∈ s.slots, isSlotName x = true ∧ .write x ∈ s.accesses
  | .empty | .declare _ _ | .ret _ | .brk _ | .cont _ | .throw _ | .function _ _ => fun _ => nofun
  | .expr e => mem_slots e
  | .block body => mem_bodySlots body
  | .ifElse _ y none => mem_slots_after _ (mem_stmtSlots y)
  | .ifElse _ y (some n) =>
    mem_slots_append (mem_slots_after _ (mem_stmtSlots y)) (mem_stmtSlots n)
  | .whileDo t b => mem_slots_append (mem_slots t) (mem_stmtSlots b)
  | .doWhile b t => mem_slots_append (mem_stmtSlots b) (mem_slots t)
  | .forLoop i t u b =>
    mem_slots_append (mem_slots_append (mem_slots_append (mem_initSlots i) (mem_optionSlots t))
      (mem_optionSlots u)) (mem_stmtSlots b)
  | .forIn _ _ b | .forOf _ _ b _ => mem_slots_after _ (mem_stmtSlots b)
  | .labeled _ b => mem_stmtSlots b
  | .tryCatch b none none => mem_bodySlots b
  | .tryCatch b none (some f) => mem_slots_append (mem_bodySlots b) (mem_bodySlots f)
  | .tryCatch b (some (.mk _ h)) none =>
    mem_slots_append (mem_slots_before _ (mem_bodySlots b)) (mem_bodySlots h)
  | .tryCatch b (some (.mk _ h)) (some f) =>
    mem_slots_append (mem_slots_append (mem_slots_before _ (mem_bodySlots b)) (mem_bodySlots h))
      (mem_bodySlots f)
  | .switch _ cases => mem_slots_after _ (mem_caseSlots cases)

/-- A slot that a body fills is written there. -/
theorem mem_bodySlots : (body : List Stmt) →
    ∀ x ∈ bodySlots body, isSlotName x = true ∧ .write x ∈ bodyAccesses body
  | [] => fun _ => nofun
  | s :: body => mem_slots_append (mem_stmtSlots s) (mem_bodySlots body)

theorem mem_caseSlots : (cases : List Case) →
    ∀ x ∈ caseSlots cases, isSlotName x = true ∧ .write x ∈ caseAccesses cases
  | [] => fun _ => nofun
  | .mk _ body :: cases =>
    mem_slots_append (mem_slots_after _ (mem_bodySlots body)) (mem_caseSlots cases)

end

/-- The names that an instruction accesses itself. -/
def Instr.accesses : Instr → List Access
  | .evaluate s _ => s.accesses
  | .yield e _ | .ret e => optionAccesses e
  | .yieldStar e _ | .await e _ | .branch e _ _ | .openIterator e _ _ _ | .throw e => e.accesses
  | .store slot _ => slot.toList.map .write
  | .bindCatch p _ => p.toList.flatMap Pattern.accesses
  | .moveNext _ p _ _ _ => p.accesses
  | .pushScope functions _ => functions.map fun d => .write d.name
  | .jump _ | .enterTry _ _ _ | .exitTry _ _ | .endFinally _ | .popScope _ | .copyScope _ => []
  | .enterLoop _ _ _ _ _ | .exitLoop _ | .brk _ | .cont _ => []

end Resumable
