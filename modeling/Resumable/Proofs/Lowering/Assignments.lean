import Resumable.Proofs.Lowering.Composites

/-!
Assignments whose value suspends. The parts of the target are evaluated before, and so is its old value
if an operator needs it; all of them wait in slots. Main statements: `assign_means`, `compound_means`.
-/

set_option autoImplicit false

namespace Resumable

/-- What an assignment goes to. -/
inductive Target where
  | name (x : String)
  | member (v : Value) (key : String)

section Target

variable {σ : Type} [HasWorld σ] (host : HostOn σ) (scope : ScopeId)

def Target.read : Target → RunOn σ Value
  | .name x => readName scope x
  | .member v key => readMember v key

def Target.write (new : Value) : Target → RunOn σ Unit
  | .name x => writeName scope x new
  | .member v key => writeMember v key new

def Target.assign (t : Target) (x : RunOn σ Value) : RunOn σ Value := do
  let new ← x
  t.write scope new
  return new

def Expr.evalTarget : Expr → RunOn σ Target
  | .ident x => return .name x
  | .dot e name => do return .member (← e.eval host scope none) name
  | .index e k => do
    let v ← e.eval host scope none
    let key ← k.eval host scope none
    return .member v key.toKey
  | _ => Run.throwNew .syntaxError "Invalid left-hand side in assignment"

def Expr.readTarget (e : Expr) : RunOn σ (Target × Value) := do
  let t ← e.evalTarget host scope
  let old ← t.read scope
  return (t, old)

def Expr.isTarget : Expr → Bool
  | .ident _ | .dot _ _ | .index _ _ => true
  | _ => false

/-- The name that an anonymous function gets when it is assigned. -/
def Expr.nameFor : AssignOp → Expr → Option String
  | .set, .ident x => some x
  | _, _ => none

variable {host scope}

theorem eval_assign {op : AssignOp} {target : Expr} (ht : target.isTarget = true) (e : Expr)
    (hint : Option String) : (Expr.assign op target e).eval host scope hint =
      (do
        let t ← target.evalTarget host scope
        t.assign scope (combine op (t.read scope) (e.eval host scope (target.nameFor op)))) := by
  cases target with
  | ident => cases op <;> rfl
  | dot => cases op <;> simp only [Expr.evalTarget, bind_assoc, pure_bind] <;> rfl
  | index => cases op <;> simp only [Expr.evalTarget, bind_assoc, pure_bind] <;> rfl
  | _ => cases ht

theorem stage_assign {inAsync : Bool} {op : AssignOp} {target e : Expr}
    (ht : target.isTarget = true) (he : e.hasSuspend inAsync = true) (hint : Option String) :
    (Expr.assign op target e).stage inAsync host scope hint =
      (do
        let t ← target.evalTarget host scope
        let y ← combineStages op (t.read scope) (e.stage inAsync host scope (target.nameFor op))
        return t.assign scope y) := by
  have hs : (Expr.assign op target e).hasSuspend inAsync = true := by
    simp only [Expr.hasSuspend, Expr.suspends, Bool.not_eq_true', List.isEmpty_eq_false_iff] at he ⊢
    exact List.append_ne_nil_of_right_ne_nil _ he
  rw [Expr.stage.eq_def, hs]
  cases target with
  | ident => cases op <;> rfl
  | dot => cases op <;> simp only [Expr.evalTarget, bind_assoc, pure_bind] <;> rfl
  | index => cases op <;> simp only [Expr.evalTarget, bind_assoc, pure_bind] <;> rfl
  | _ => cases ht

theorem Target.assign_congr (t : Target) {x y : RunOn σ Value} {s : σ} (h : x s = y s) :
    t.assign scope x s = t.assign scope y s := by
  simp only [Target.assign, Bind.bind, RunOn.bind, h]

end Target

section Assignments

variable {p : Private} {host : Host} {inAsync : Bool} {n k m : SlotNumber}

/-- Whether a target expression that can be evaluated again stands for a target. -/
inductive Private.Targets (p : Private) (s : Dialogue) : Expr → Target → Prop where
  | name {x : String} : isSlotName x = false → p.Targets s (.ident x) (.name x)
  | dot {r : Expr} {v : Value} (name : String) : p.Holds s r v →
    p.Targets s (.dot r name) (.member v name)
  | index {r k : Expr} {v key : Value} : p.Holds s r v → p.Holds s k key →
    p.Targets s (.index r k) (.member v key.toKey)

namespace Private.Targets

variable {r : Expr} {t : Target} {s u : Dialogue}

theorem isTarget (h : p.Targets s r t) : r.isTarget = true := by
  cases h <;> rfl

theorem evalTarget (h : p.Targets s r t) (host : HostOn Dialogue) :
    r.evalTarget host p.scope s = .done t s := by
  cases h with
  | name => rfl
  | dot name hv => exact bind_eq_of_done (hv.eval host none)
  | index hv hk =>
    exact (bind_eq_of_done (hv.eval host none)).trans (bind_eq_of_done (hk.eval host none))

theorem eval (h : p.Targets s r t) (host : HostOn Dialogue) (hint : Option String) :
    r.eval host p.scope hint s = t.read p.scope s := by
  cases h with
  | name => rfl
  | dot name hv => exact bind_eq_of_done (hv.eval host none)
  | index hv hk =>
    exact (bind_eq_of_done (hv.eval host none)).trans (bind_eq_of_done (hk.eval host none))

theorem read_follows (h : p.Targets s r t) : p.Follows (t.read p.scope) (t.read p.scope) := by
  cases h with
  | name hx => exact (readName_related p.unseen p.scope _ hx).follows
  | dot | index => exact (readMember_related p.unseen _ _).follows

theorem assign_awaits (h : p.Targets s r t) {slots : List String} {x y : RunOn Dialogue Value}
    (hxy : p.Awaits slots u x y) : p.Awaits slots u (t.assign p.scope x) (t.assign p.scope y) := by
  refine hxy.bind fun new => .ofFollows (.bind ?_ fun _ => (Unseen.pure new).follows)
  cases h with
  | name hx => exact (writeName_related p.unseen p.scope _ new hx).follows
  | dot | index => exact (writeMember_related p.unseen _ _ new).follows

end Private.Targets

theorem Private.Holds.slots {r : Expr} {v : Value} {s : Dialogue} (h : p.Holds s r v) :
    ∀ x ∈ r.uses, isSlotName x = true := by
  cases h with
  | slot hn => exact List.forall_mem_singleton.2 (p.slots _ hn)
  | _ => exact nofun

theorem Private.Targets.moved {slots : List String} {r : Expr} {t : Target} {s u : Dialogue}
    (h : p.Targets s r t) (hsame : p.Same slots s u)
    (hr : ∀ x ∈ r.uses, isSlotName x = true → x ∈ slots) : p.Targets u r t := by
  cases h with
  | name hx => exact .name hx
  | dot name hv => exact .dot name (hv.moved hsame fun x hx => hr x hx (hv.slots x hx))
  | index hv hk =>
    refine .index (hv.moved hsame fun x hx => ?_) (hk.moved hsame fun x hx => ?_)
    · exact hr x (List.mem_append_left _ hx) (hv.slots x hx)
    · exact hr x (List.mem_append_right _ hx) (hk.slots x hx)

theorem part_settles (hb : p.Blind host) {e : Expr} {s : Hoisted} (he : e.hasSuspend inAsync = false)
    (hwait : e.mayWait inAsync = true) (hclean : ∀ x ∈ e.uses, isSlotName x = false)
    (hs : e.spill.run n = .ok (s, m)) (hnames : ∀ x ∈ listSlots s.before, x ∈ p.names) :
    (p.Settles host (e.eval (answering host) p.scope none) s.before fun v t => p.Holds t s.rest v) ∧
      ∀ x ∈ s.rest.uses, x ∈ listSlots s.before := by
  have hlook : e.look ≠ .anonymous ∧ e.look ≠ .spread := by
    simpa [Expr.mayWait, tail_of_plain he] using hwait
  obtain ⟨j, -, hf⟩ := (Fills.nothing (n := n) (clean_of_uses hclean)).spill e hs
  have hinert : s.rest.isInert = true := by
    rcases run_spill_ok _ _ _ _ hs with ⟨d, t, rfl, -, -⟩ | ⟨hi, rfl, -⟩ | ⟨rfl, -⟩
    · exact absurd rfl hlook.2
    · exact hi
    · exact isSlotName_slotName _
  refine ⟨?_, hf.inert_uses hinert⟩
  have heval : p.Lowers host (pure (e.eval (answering host) p.scope none)) []
      (e.eval (answering host) p.scope none) := .ofFollows (hb.eval hclean p.scope none)
  have hspill := heval.spill hlook.1 hlook.2 hs hnames fun hi y hy => ?_
  · rwa [whole_pure] at hspill
  · cases e with
    | ident name =>
      cases hi.symm.trans (hclean name (List.mem_singleton_self _))
    | null | bool | num | str => cases hy
    | _ => cases hi

theorem target_settles (hb : p.Blind host) {target : Expr} {t : Hoisted}
    (htarget : target.isTarget = true) (hplain : target.hasSuspend inAsync = false)
    (hwait : ∀ d ∈ target.operands, d.mayWait inAsync = true)
    (hclean : ∀ x ∈ target.uses, isSlotName x = false) (ht : target.spillTarget.run n = .ok (t, k))
    (hnames : ∀ x ∈ listSlots t.before, x ∈ p.names) (hnodup : (listSlots t.before).Nodup) :
    (p.Settles host (target.evalTarget (answering host) p.scope) t.before
      fun a u => p.Targets u t.rest a) ∧
      ∀ a u u', p.Same (listSlots t.before) u u' → p.Targets u t.rest a → p.Targets u' t.rest a := by
  obtain ⟨j, -, hf, -⟩ := spillTarget_fills (clean_append.1 (clean_of_uses hclean)).1 ht
  refine ⟨?_, fun a u u' hsame ha => ha.moved hsame fun x hx => hf.slot_uses hx⟩
  cases target with
  | ident x =>
    obtain ⟨rfl, -⟩ := (run_pure_ok ..).1 ht
    exact fun s s' hs => .pure hs (.name (hclean x (List.mem_singleton_self x)))
  | dot d name =>
    simp only [Expr.spillTarget, run_bind_ok, run_pure_ok] at ht
    obtain ⟨o, i, ho, rfl, rfl⟩ := ht
    have hd := part_settles (e := d) hb hplain (hwait d (List.mem_singleton_self d)) hclean ho hnames
    exact fun s s' hs => (hd.1 s s' hs).map fun v u hv => .dot name hv
  | index d key =>
    simp only [Expr.spillTarget, run_bind_ok, run_pure_ok] at ht
    obtain ⟨o, i, ho, c, j, hc, rfl, rfl⟩ := ht
    obtain ⟨hdplain, hkplain⟩ : d.hasSuspend inAsync = false ∧ key.hasSuspend inAsync = false := by
      simpa [Expr.hasSuspend, Expr.suspends] using hplain
    simp only [listSlots_append, List.mem_append, List.nodup_append] at hnames hnodup
    have hd := part_settles hb hdplain (hwait d (by simp [Expr.operands]))
      (fun x hx => hclean x (List.mem_append_left _ hx)) ho fun x hx => hnames x (.inl hx)
    have hk := part_settles hb hkplain (hwait key (by simp [Expr.operands]))
      (fun x hx => hclean x (List.mem_append_right _ hx)) hc fun x hx => hnames x (.inr hx)
    refine hd.1.bind_keeping (fun v s u hsame hv => hv.moved hsame hd.2)
      (fun y hy hy' => hnodup.2.2 y hy y hy' rfl) fun v s s' hs hv => ?_
    exact (hk.1 s s' hs).map fun kv u hkv hv => .index hv hkv
  | _ => cases htarget

end Assignments

section Assigning

variable {p : Private} {host : Host} {inAsync : Bool} {n k k' m : SlotNumber} {op : AssignOp}
  {target value : Expr} {t old v : Hoisted}

theorem isOrderly_assign (hv : value.hasSuspend inAsync = true)
    (h : (Expr.assign op target value).isOrderly inAsync = true) :
    target.isTarget = true ∧ value.isOrderly inAsync = true ∧
      (∀ d ∈ target.operands, d.mayWait inAsync = true) ∧
      ((target.nameFor op).isSome = true → value.mayTakeName inAsync = true) := by
  cases target with
  | ident x =>
    cases op <;> simpa [Expr.isOrderly, Expr.isTarget, Expr.operands, Expr.nameFor] using h
  | dot d name =>
    cases op <;> simpa [Expr.isOrderly, Expr.isTarget, Expr.operands, Expr.nameFor, hv] using h
  | index d key =>
    cases op <;> simpa [Expr.isOrderly, Expr.isTarget, Expr.operands, Expr.nameFor, hv] using h
  | _ => cases op <;> simp [Expr.isOrderly, hv] at h

theorem spillTarget_target (htarget : target.isTarget = true)
    (ht : target.spillTarget.run n = .ok (t, k)) :
    t.rest.isTarget = true ∧ t.rest.isInert = target.isInert ∧
      ∀ op, t.rest.nameFor op = target.nameFor op := by
  cases target with
  | ident x =>
    obtain ⟨rfl, -⟩ := (run_pure_ok ..).1 ht
    exact ⟨rfl, rfl, fun _ => rfl⟩
  | dot d name =>
    simp only [Expr.spillTarget, run_bind_ok, run_pure_ok] at ht
    obtain ⟨o, i, -, rfl, -⟩ := ht
    exact ⟨rfl, rfl, fun op => by cases op <;> rfl⟩
  | index d key =>
    simp only [Expr.spillTarget, run_bind_ok, run_pure_ok] at ht
    obtain ⟨o, i, -, c, j, -, rfl, -⟩ := ht
    exact ⟨rfl, rfl, fun op => by cases op <;> rfl⟩
  | _ => cases htarget

theorem assign_means (hb : p.Blind host) (hv : value.hasSuspend inAsync = true)
    (hplain : target.hasSuspend inAsync = false) (ht : target.spillTarget.run n = .ok (t, k))
    (hserved : (Hoisting.expr (.assign .set target value)
      ⟨t.before ++ v.before, .assign .set t.rest v.rest⟩).Served p)
    (ih : (Hoisting.expr value v).Means p host inAsync) :
    (Hoisting.expr (.assign .set target value)
      ⟨t.before ++ v.before, .assign .set t.rest v.rest⟩).Means p host inAsync := by
  refine ⟨fun horderly hint _ => ?_, nofun⟩
  obtain ⟨htarget, hvorderly, hwait, hname⟩ := isOrderly_assign hv horderly
  obtain ⟨hrest, -, hnames⟩ := spillTarget_target htarget ht
  have hclean (x : String) (hx : x ∈ target.uses) : isSlotName x = false :=
    hserved.clean x (List.mem_append_left _ (List.mem_append_left _ hx))
  have hin := hserved.names
  have hnodup := hserved.nodup
  simp only [Hoisting.before, listSlots_append, List.mem_append, List.nodup_append] at hin hnodup
  obtain ⟨hsettles, hkept⟩ := target_settles hb htarget hplain hwait hclean ht
    (fun x hx => hin x (.inl hx)) hnodup.1
  rw [stage_assign htarget hv, eval_assign hrest, hnames]
  refine hsettles.bind_lowers_of hkept (fun y hy hy' => hnodup.2.2 y hy y hy' rfl)
    (fun a u ha => ?_) fun a u ha => bind_eq_of_done (ha.evalTarget _)
  exact (ih.1 hvorderly _ hname).wrap fun _ _ _ _ hz => ha.assign_awaits hz

/-- The old value of a target that is no slot is put into one. -/
theorem spill_target (htarget : t.rest.isTarget = true) (hinert : t.rest.isInert = false)
    (hold : t.rest.spill.run k = .ok (old, k')) :
    old = ⟨[.assign .set (.ident (slotName k)) t.rest], .ident (slotName k)⟩ := by
  rcases run_spill_ok _ _ _ _ hold with ⟨d, o, hd, -, -⟩ | ⟨hi, -, -⟩ | ⟨hstore, -⟩
  · rw [hd] at htarget
    cases htarget
  · cases hinert.symm.trans hi
  · exact hstore

theorem compound_means (hb : p.Blind host) {bin : BinaryOp} (hop : op.binary? = some bin)
    (hv : value.hasSuspend inAsync = true) (hplain : target.hasSuspend inAsync = false)
    (ht : target.spillTarget.run n = .ok (t, k)) (hold : t.rest.spill.run k = .ok (old, k'))
    (hserved : (Hoisting.expr (.assign op target value) ⟨t.before ++ old.before ++ v.before,
      .assign .set t.rest (.binary bin old.rest v.rest)⟩).Served p)
    (ih : (Hoisting.expr value v).Means p host inAsync) :
    (Hoisting.expr (.assign op target value) ⟨t.before ++ old.before ++ v.before,
      .assign .set t.rest (.binary bin old.rest v.rest)⟩).Means p host inAsync := by
  refine ⟨fun horderly hint _ => ?_, (by rintro _ ⟨⟩)⟩
  obtain ⟨htarget, hvorderly, hwait, -⟩ := isOrderly_assign hv horderly
  obtain ⟨hrest, hinert, -⟩ := spillTarget_target htarget ht
  have hclean (x : String) (hx : x ∈ target.uses) : isSlotName x = false :=
    hserved.clean x (List.mem_append_left _ (List.mem_append_left _ hx))
  have hinert : t.rest.isInert = false := by
    rw [hinert]
    cases target with
    | ident x => exact hclean x (List.mem_singleton_self x)
    | dot | index => rfl
    | _ => cases htarget
  obtain rfl := spill_target hrest hinert hold
  have hin := hserved.names
  have hnodup := hserved.nodup
  simp only [Hoisting.before, listSlots_append, listSlots_store, List.mem_append, List.nodup_append]
    at hin hnodup
  obtain ⟨hsettles, hkept⟩ := target_settles hb htarget hplain hwait hclean ht
    (fun x hx => hin x (.inl (.inl hx))) hnodup.1.1
  -- the target and its old value both wait
  have hboth : p.Settles host (target.readTarget (answering host) p.scope)
      (t.before ++ [.assign .set (.ident (slotName k)) t.rest])
      fun al u => p.Targets u t.rest al.1 ∧ p.Holds u (.ident (slotName k)) al.2 := by
    refine hsettles.bind_keeping hkept (fun y hy hy' => hnodup.1.2.2 y hy y ?_ rfl)
      fun a s s' hs ha => ?_
    · rwa [listSlots_store] at hy'
    · refine (Private.SettlesAt.store (r := t.rest) ?_ (hin _ (by simp))).map
        fun l u hl ha => ⟨ha, hl⟩
      rw [ha.eval]
      exact ha.read_follows s s' hs
  have hstage : (Expr.assign op target value).stage inAsync (answering host) p.scope hint = (do
      let al ← target.readTarget (answering host) p.scope
      let y ← value.stage inAsync (answering host) p.scope none
      return al.1.assign p.scope (do bin.apply al.2 (← y))) := by
    have hnone : target.nameFor op = none := by cases op <;> first | rfl | cases hop
    rw [stage_assign htarget hv, hnone]
    simp [Expr.readTarget, combineStages, hop]
  rw [hstage, eval_assign hrest]
  refine hboth.bind_lowers_of (g := fun al => al.1.assign p.scope (do
      bin.apply al.2 (← v.rest.eval (answering host) p.scope none)))
    (fun al u u' hsame hal => ⟨?_, ?_⟩) (fun y hy hy' => ?_) (fun al u hal => ?_)
    fun al u hal => (bind_eq_of_done (hal.1.evalTarget _)).trans
      (al.1.assign_congr (bind_eq_of_done (hal.2.eval _ none)))
  · exact hkept _ _ _ (fun x hx => hsame x (by simp [hx])) hal.1
  · exact hal.2.moved hsame (by simp [Expr.uses])
  · refine hnodup.2.2 y ?_ y hy' rfl
    simpa using hy
  · refine (ih.1 hvorderly none (by rintro ⟨⟩)).wrap fun _ _ _ _ hz => hal.1.assign_awaits (hz.bind fun r => ?_)
    exact .ofFollows (apply_related p.unseen bin _ r).follows

end Assigning

end Resumable
