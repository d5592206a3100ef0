import Resumable.Call
import Resumable.Proofs.Eval.Privacy
import Resumable.Proofs.Plan.Slots

/-!
The slots of a plan. What lowering and building add to the names of a body are slots of the plan; each
of those that lowering adds is filled at one place and read after it, and none is a variable of anybody
else. Main statement: `buildPlan_keeps_slots_apart`.
-/

set_option autoImplicit false

namespace Resumable

section Lists

theorem eraseDups_eq_self {xs : List String} (h : xs.Nodup) : xs.eraseDups = xs := by
  induction xs with
  | nil => rfl
  | cons x xs ih =>
    obtain ⟨hx, hxs⟩ := List.nodup_cons.1 h
    have hfilter : (xs.filter fun y => !y == x) = xs :=
      List.filter_eq_self.2 fun y hy => by
        have hne : y ≠ x := fun heq => hx (heq ▸ hy)
        simpa using hne
    rw [List.eraseDups_cons, hfilter, ih hxs]

theorem tempName_inj {m n : Nat} (h : tempName m = tempName n) : m = n := by
  have h := congrArg String.toList h
  simp only [tempName, String.toList_append, List.append_cancel_left_eq] at h
  exact eq_of_repr_eq (String.toList_inj.1 h)

theorem slotName_ne_tempName (n : SlotNumber) (m : Nat) : slotName n ≠ tempName m := by
  intro h
  have h := congrArg String.toList h
  simp [slotName, tempName] at h

end Lists

section Scopes

/-- A name that a scope binds is found there or further in. -/
theorem binder?_inside {s : Scopes} {base cur : ScopeId} {name : String}
    (hchain : base ∈ s.chain cur) (hbound : (s.binding? base name).isSome = true) :
    ∃ owner, s.binder? cur name = some owner ∧ base ∈ s.chain owner := by
  induction cur using Nat.strongRecOn with
  | ind cur ih =>
    rw [Scopes.binder?, Scopes.chain]
    cases hcur : (s.binding? cur name).isSome with
    | true => exact ⟨cur, by rw [List.find?_cons, hcur], hchain⟩
    | false =>
      rw [List.find?_cons, hcur]
      rw [Scopes.chain] at hchain
      have hne : base ≠ cur := fun heq => by simp [← heq, hbound] at hcur
      have htail := (List.mem_cons.1 hchain).resolve_left hne
      split at htail
      · split at htail
        · rename_i parent _ hlt
          simp only [hlt, if_true]
          exact ih parent hlt htail
        · cases htail
      · cases htail

theorem assign?_inside {s t : Scopes} {base cur : ScopeId} {name : String} {v : Value}
    (hchain : base ∈ s.chain cur) (hbound : (s.binding? base name).isSome = true)
    (h : s.assign? cur name v = some t) : ∀ id, base ∉ s.chain id → t.get? id = s.get? id := by
  intro id hid
  obtain ⟨owner, howner, hbase⟩ := binder?_inside hchain hbound
  have hne : owner ≠ id := fun heq => hid (heq ▸ hbase)
  rw [Scopes.assign?, howner] at h
  dsimp only at h
  split at h
  · split at h
    · cases h
    · cases h
      rw [get?_bind, if_neg hne]
  · cases h
    rfl

theorem isSome_declare (s : Scopes) (id other : ScopeId) (name key : String) (kind : VarKind)
    (h : (s.binding? other key).isSome = true) :
    ((s.declare id name kind).binding? other key).isSome = true := by
  unfold Scopes.declare
  split
  · exact h
  · rw [binding?_bind]
    split
    · cases hget : s.get? other with
      | none => simp [Scopes.binding?, hget] at h
      | some scope => rfl
    · exact h

theorem isSome_declare_self {s : Scopes} {id : ScopeId} (name : String) (hid : id < s.all.size) :
    ((s.declare id name .var).binding? id name).isSome = true := by
  unfold Scopes.declare
  split
  · rename_i h
    simpa using h
  · rw [binding?_bind, if_pos ⟨rfl, rfl⟩]
    simp [Scopes.get?, hid]

theorem get?_declare {s : Scopes} {id other : ScopeId} {name : String} {kind : VarKind}
    (h : id ≠ other) : (s.declare id name kind).get? other = s.get? other := by
  unfold Scopes.declare
  split
  · rfl
  · rw [get?_bind, if_neg h]

theorem size_declare (s : Scopes) (id : ScopeId) (name : String) (kind : VarKind) :
    (s.declare id name kind).all.size = s.all.size := by
  unfold Scopes.declare
  split
  · rfl
  · exact size_bind ..

theorem declareSlots_bound (names : List String) (scope : ScopeId) (w : World)
    (hscope : scope < w.scopes.all.size) :
    let w' := ((names.forM fun name => Edit.declare scope name .var) w).2
    w'.instances = w.instances ∧
      (∀ name ∈ names, (w'.scopes.binding? scope name).isSome = true) ∧
      (∀ name, (w.scopes.binding? scope name).isSome = true →
        (w'.scopes.binding? scope name).isSome = true) ∧
      ∀ id, id ≠ scope → w'.scopes.get? id = w.scopes.get? id := by
  induction names generalizing w with
  | nil => exact ⟨rfl, nofun, fun _ h => h, fun _ _ => rfl⟩
  | cons name names ih =>
    obtain ⟨hinst, hall, hkept, hother⟩ :=
      ih { w with scopes := w.scopes.declare scope name .var } (by rwa [size_declare])
    refine ⟨hinst, List.forall_mem_cons.2 ⟨?_, hall⟩, fun key hkey => ?_, fun id hid => ?_⟩
    · exact hkept name (isSome_declare_self name hscope)
    · exact hkept key (isSome_declare _ _ _ _ _ _ hkey)
    · exact (hother id hid).trans (get?_declare hid.symm)

theorem newActivation_declares (plan : Plan) (scope : ScopeId) (isAsync : Bool) (w : World)
    (hscope : scope < w.scopes.all.size) :
    let w' := (newActivation plan scope isAsync w).2
    w'.instances = w.instances.push (.start plan scope isAsync) ∧
      (∀ slot ∈ plan.slots, (w'.scopes.binding? scope slot).isSome = true) ∧
      ∀ id, id ≠ scope → w'.scopes.get? id = w.scopes.get? id := by
  obtain ⟨hinst, hall, -, hother⟩ := declareSlots_bound plan.slots scope w hscope
  exact ⟨congrArg (fun gs : Array Instance => gs.push (.start plan scope isAsync)) hinst, hall, hother⟩

end Scopes

/-- Whether slots are filled before they are read, and are no others than those filled. -/
def Hoisting.IsSupplied (w : Hoisting) : Prop :=
  Supplied [] w.before ∧ OnlyReads (listSlots w.before) (listAccesses w.left)

section Plans

variable {inAsync : Bool} {body : List Stmt}

theorem Hoists.isSupplied {n m : SlotNumber} {w : Hoisting} (h : Hoists inAsync n w m)
    (hw : Clean (listAccesses w.source)) : w.IsSupplied := by
  obtain ⟨k, -, hf⟩ := h.fills hw
  exact ⟨hf.steps, hf.slots ▸ hf.left⟩

theorem bodySlots_of_clean (h : Clean (bodyAccesses body)) : bodySlots body = [] :=
  List.eq_nil_iff_forall_not_mem.2 fun x hx =>
    Bool.noConfusion ((h _ (mem_bodySlots body x hx).2).symm.trans (mem_bodySlots body x hx).1)

theorem firstFreeSlot_of_clean (h : Clean (bodyAccesses body)) : firstFreeSlot body = 0 := by
  rw [firstFreeSlot, writtenSlots, bodySlots_of_clean h]
  rfl

theorem lowerBody_draws {lowered : LoweredBody} (h : lowerBody inAsync body = .ok lowered)
    (hclean : Clean (bodyAccesses body)) (hsize : sizeOf body < 2 ^ 63) : ∃ m k,
    Groups inAsync (fun _ w _ => w.IsSupplied) 0 (.body body lowered.body) m ∧
      Draws 0 m k (bodyAccesses lowered.body) lowered.slots ∧ lowered.slots.Nodup := by
  rw [lowerBody, firstFreeSlot_of_clean hclean] at h
  split at h
  · rename_i ss m hr
    cases h
    have hgroups := lowerStmts_groups inAsync body ss 0 m hr
    obtain ⟨k, hk, hd⟩ := hgroups.draws hclean
    have hk : k ≤ 2 * sizeOf body := hk
    have hd : Draws 0 m k (bodyAccesses ss) (bodySlots ss) := hd
    have hnodup : (bodySlots ss).Nodup := hd.drawn.nodup_iff.2 (nodup_drawn 0 (by omega))
    have hslots : writtenSlots ss = bodySlots ss := eraseDups_eq_self hnodup
    rw [hslots]
    exact ⟨m, k, hgroups.of_clean (fun _ _ _ => Hoists.isSupplied) hclean, hd, hnodup⟩
  · cases h

/-- The slots of a plan stay apart: from each other, and from all names outside the activation. -/
structure Plan.KeepsApart (inAsync : Bool) (body : List Stmt) (lowered : LoweredBody) (plan : Plan) :
    Prop where
  /-- Lowering adds no slots but those that it lists. -/
  listed : ∀ a ∈ bodyAccesses lowered.body, isSlotName a.name = true → a.name ∈ lowered.slots
  once : ∀ slot ∈ lowered.slots, (bodyAccesses lowered.body).count (.write slot) = 1
  /-- What takes the place of one expression fills its slots before it reads them, and reads no
  others. -/
  grouped : ∃ m, Groups inAsync (fun _ w _ => w.IsSupplied) 0 (.body body lowered.body) m
  nodup : plan.slots.Nodup
  /-- Instructions access no slots but those of the plan. -/
  declared : ∀ i ∈ plan.code, ∀ a ∈ i.accesses, isSlotName a.name = true → a.name ∈ plan.slots
  /-- A new activation binds the slots in the scope of its function. -/
  bound : ∀ (scope : ScopeId) (isAsync : Bool) (w : World), scope < w.scopes.all.size →
    ∀ slot ∈ plan.slots,
      ((newActivation plan scope isAsync w).2.scopes.binding? scope slot).isSome = true
  /-- To write one of them from that scope, or from one inside it, changes no scope outside. -/
  inside : ∀ (s t : Scopes) (base cur : ScopeId) (v : Value), base ∈ s.chain cur →
    ∀ slot ∈ plan.slots, (s.binding? base slot).isSome = true → s.assign? cur slot v = some t →
    ∀ id, base ∉ s.chain id → t.get? id = s.get? id

/-- Slots are numbered by words, so that the numbers last is said by a bound on the size of the body. -/
theorem buildPlan_keeps_slots_apart {params : List Pattern} {plan : Plan}
    (h : buildPlan inAsync params body = .ok plan) (hclean : Clean (bodyAccesses body))
    (hsize : sizeOf body < 2 ^ 63) :
    ∃ lowered, lowerBody inAsync body = .ok lowered ∧ plan.KeepsApart inAsync body lowered := by
  rw [buildPlan] at h
  split at h
  · simp [throw_ok, bind_ok] at h
  · simp only [bind_ok, pure_ok] at h
    obtain ⟨lowered, hlowered, ⟨f, temps⟩, hbuild, -, -, rfl⟩ := h
    obtain ⟨m, k, hgroups, hd, hnodup⟩ := lowerBody_draws hlowered hclean hsize
    obtain ⟨-, htouches⟩ := buildStmts_touches lowered.body _ _ _ _ _ f hbuild
    refine ⟨lowered, hlowered, hd.names, ?once, ⟨m, hgroups⟩, ?nodup, ?declared, ?bound, ?inside⟩
    case once =>
      intro slot hslot
      rw [hd.writes slot (isSlotName_drawn (hd.drawn.mem_iff.1 hslot))]
      exact Nat.le_antisymm (List.nodup_iff_count.1 hnodup slot) (List.count_pos_iff.2 hslot)
    case nodup =>
      refine List.nodup_append.2 ⟨hnodup, ?_, ?_⟩
      · exact List.pairwise_map.2 (List.nodup_range.imp fun hne heq => hne (tempName_inj heq))
      · intro slot hslot temp htemp heq
        obtain ⟨i, -, rfl⟩ := List.mem_map.1 (hd.drawn.mem_iff.1 hslot)
        obtain ⟨j, -, rfl⟩ := List.mem_map.1 htemp
        exact slotName_ne_tempName _ _ heq
    case declared =>
      refine List.forall_mem_cons.2 ⟨(by rintro _ ⟨⟩), fun i hi a ha hslot => ?_⟩
      obtain hknown | ⟨j, -, hj, heq⟩ := htouches i hi a ha
      · exact List.mem_append_left _ (hd.names a hknown hslot)
      · rw [heq]
        exact List.mem_append_right _ (List.mem_map_of_mem (List.mem_range.2 hj))
    case bound =>
      exact fun scope isAsync w hscope => (newActivation_declares _ scope isAsync w hscope).2.1
    case inside =>
      exact fun s t base cur v hchain slot _ hbound h => assign?_inside hchain hbound h

/-- A `switch` that suspends in its subject and in a case, and a call with an operand that suspends. -/
theorem buildPlan_keeps_slots_apart_switch : ∃ plan lowered,
    buildPlan false [] [.switch (.yield none) [.mk none [.expr (.yield none)]],
      .ret (some (.call (.ident "f") [.yield none]))] = .ok plan ∧
    plan.slots = ["%resume0", "%resume1", "%resume2", "%switch0"] ∧
    plan.KeepsApart false [.switch (.yield none) [.mk none [.expr (.yield none)]],
      .ret (some (.call (.ident "f") [.yield none]))] lowered := by
  have hslots : ((buildPlan false [] [.switch (.yield none) [.mk none [.expr (.yield none)]],
      .ret (some (.call (.ident "f") [.yield none]))]).toOption.map Plan.slots) =
      some ["%resume0", "%resume1", "%resume2", "%switch0"] := by decide +kernel
  cases hbuild : buildPlan false [] [.switch (.yield none) [.mk none [.expr (.yield none)]],
      .ret (some (.call (.ident "f") [.yield none]))] with
  | error r =>
    rw [hbuild] at hslots
    cases hslots
  | ok plan =>
    rw [hbuild] at hslots
    obtain ⟨lowered, -, happart⟩ := buildPlan_keeps_slots_apart hbuild (by decide) (by decide)
    exact ⟨plan, lowered, rfl, Option.some.inj hslots, happart⟩

end Plans

end Resumable
