import Resumable.Proofs.Eval.Privacy
import Resumable.Realm

/-!
Assignment along a chain of scopes. A name belongs to the nearest scope that binds it, or to the
outermost one if none does; what is assigned there is read from wherever the name belongs to the same
scope, and from nowhere else. Main statement: `assign_exact`.
-/

set_option autoImplicit false

namespace Resumable

namespace Scopes

/-- The scope around another one. A link that does not lead to an older scope ends the chain. -/
def outer? (s : Scopes) (id : ScopeId) : Option ScopeId :=
  ((s.get? id).bind Scope.parent).filter (· < id)

/-- The scope to which a name belongs, as seen from another scope: the nearest one on the way outward
that binds the name, or the outermost one if none does. -/
inductive Owner (s : Scopes) (name : String) : ScopeId → ScopeId → Prop where
  | here {id : ScopeId} : (s.binding? id name).isSome = true → Owner s name id id
  | outermost {id : ScopeId} : s.binding? id name = none → s.outer? id = none → Owner s name id id
  | outward {id outer owner : ScopeId} : s.binding? id name = none → s.outer? id = some outer →
    Owner s name outer owner → Owner s name id owner

variable {s t : Scopes} {name key : String} {id e outer owner owner' : ScopeId} {b : Binding}

theorem outer?_lt (h : s.outer? id = some outer) : outer < id := by
  obtain ⟨-, hlt⟩ := Option.filter_eq_some_iff.1 h
  simpa using hlt

theorem chain_eq (s : Scopes) (id : ScopeId) :
    s.chain id = id :: (s.outer? id).elim [] s.chain := by
  rw [chain, outer?]
  cases (s.get? id).bind Scope.parent with
  | none => rfl
  | some parent =>
    dsimp only
    split <;> rename_i hlt <;> simp [Option.filter, hlt]

namespace Owner

theorem le (h : s.Owner name id owner) : owner ≤ id := by
  induction h with
  | here | outermost => exact Nat.le_refl _
  | outward _ houter _ ih => exact Nat.le_trans ih (Nat.le_of_lt (outer?_lt houter))

theorem exists_owner (s : Scopes) (name : String) (id : ScopeId) : ∃ owner, s.Owner name id owner := by
  induction id using Nat.strongRecOn with
  | ind id ih =>
    cases hb : s.binding? id name with
    | some b => exact ⟨id, here (by rw [hb]; rfl)⟩
    | none =>
      cases ho : s.outer? id with
      | none => exact ⟨id, outermost hb ho⟩
      | some outer =>
        obtain ⟨owner, howner⟩ := ih outer (outer?_lt ho)
        exact ⟨owner, outward hb ho howner⟩

theorem unique (h : s.Owner name id owner) (h' : s.Owner name id owner') : owner' = owner := by
  induction h with
  | here hb =>
    cases h' with
    | here | outermost => rfl
    | outward hb' => simp [hb'] at hb
  | outermost hb ho =>
    cases h' with
    | here | outermost => rfl
    | outward _ ho' => cases ho.symm.trans ho'
  | outward hb ho _ ih =>
    cases h' with
    | here hb' => simp [hb] at hb'
    | outermost _ ho' => cases ho.symm.trans ho'
    | outward _ ho' hrest =>
      cases ho.symm.trans ho'
      exact ih hrest

theorem outer?_eq_none (h : s.Owner name id owner) (hb : s.binding? owner name = none) :
    s.outer? owner = none := by
  induction h with
  | here hb' => simp [hb] at hb'
  | outermost _ ho => exact ho
  | outward _ _ _ ih => exact ih hb

theorem binder?_eq (h : s.Owner name id owner) :
    s.binder? id name = if (s.binding? owner name).isSome then some owner else none := by
  rw [binder?]
  induction h with
  | here hb => rw [chain_eq, List.find?_cons, hb, if_pos rfl]
  | outermost hb ho => simp [chain_eq, ho, hb]
  | outward hb ho _ ih =>
    rw [chain_eq, ho, List.find?_cons, hb]
    exact ih

theorem root_eq (h : s.Owner name id owner) (hb : s.binding? owner name = none) :
    s.root id = owner := by
  induction h with
  | here hb' => simp [hb] at hb'
  | outermost _ ho => simp [root, chain_eq, ho]
  | @outward id outer owner _ ho _ ih =>
    rw [root, chain_eq, ho, Option.elim_some, List.getLastD_cons]
    have hroot := ih hb
    rw [root, chain_eq, List.getLastD_cons] at hroot
    rw [chain_eq, List.getLastD_cons]
    exact hroot

end Owner

/-- The scope of a name is the first one of the chain that binds it, or else the last one of the chain. -/
theorem owner_iff : s.Owner name id owner ↔
    s.binder? id name = some owner ∨ s.binder? id name = none ∧ s.root id = owner := by
  obtain ⟨o, ho⟩ := Owner.exists_owner s name id
  have hiff : s.Owner name id owner ↔ owner = o := ⟨ho.unique, fun h => h ▸ ho⟩
  rw [hiff, ho.binder?_eq]
  cases hb : s.binding? o name with
  | some b => simp [eq_comm]
  | none => simp [ho.root_eq hb, eq_comm]

namespace Owner

theorem lookup_eq (h : s.Owner name id owner) : s.lookup id name =
    match s.binding? owner name with
    | some b => if b.initialized then .found b.value else .uninitialized
    | none => .unbound := by
  rw [lookup, h.binder?_eq]
  cases hb : s.binding? owner name <;> simp [hb]

theorem has_eq (h : s.Owner name id owner) : s.has id name = (s.binding? owner name).isSome := by
  rw [has, h.binder?_eq]
  cases s.binding? owner name <;> rfl

/-- An assignment goes to the scope of the name, and makes a variable there if there is none. -/
theorem assign?_eq (h : s.Owner name id owner) (v : Value) : s.assign? id name v =
    match s.binding? owner name with
    | some b =>
      if b.kind = .const && b.initialized then none
      else some (s.bind owner name { b with value := v, initialized := true })
    | none => some (s.bind owner name ⟨v, .var, true⟩) := by
  rw [assign?, h.binder?_eq]
  cases hb : s.binding? owner name with
  | some b => simp [hb]
  | none => simp [h.root_eq hb]

end Owner

theorem outer?_bind (s : Scopes) (id e : ScopeId) (name : String) (b : Binding) :
    (s.bind id name b).outer? e = s.outer? e := by
  rw [outer?, outer?, parent_bind]

theorem Owner.bind (h : s.Owner name id owner) (hkey : s.Owner key e owner') :
    (s.bind owner name b).Owner key e owner' := by
  induction hkey with
  | @here e hb =>
    refine .here ?_
    rw [binding?_bind]
    split
    · cases hget : s.get? e with
      | none => simp [binding?, hget] at hb
      | some scope => rfl
    · exact hb
  | @outermost e hb ho =>
    cases hb' : (s.bind owner name b).binding? e key with
    | none => exact .outermost hb' ((outer?_bind ..).trans ho)
    | some b' => exact .here (by rw [hb']; rfl)
  | @outward e outer _ hb ho _ ih =>
    -- a scope that is passed on the way outward is not the one that takes the binding
    have hne : ¬(owner = e ∧ key = name) := by
      rintro ⟨rfl, rfl⟩
      cases ho.symm.trans (h.outer?_eq_none hb)
    refine .outward ?_ ((outer?_bind ..).trans ho) ih
    rw [binding?_bind, if_neg hne, hb]

theorem binding?_bind_self (howner : owner < s.all.size) (name : String) (b : Binding) :
    (s.bind owner name b).binding? owner name = some b := by
  rw [binding?_bind, if_pos ⟨rfl, rfl⟩]
  simp [get?, howner]

/-- What an assignment of a value to a name does, where the name belongs to `owner`: whether it
succeeds, and which store it leaves. -/
structure Assigns (s : Scopes) (owner : ScopeId) (name : String) (v : Value) (ok : Bool) (t : Scopes) :
    Prop where
  /-- It fails at an initialized constant and nowhere else. -/
  fails : ok = false ↔ ∃ b, s.binding? owner name = some b ∧ b.kind = .const ∧ b.initialized = true
  /-- A failure leaves every binding as it is. -/
  kept : ok = false → t = s
  /-- The value is read from every scope from which the name belongs to the same one. -/
  seen : ok = true → ∀ e, s.Owner name e owner → t.value? e name = some v ∧ t.has e name = true
  /-- From elsewhere, and of all other names, the same is read as before. -/
  unseen : ok = true → ∀ e key, ¬(key = name ∧ s.Owner name e owner) →
    t.value? e key = s.value? e key ∧ t.has e key = s.has e key

theorem Owner.assigns {v : Value} (h : s.Owner name id owner) (hid : id < s.all.size)
    (hfree : ¬∃ b, s.binding? owner name = some b ∧ b.kind = .const ∧ b.initialized = true)
    (hvalue : b.value = v) (hinit : b.initialized = true) :
    s.Assigns owner name v true (s.bind owner name b) where
  fails := by simpa using hfree
  kept h := by cases h
  seen _ e he := by
    have hself := binding?_bind_self (Nat.lt_of_le_of_lt h.le hid) name b
    have he : (s.bind owner name b).Owner name e owner := h.bind he
    rw [value?, he.lookup_eq, he.has_eq, hself]
    simp [hinit, hvalue]
  unseen _ e key hother := by
    obtain ⟨o, ho⟩ := exists_owner s key e
    have hne : ¬(owner = o ∧ key = name) := by
      rintro ⟨rfl, rfl⟩
      exact hother ⟨rfl, ho⟩
    have hbinding : (s.bind owner name b).binding? o key = s.binding? o key := by
      rw [binding?_bind, if_neg hne]
    have ho' : (s.bind owner name b).Owner key e o := h.bind ho
    rw [value?, value?, ho'.lookup_eq, ho.lookup_eq, ho'.has_eq, ho.has_eq, hbinding]
    exact ⟨rfl, rfl⟩

end Scopes

open Scopes

theorem assign_apply (id : ScopeId) (name : String) (v : Value) (w : World) :
    Edit.assign id name v w = match w.scopes.assign? id name v with
      | some t => (true, { w with scopes := t })
      | none => (false, w) := by
  simp only [Edit.assign, Edit.scopes]
  cases h : w.scopes.assign? id name v <;> simp only [modifyGet, MonadStateOf.modifyGet,
    StateT.modifyGet, h] <;> rfl

/-- An assignment goes to the one scope to which the name belongs, and is seen from wherever it belongs
there. -/
theorem assign_exact (w : World) (id : ScopeId) (name : String) (v : Value)
    (hid : id < w.scopes.all.size) :
    ∃ owner, (∀ o, w.scopes.Owner name id o ↔ o = owner) ∧
      ∃ t, (Edit.assign id name v w).2 = { w with scopes := t } ∧
        w.scopes.Assigns owner name v (Edit.assign id name v w).1 t := by
  obtain ⟨owner, h⟩ := Owner.exists_owner w.scopes name id
  refine ⟨owner, fun o => ⟨h.unique, fun ho => ho ▸ h⟩, ?_⟩
  rw [assign_apply, h.assign?_eq]
  cases hb : w.scopes.binding? owner name with
  | none =>
    exact ⟨_, rfl, h.assigns hid (by simp [hb]) rfl rfl⟩
  | some b =>
    by_cases hfixed : b.kind = .const ∧ b.initialized = true
    · have hif : (decide (b.kind = .const) && b.initialized) = true := by simp [hfixed]
      simp only [hif, if_true]
      exact ⟨w.scopes, rfl, by simp [hb, hfixed], fun _ => rfl, fun h => (by cases h),
        fun h => (by cases h)⟩
    · have hif : (decide (b.kind = .const) && b.initialized) = false := by
        rw [Bool.eq_false_iff]
        simpa using hfixed
      simp only [hif, Bool.false_eq_true, if_false]
      refine ⟨_, rfl, h.assigns hid ?_ rfl rfl⟩
      rintro ⟨c, hc, hk⟩
      cases hb.symm.trans hc
      exact hfixed hk

/-- Three scopes, `a` and `c` bound in the middle one: from the innermost scope a variable further out,
a constant, and a name that nobody binds. -/
theorem assign_exact_nested : ∃ s : Scopes, 2 < s.all.size ∧
    (∃ t, s.Assigns 1 "a" .null true t) ∧ (∃ t, s.Assigns 1 "c" .null false t) ∧
    ∃ t, s.Assigns 0 "b" .null true t := by
  let middle : Dict Binding :=
    .ofList [("a", ⟨.undefined, .let, false⟩), ("c", ⟨.undefined, .const, true⟩)]
  let s : Scopes := ⟨#[⟨.empty, none⟩, ⟨middle, some 0⟩, ⟨.empty, some 1⟩]⟩
  let w : World := { World.blank with scopes := s }
  have hid : 2 < w.scopes.all.size := by decide
  have ha : w.scopes.Owner "a" 2 1 := .outward rfl rfl (.here rfl)
  have hc : w.scopes.Owner "c" 2 1 := .outward rfl rfl (.here rfl)
  have hb : w.scopes.Owner "b" 2 0 := .outward rfl rfl (.outward rfl rfl (.outermost rfl rfl))
  obtain ⟨o, ho, t, -, hta⟩ := assign_exact w 2 "a" .null hid
  obtain rfl := (ho 1).1 ha
  obtain ⟨o, ho, u, -, htc⟩ := assign_exact w 2 "c" .null hid
  obtain rfl := (ho 1).1 hc
  obtain ⟨o, ho, x, -, htb⟩ := assign_exact w 2 "b" .null hid
  obtain rfl := (ho 0).1 hb
  have ea : (Edit.assign 2 "a" .null w).1 = true := by
    rw [assign_apply, ha.assign?_eq]
    rfl
  have ec : (Edit.assign 2 "c" .null w).1 = false := by
    rw [assign_apply, hc.assign?_eq]
    rfl
  have eb : (Edit.assign 2 "b" .null w).1 = true := by
    rw [assign_apply, hb.assign?_eq]
    rfl
  exact ⟨s, hid, ⟨t, ea ▸ hta⟩, ⟨u, ec ▸ htc⟩, x, eb ▸ htb⟩

end Resumable
