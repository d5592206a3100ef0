import Resumable.Proofs.Eval.Statements
import Resumable.Script.Slots

/-!
Slots that belong to one activation. Worlds that differ in nothing but such slots are alike to code
that cannot spell their names: it goes the same way from both and leaves the slots as they are.
-/

set_option autoImplicit false

namespace Resumable

section Lookup

variable (s : Scopes)

theorem get?_bind (id other : ScopeId) (name : String) (b : Binding) :
    (s.bind id name b).get? other =
      if id = other then
        (s.get? other).map fun scope => { scope with bindings := scope.bindings.insert name b }
      else s.get? other :=
  Array.getElem?_modify

@[simp] theorem size_bind (id : ScopeId) (name : String) (b : Binding) :
    (s.bind id name b).all.size = s.all.size :=
  Array.size_modify

@[simp] theorem parent_bind (id other : ScopeId) (name : String) (b : Binding) :
    ((s.bind id name b).get? other).bind Scope.parent = (s.get? other).bind Scope.parent := by
  rw [get?_bind]
  split
  · cases s.get? other <;> rfl
  · rfl

theorem binding?_bind (id other : ScopeId) (name key : String) (b : Binding) :
    (s.bind id name b).binding? other key =
      if id = other ∧ key = name then (s.get? other).map fun _ => b else s.binding? other key := by
  rw [Scopes.binding?, Scopes.binding?, get?_bind]
  by_cases hid : id = other
  · subst hid
    by_cases hkey : key = name <;> cases s.get? id <;> simp [hkey]
  · simp [hid]

theorem get?_alloc (scope : Scope) (id : ScopeId) :
    (s.alloc scope).2.get? id = if id = s.all.size then some scope else s.get? id :=
  Array.getElem?_push

theorem chain_congr {s s' : Scopes} {id : ScopeId}
    (h : ∀ i, i ≤ id → (s.get? i).bind Scope.parent = (s'.get? i).bind Scope.parent) :
    s.chain id = s'.chain id := by
  induction id using Nat.strongRecOn with
  | ind id ih =>
    rw [Scopes.chain, Scopes.chain, h id (Nat.le_refl id)]
    refine congrArg _ ?_
    split
    · split
      · rename_i parent _ hlt
        exact ih parent hlt fun i hi => h i (Nat.le_trans hi (Nat.le_of_lt hlt))
      · rfl
    · rfl

theorem findSome?_congr {α β : Type} {f g : α → Option β} {l : List α}
    (h : ∀ a ∈ l, f a = g a) : l.findSome? f = l.findSome? g := by
  induction l with
  | nil => rfl
  | cons a l ih =>
    simp only [List.findSome?_cons, h a List.mem_cons_self,
      ih fun b hb => h b (List.mem_cons_of_mem a hb)]

theorem find?_bind_eq_findSome? {α β : Type} (f : α → Option β) (l : List α) :
    (l.find? fun a => (f a).isSome).bind f = l.findSome? f := by
  induction l with
  | nil => rfl
  | cons a l ih =>
    cases ha : f a with
    | none => simpa [ha] using ih
    | some b => simp [ha]

theorem binder?_bind_binding? (id : ScopeId) (name : String) :
    (s.binder? id name).bind (s.binding? · name) = (s.chain id).findSome? (s.binding? · name) :=
  find?_bind_eq_findSome? (s.binding? · name) (s.chain id)

theorem binder?_congr {s s' : Scopes} {id : ScopeId} {name : String}
    (hc : s.chain id = s'.chain id)
    (hb : ∀ i ∈ s.chain id, (s.binding? i name).isSome = (s'.binding? i name).isSome) :
    s.binder? id name = s'.binder? id name := by
  rw [Scopes.binder?, Scopes.binder?, ← hc]
  generalize s.chain id = ids at hb
  induction ids with
  | nil => rfl
  | cons i ids ih =>
    simp only [List.find?_cons, hb i List.mem_cons_self,
      ih fun j hj => hb j (List.mem_cons_of_mem i hj)]

end Lookup

/-- Slots that belong to one activation, and the scopes in which its code looks for them. -/
structure Private where
  scope : ScopeId
  chain : List ScopeId
  names : List String
  slots : ∀ name ∈ names, isSlotName name = true

namespace Private

/-- Whether the activation finds its slots: each is a variable of one of its scopes. -/
structure Open (p : Private) (s : Scopes) : Prop where
  allocated : p.scope < s.all.size
  chain : s.chain p.scope = p.chain
  bound : ∀ name ∈ p.names, ∃ b, p.chain.findSome? (s.binding? · name) = some b ∧
    b.kind = .var ∧ b.initialized = true

/-- Whether scopes are the same but for the slots. -/
structure Agree (p : Private) (s s' : Scopes) : Prop where
  size : s.all.size = s'.all.size
  parent : ∀ id, (s.get? id).bind Scope.parent = (s'.get? id).bind Scope.parent
  binding : ∀ id name, ¬(id ∈ p.chain ∧ name ∈ p.names) →
    s.binding? id name = s'.binding? id name
  left : p.Open s
  right : p.Open s'

/-- Whether the slots are as before, those with some names excepted. -/
def Kept (p : Private) (except : List String) (s t : Scopes) : Prop :=
  ∀ id ∈ p.chain, ∀ name ∈ p.names, name ∉ except → t.binding? id name = s.binding? id name

variable {p : Private} {s s' t u : Scopes}

namespace Kept

theorem refl (except : List String) : p.Kept except s s := fun _ _ _ _ _ => rfl

theorem trans {xs ys : List String} (h : p.Kept xs s t) (h' : p.Kept ys t u) :
    p.Kept (xs ++ ys) s u := by
  intro id hid name hname hx
  rw [List.mem_append, not_or] at hx
  exact (h' id hid name hname hx.2).trans (h id hid name hname hx.1)

theorem mono {xs ys : List String} (h : p.Kept xs s t) (hsub : ∀ x ∈ xs, x ∈ ys) :
    p.Kept ys s t :=
  fun id hid name hname hy => h id hid name hname fun hx => hy (hsub name hx)

theorem lookup {xs : List String} (h : p.Kept xs s t) (hs : p.Open s) (ht : p.Open t)
    {name : String} (hn : name ∈ p.names) (hx : name ∉ xs) :
    t.lookup p.scope name = s.lookup p.scope name := by
  have hfound : (s.chain p.scope).findSome? (s.binding? · name) =
      (t.chain p.scope).findSome? (t.binding? · name) := by
    rw [hs.chain, ht.chain]
    refine findSome?_congr fun id hid => ?_
    exact (h id hid name hn hx).symm
  rw [Scopes.lookup, Scopes.lookup, binder?_bind_binding?, binder?_bind_binding?, hfound]

end Kept

theorem Open.of_kept (h : p.Open s) (hk : p.Kept [] s t) (hsize : s.all.size ≤ t.all.size)
    (hchain : t.chain p.scope = s.chain p.scope) : p.Open t where
  allocated := Nat.lt_of_lt_of_le h.allocated hsize
  chain := hchain.trans h.chain
  bound name hn := by
    obtain ⟨b, hb, hvar⟩ := h.bound name hn
    refine ⟨b, Eq.trans (findSome?_congr fun id hid => ?_) hb, hvar⟩
    exact hk id hid name hn (by simp)

namespace Agree

theorem refl (h : p.Open s) : p.Agree s s := ⟨rfl, fun _ => rfl, fun _ _ _ => rfl, h, h⟩

theorem symm (h : p.Agree s s') : p.Agree s' s :=
  ⟨h.size.symm, fun id => (h.parent id).symm, fun id name hn => (h.binding id name hn).symm,
    h.right, h.left⟩

theorem trans (h : p.Agree s t) (h' : p.Agree t u) : p.Agree s u :=
  ⟨h.size.trans h'.size, fun id => (h.parent id).trans (h'.parent id),
    fun id name hn => (h.binding id name hn).trans (h'.binding id name hn), h.left, h'.right⟩

theorem chain (h : p.Agree s s') (id : ScopeId) : s.chain id = s'.chain id :=
  chain_congr fun i _ => h.parent i

theorem binder? (h : p.Agree s s') (id : ScopeId) {name : String} (hn : name ∉ p.names) :
    s.binder? id name = s'.binder? id name :=
  binder?_congr (h.chain id) fun i _ => by rw [h.binding i name fun hh => hn hh.2]

theorem lookup (h : p.Agree s s') (id : ScopeId) {name : String} (hn : name ∉ p.names) :
    s.lookup id name = s'.lookup id name := by
  have hb : (s.binding? · name) = (s'.binding? · name) :=
    funext fun i => h.binding i name fun hh => hn hh.2
  rw [Scopes.lookup, Scopes.lookup, h.binder? id hn, hb]

end Agree

/-- Whether a step of evaluation goes the same way from scopes that agree, and keeps the slots. -/
def Respected {α : Type} (p : Private) (f : Scopes → α × Scopes) : Prop :=
  ∀ s s', p.Agree s s' →
    (f s).1 = (f s').1 ∧ p.Agree (f s).2 (f s').2 ∧ p.Kept [] s' (f s').2

theorem kept_bind (id : ScopeId) {name : String} (b : Binding) (hn : name ∉ p.names) :
    p.Kept [] s (s.bind id name b) := by
  intro i _ key hkey _
  have hne : ¬(id = i ∧ key = name) := by
    rintro ⟨-, rfl⟩
    exact hn hkey
  rw [binding?_bind, if_neg hne]

theorem Open.bind (h : p.Open s) (id : ScopeId) {name : String} (b : Binding)
    (hn : name ∉ p.names) : p.Open (s.bind id name b) := by
  refine h.of_kept (kept_bind id b hn) ?_ (chain_congr fun i _ => ?_)
  · exact Nat.le_of_eq (size_bind ..).symm
  · rw [parent_bind]

theorem Agree.bind (h : p.Agree s s') (id : ScopeId) {name : String} (b : Binding)
    (hn : name ∉ p.names) : p.Agree (s.bind id name b) (s'.bind id name b) where
  size := by rw [size_bind, size_bind, h.size]
  parent i := by rw [parent_bind, parent_bind, h.parent]
  binding i key hkey := by
    have hsome : (s.get? i).isSome = (s'.get? i).isSome := by
      rw [Bool.eq_iff_iff]
      simp [Scopes.get?, h.size]
    rw [binding?_bind, binding?_bind, h.binding i key hkey]
    split
    · cases hs : s.get? i <;> cases hs' : s'.get? i <;> simp [hs, hs'] at hsome ⊢
    · rfl
  left := h.left.bind id b hn
  right := h.right.bind id b hn

theorem respected_declare (id : ScopeId) {name : String} (kind : VarKind) (hn : name ∉ p.names) :
    p.Respected fun s => ((), s.declare id name kind) := by
  intro s s' h
  have hb := h.binding id name fun hh => hn hh.2
  refine ⟨rfl, ?_⟩
  simp only [Scopes.declare, hb]
  split
  · exact ⟨h, .refl _⟩
  · exact ⟨h.bind id _ hn, kept_bind id _ hn⟩

theorem respected_assign (id : ScopeId) {name : String} (v : Value) (hn : name ∉ p.names) :
    p.Respected fun s =>
      match s.assign? id name v with
      | some s => (true, s)
      | none => (false, s) := by
  intro s s' h
  have hroot : s.root id = s'.root id := by rw [Scopes.root, Scopes.root, h.chain]
  have hb : ∀ i, s.binding? i name = s'.binding? i name :=
    fun i => h.binding i name fun hh => hn hh.2
  simp only [Scopes.assign?, h.binder? id hn, hb, hroot]
  cases s'.binder? id name with
  | none => exact ⟨rfl, h.bind _ _ hn, kept_bind _ _ hn⟩
  | some owner =>
    cases hbinding : s'.binding? owner name with
    | none => simpa [hbinding] using ⟨h, Kept.refl []⟩
    | some b =>
      by_cases hconst : (b.kind = .const && b.initialized) = true
      · simp only [hbinding, hconst, if_true]
        exact ⟨trivial, h, .refl _⟩
      · simp only [hbinding, hconst, if_false, Bool.false_eq_true]
        exact ⟨trivial, h.bind _ _ hn, kept_bind _ _ hn⟩

theorem kept_alloc (parent : ScopeId) :
    p.Kept [] s (s.alloc ⟨.empty, some parent⟩).2 := by
  intro id hid name _ _
  rw [Scopes.binding?, Scopes.binding?, get?_alloc]
  split
  · rename_i heq
    simp [heq, Scopes.get?]
  · rfl

theorem Open.alloc (h : p.Open s) (parent : ScopeId) :
    p.Open (s.alloc ⟨.empty, some parent⟩).2 := by
  refine h.of_kept (kept_alloc parent) ?_ (chain_congr fun i hi => ?_)
  · simp [Scopes.alloc]
  · have hlt : i ≠ s.all.size := Nat.ne_of_lt (Nat.lt_of_le_of_lt hi h.allocated)
    rw [get?_alloc, if_neg hlt]

theorem respected_newScope (parent : ScopeId) :
    p.Respected fun s => s.alloc ⟨.empty, some parent⟩ := by
  intro s s' h
  refine ⟨h.size, ?_, kept_alloc parent⟩
  exact {
    size := by simp [Scopes.alloc, h.size]
    parent := fun id => by
      rw [get?_alloc, get?_alloc, h.size]
      split
      · rfl
      · exact h.parent id
    binding := fun id name hn => by
      have hb := h.binding id name hn
      simp only [Scopes.binding?, get?_alloc, h.size] at hb ⊢
      split
      · rfl
      · exact hb
    left := h.left.alloc parent
    right := h.right.alloc parent }

theorem Respected.bind {α β : Type} {f : Scopes → α × Scopes} {g : α → Scopes → β × Scopes}
    (hf : p.Respected f) (hg : ∀ a, p.Respected (g a)) :
    p.Respected fun s => g (f s).1 (f s).2 := by
  intro s s' h
  obtain ⟨heq, hagree, hkept⟩ := hf s s' h
  obtain ⟨heq', hagree', hkept'⟩ := hg (f s').1 _ _ hagree
  simp only [heq]
  exact ⟨heq', hagree', hkept.trans hkept'⟩

theorem Open.owner (h : p.Open s) {slot : String} (hn : slot ∈ p.names) :
    ∃ owner b, s.binder? p.scope slot = some owner ∧ s.binding? owner slot = some b ∧
      b.kind = .var ∧ owner ∈ p.chain := by
  obtain ⟨b, hb, hvar, -⟩ := h.bound slot hn
  rw [← h.chain, ← binder?_bind_binding?, Option.bind_eq_some_iff] at hb
  obtain ⟨owner, howner, hb⟩ := hb
  refine ⟨owner, b, howner, hb, hvar, ?_⟩
  rw [← h.chain]
  exact List.mem_of_find?_eq_some howner

/-- A binding that takes the place of another one is found where that was. -/
theorem binder?_rebind {id owner : ScopeId} {name : String} {b : Binding} (b' : Binding)
    (howner : s.binder? id name = some owner) (hb : s.binding? owner name = some b) :
    (s.bind owner name b').binder? id name = some owner ∧
      (s.bind owner name b').binding? owner name = some b' := by
  have hnew : (s.bind owner name b').binding? owner name = some b' := by
    rw [binding?_bind, if_pos ⟨rfl, rfl⟩]
    cases hs : s.get? owner with
    | none => simp [Scopes.binding?, hs] at hb
    | some scope => rfl
  refine ⟨?_, hnew⟩
  rw [← howner]
  refine binder?_congr (chain_congr fun j _ => parent_bind ..) fun i _ => ?_
  by_cases hi : owner = i
  · subst hi
    rw [hnew, hb]
    rfl
  · rw [binding?_bind, if_neg fun hh => hi hh.1]

/-- A slot takes a value, which no other code notices. -/
theorem Agree.assignSlot (h : p.Agree s s') {slot : String} (hn : slot ∈ p.names) (v : Value) :
    ∃ t, s'.assign? p.scope slot v = some t ∧ p.Agree s t ∧ p.Kept [slot] s' t ∧
      t.lookup p.scope slot = .found v := by
  obtain ⟨owner, b, howner, hb, hvar, hmem⟩ := h.right.owner hn
  let b' : Binding := { b with value := v, initialized := true }
  obtain ⟨hbinder, hnew⟩ := binder?_rebind b' howner hb
  have hassign : s'.assign? p.scope slot v = some (s'.bind owner slot b') := by
    simp [Scopes.assign?, howner, hb, hvar, b']
  have hother : ∀ i key, ¬(owner = i ∧ key = slot) →
      (s'.bind owner slot b').binding? i key = s'.binding? i key := by
    intro i key hne
    rw [binding?_bind, if_neg hne]
  have hchain : (s'.bind owner slot b').chain p.scope = p.chain :=
    (chain_congr fun j _ => parent_bind ..).trans h.right.chain
  have hfound : p.chain.findSome? ((s'.bind owner slot b').binding? · slot) = some b' := by
    rw [← hchain, ← binder?_bind_binding?, hbinder]
    exact hnew
  have hopen : p.Open (s'.bind owner slot b') := by
    refine ⟨?_, hchain, fun name hname => ?_⟩
    · rw [size_bind]
      exact h.right.allocated
    · by_cases heq : name = slot
      · subst heq
        exact ⟨b', hfound, hvar, rfl⟩
      · obtain ⟨c, hc, hcvar⟩ := h.right.bound name hname
        refine ⟨c, Eq.trans (findSome?_congr fun i _ => ?_) hc, hcvar⟩
        exact hother i name fun hh => heq hh.2
  refine ⟨_, hassign, ⟨?_, fun i => ?_, fun i key hkey => ?_, h.left, hopen⟩, ?_, ?_⟩
  · rw [size_bind, h.size]
  · rw [parent_bind, h.parent]
  · rw [hother i key, h.binding i key hkey]
    rintro ⟨rfl, rfl⟩
    exact hkey ⟨hmem, hn⟩
  · intro i _ name _ hname
    exact hother i name fun hh => hname (by simp [hh.2])
  · rw [Scopes.lookup, binder?_bind_binding?, hopen.chain, hfound]
    rfl

theorem Open.lookup (h : p.Open s) {slot : String} (hn : slot ∈ p.names) :
    ∃ v, s.lookup p.scope slot = .found v := by
  obtain ⟨b, hb, -, hinit⟩ := h.bound slot hn
  refine ⟨b.value, ?_⟩
  rw [Scopes.lookup, binder?_bind_binding?, h.chain, hb]
  simp [hinit]

theorem Open.has (h : p.Open s) {slot : String} (hn : slot ∈ p.names) :
    s.has p.scope slot = true := by
  obtain ⟨owner, b, howner, -⟩ := h.owner hn
  simp [Scopes.has, howner]

end Private

namespace Private

/-- Whether worlds are the same but for the slots. -/
structure Near (p : Private) (w w' : World) : Prop where
  rest : { w with scopes := w'.scopes } = w'
  scopes : p.Agree w.scopes w'.scopes

namespace Near

variable {p : Private} {w w' w'' : World}

theorem refl (h : p.Open w.scopes) : p.Near w w := ⟨rfl, .refl h⟩

theorem symm (h : p.Near w w') : p.Near w' w := by
  refine ⟨?_, h.scopes.symm⟩
  rw [← h.rest]

theorem trans (h : p.Near w w') (h' : p.Near w' w'') : p.Near w w'' := by
  refine ⟨?_, h.scopes.trans h'.scopes⟩
  rw [← h'.rest, ← h.rest]

theorem heap (h : p.Near w w') : w.heap = w'.heap := by rw [← h.rest]

theorem edit {α : Type} {x : Edit α} (hx : x.IsLocal) (h : p.Near w w') :
    (x w).1 = (x w').1 ∧ p.Near (x w).2 (x w').2 ∧ (x w').2.scopes = w'.scopes := by
  have hleft : (x w).2.scopes = w.scopes := hx.scopes_eq w
  have hright : x w' = ((x w).1, { (x w).2 with scopes := w'.scopes }) := by
    have hinstances : (x w).2.instances = w.instances :=
      congrArg (·.2.instances) (hx.apart w w.scopes w.instances)
    have hmoved := hx.apart w w'.scopes w.instances
    rw [← hinstances] at hmoved
    rw [← hmoved, hinstances]
    exact congrArg x h.rest.symm
  rw [hright]
  refine ⟨rfl, ⟨rfl, ?_⟩, rfl⟩
  rw [hleft]
  exact h.scopes

theorem editScopes {α : Type} {f : Scopes → α × Scopes} (hf : p.Respected f) (h : p.Near w w') :
    (Edit.scopes f w).1 = (Edit.scopes f w').1 ∧
      p.Near (Edit.scopes f w).2 (Edit.scopes f w').2 ∧
      p.Kept [] w'.scopes (Edit.scopes f w').2.scopes := by
  obtain ⟨heq, hagree, hkept⟩ := hf w.scopes w'.scopes h.scopes
  refine ⟨heq, ⟨?_, hagree⟩, hkept⟩
  show { w with scopes := (f w'.scopes).2 } = { w' with scopes := (f w'.scopes).2 }
  rw [← h.rest]

end Near

/-- Whether a run from here would go the same way with other values in the slots, and leaves them as
they are. -/
def BlindAt {α : Type} (p : Private) (x : Run α) (w : World) : Prop :=
  ∀ w', p.Near w w' →
    Outcome.Like p.Near (fun v => p.Kept [] w'.scopes v.scopes) (x w) (x w')

theorem BlindAt.near {α : Type} {p : Private} {x : Run α} {w w' : World} (h : p.BlindAt x w)
    (hn : p.Near w w') : p.BlindAt x w' := by
  intro w'' hn'
  have hl := h w' hn
  have hr := h w'' (hn.trans hn')
  generalize x w = r at hl hr
  generalize x w' = r' at hl
  generalize x w'' = r'' at hr
  cases hl with
  | done h1 _ =>
    cases hr with
    | done h2 hk => exact .done (h1.symm.trans h2) hk
  | abrupt h1 _ =>
    cases hr with
    | abrupt h2 hk => exact .abrupt (h1.symm.trans h2) hk
  | exhausted =>
    cases hr
    exact .exhausted

end Private

open Classical in
/-- A host that gives up on a call for which the slots make a difference. -/
noncomputable def HostOn.discreet (host : Host) (p : Private) : Host where
  call f receiver args w :=
    if p.BlindAt (host.call f receiver args) w then host.call f receiver args w else .exhausted
  suspend := host.suspend
  fuel := host.fuel

theorem discreet_blind (host : Host) (p : Private) (f receiver : Value) (args : List Value)
    (w : World) : p.BlindAt ((host.discreet p).call f receiver args) w := by
  intro w' hn
  by_cases hb : p.BlindAt (host.call f receiver args) w
  · have hb' := hb.near hn
    simp only [HostOn.discreet, if_pos hb, if_pos hb']
    exact hb w' hn
  · have hb' : ¬p.BlindAt (host.call f receiver args) w' := fun hb' => hb (hb'.near hn.symm)
    simp only [HostOn.discreet, if_neg hb, if_neg hb']
    exact .exhausted

end Resumable
