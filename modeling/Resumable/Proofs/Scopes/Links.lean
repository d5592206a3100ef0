import Resumable.Proofs.Plan.Hygiene

/-!
Stores of scopes that grow: a scope keeps its link, so what is visible from it stays visible and nothing
else becomes so. Main statements: `Lineage.apart`, `Lineage.isolated`: the environments of the turns of a
loop do not see each other, and code inside one of them changes nothing in the others.
-/

set_option autoImplicit false

namespace Resumable

namespace Scopes

theorem assign?_cases {s t : Scopes} {id : ScopeId} {name : String} {v : Value}
    (h : s.assign? id name v = some t) : t = s ∨ ∃ owner b, t = s.bind owner name b := by
  unfold Scopes.assign? at h
  split at h
  · split at h
    · split at h
      · cases h
      · exact .inr ⟨_, _, (Option.some.inj h).symm⟩
    · exact .inl (Option.some.inj h).symm
  · exact .inr ⟨_, _, (Option.some.inj h).symm⟩

/-- Whether a store has all scopes of another one, each with the link that it had. -/
structure Extends (s t : Scopes) : Prop where
  size_le : s.all.size ≤ t.all.size
  parent : ∀ id, id < s.all.size → (t.get? id).bind Scope.parent = (s.get? id).bind Scope.parent

namespace Extends

variable {s t u : Scopes}

theorem refl (s : Scopes) : s.Extends s := ⟨Nat.le_refl _, fun _ _ => rfl⟩

theorem trans (h : s.Extends t) (h' : t.Extends u) : s.Extends u :=
  ⟨Nat.le_trans h.size_le h'.size_le, fun id hid =>
    (h'.parent id (Nat.lt_of_lt_of_le hid h.size_le)).trans (h.parent id hid)⟩

theorem bind (id : ScopeId) (name : String) (b : Binding) : s.Extends (s.bind id name b) :=
  ⟨Nat.le_of_eq (size_bind ..).symm, fun _ _ => parent_bind ..⟩

theorem declare (id : ScopeId) (name : String) (kind : VarKind) :
    s.Extends (s.declare id name kind) := by
  unfold Scopes.declare
  split
  · exact refl s
  · exact bind ..

theorem assign {id : ScopeId} {name : String} {v : Value} (h : s.assign? id name v = some t) :
    s.Extends t := by
  obtain rfl | ⟨owner, b, rfl⟩ := assign?_cases h
  · exact refl t
  · exact bind ..

theorem alloc (scope : Scope) : s.Extends (s.alloc scope).2 := by
  refine ⟨by simp [Scopes.alloc], fun id hid => ?_⟩
  rw [get?_alloc, if_neg (Nat.ne_of_lt hid)]

theorem copy (id : ScopeId) : s.Extends (s.copy id).2 := alloc _

theorem chain (h : s.Extends t) {id : ScopeId} (hid : id < s.all.size) : t.chain id = s.chain id :=
  chain_congr fun i hi => h.parent i (Nat.lt_of_le_of_lt hi hid)

end Extends

variable {s : Scopes}

theorem get?_copy {id : ScopeId} {scope : Scope} (h : s.get? id = some scope) :
    (s.copy id).2.get? (s.copy id).1 = some scope := by
  rw [copy, h]
  exact (get?_alloc s scope s.all.size).trans (if_pos rfl)

theorem mem_chain_self (s : Scopes) (id : ScopeId) : id ∈ s.chain id := by
  rw [chain]
  exact List.mem_cons_self

theorem mem_chain_cons {i id : ScopeId} (h : i ∈ s.chain id) :
    i = id ∨ ∃ parent, (s.get? id).bind Scope.parent = some parent ∧ parent < id ∧
      i ∈ s.chain parent := by
  rw [chain] at h
  refine (List.mem_cons.1 h).imp_right fun h => ?_
  split at h
  · rename_i parent hp
    split at h
    · exact ⟨parent, hp, ‹_›, h⟩
    · cases h
  · cases h

theorem mem_chain_of_parent {i id parent : ScopeId} (hp : (s.get? id).bind Scope.parent = some parent)
    (hlt : parent < id) (h : i ∈ s.chain parent) : i ∈ s.chain id := by
  rw [chain, hp]
  exact List.mem_cons_of_mem _ (by simpa [hlt] using h)

theorem le_of_mem_chain {i id : ScopeId} (h : i ∈ s.chain id) : i ≤ id := by
  induction id using Nat.strongRecOn with
  | ind id ih =>
    obtain rfl | ⟨parent, -, hlt, hi⟩ := mem_chain_cons h
    · exact Nat.le_refl _
    · exact Nat.le_trans (ih parent hlt hi) (Nat.le_of_lt hlt)

theorem mem_chain_trans {i j id : ScopeId} (h : i ∈ s.chain j) (h' : j ∈ s.chain id) :
    i ∈ s.chain id := by
  induction id using Nat.strongRecOn with
  | ind id ih =>
    obtain rfl | ⟨parent, hp, hlt, hj⟩ := mem_chain_cons h'
    · exact h
    · exact mem_chain_of_parent hp hlt (ih parent hlt hj)

/-- Whether a scope stands directly in another one. -/
structure Under (s : Scopes) (a b : ScopeId) : Prop where
  lt : b < a
  exists_lt : a < s.all.size
  parent_eq : (s.get? a).bind Scope.parent = some b

namespace Under

variable {a b c : ScopeId} {t : Scopes}

theorem later (h : s.Under a b) (he : s.Extends t) : t.Under a b :=
  ⟨h.lt, Nat.lt_of_lt_of_le h.exists_lt he.size_le, (he.parent a h.exists_lt).trans h.parent_eq⟩

theorem mem_chain (h : s.Under a b) (hc : c ∈ s.chain b) : c ∈ s.chain a :=
  mem_chain_of_parent h.parent_eq h.lt hc

theorem alloc (hb : b < s.all.size) :
    (s.alloc ⟨.empty, some b⟩).2.Under (s.alloc ⟨.empty, some b⟩).1 b :=
  ⟨hb, by simp [Scopes.alloc], by simp [Scopes.alloc, Scopes.get?]⟩

theorem copy (h : s.Under a b) : (s.copy a).2.Under (s.copy a).1 b := by
  refine ⟨Nat.lt_trans h.lt h.exists_lt, by simp [Scopes.copy, Scopes.alloc], ?_⟩
  have hp := h.parent_eq
  cases hget : s.get? a with
  | none => simp [hget] at hp
  | some scope =>
    rw [get?_copy hget, ← hget]
    exact hp

end Under

/-- No scope sees two that stand side by side. -/
theorem not_both_of_siblings {outer a b id : ScopeId} (hua : s.Under a outer) (hub : s.Under b outer)
    (hne : a ≠ b) (h : a ∈ s.chain id) : b ∉ s.chain id := by
  obtain ⟨hlta, -, ha⟩ := hua
  obtain ⟨hltb, -, hb⟩ := hub
  have hstop {c d : ScopeId} (hc : (s.get? c).bind Scope.parent = some outer) (hlt : outer < d)
      (hcd : c ≠ d) : d ∉ s.chain c := fun hd => by
    obtain rfl | ⟨parent, hp, -, hin⟩ := mem_chain_cons hd
    · exact hcd rfl
    · cases hc.symm.trans hp
      exact Nat.lt_irrefl _ (Nat.lt_of_lt_of_le hlt (le_of_mem_chain hin))
  induction id using Nat.strongRecOn with
  | ind id ih =>
    intro h'
    obtain rfl | ⟨parent, hp, hlt, hin⟩ := mem_chain_cons h
    · exact hstop ha hltb hne h'
    · obtain rfl | ⟨parent', hp', -, hin'⟩ := mem_chain_cons h'
      · exact hstop hb hlta hne.symm h
      · cases hp.symm.trans hp'
        exact ih parent hlt hin hin'

theorem root_mem_chain (s : Scopes) (id : ScopeId) : s.root id ∈ s.chain id := by
  rw [root, List.getLastD_eq_getLast?]
  cases h : (s.chain id).getLast? with
  | none => exact s.mem_chain_self id
  | some last => exact List.mem_of_getLast? h

theorem assign?_visible {t : Scopes} {id other : ScopeId} {name : String} {v : Value}
    (h : s.assign? id name v = some t) (ho : other ∉ s.chain id) : t.get? other = s.get? other := by
  unfold Scopes.assign? at h
  split at h
  · rename_i owner howner
    have hne : owner ≠ other := fun heq => ho (heq ▸ List.mem_of_find?_eq_some howner)
    split at h
    · split at h
      · cases h
      · cases h
        rw [get?_bind, if_neg hne]
    · cases h
      rfl
  · cases h
    rw [get?_bind, if_neg fun heq : s.root id = other => ho (heq ▸ s.root_mem_chain id)]

/-- What a name stands for depends on the visible scopes alone. -/
theorem lookup_congr {t : Scopes} {id : ScopeId} {name : String} (hc : t.chain id = s.chain id)
    (hb : ∀ i ∈ s.chain id, t.get? i = s.get? i) : t.lookup id name = s.lookup id name := by
  have hfound : (t.chain id).findSome? (t.binding? · name) =
      (s.chain id).findSome? (s.binding? · name) := by
    rw [hc]
    refine findSome?_congr fun i hi => ?_
    rw [binding?, binding?, hb i hi]
  rw [lookup, lookup, binder?_bind_binding?, binder?_bind_binding?, hfound]

end Scopes

open Scopes

/-- The environments of the turns of a loop, newest first: the first one stands in a scope, each later
one is a copy of the one before it. In between the store grows. -/
inductive Lineage (outer : ScopeId) : List ScopeId → Scopes → Prop where
  | opened {e : ScopeId} {s : Scopes} : s.Under e outer → Lineage outer [e] s
  | grown {es : List ScopeId} {s t : Scopes} : Lineage outer es s → s.Extends t → Lineage outer es t
  | copied {e : ScopeId} {es : List ScopeId} {s : Scopes} : Lineage outer (e :: es) s →
    Lineage outer ((s.copy e).1 :: e :: es) (s.copy e).2

namespace Lineage

variable {outer a b e : ScopeId} {es : List ScopeId} {s t : Scopes}

theorem stands (h : Lineage outer es s) (ha : a ∈ es) : s.Under a outer := by
  induction h generalizing a with
  | opened hu => rwa [List.mem_singleton.1 ha]
  | grown _ hg ih => exact (ih ha).later hg
  | @copied e es s _ ih =>
    obtain rfl | ha := List.mem_cons.1 ha
    · exact (ih List.mem_cons_self).copy
    · exact (ih ha).later (.copy e)

theorem descending (h : Lineage outer es s) : es.Pairwise (· > ·) := by
  induction h with
  | opened => exact List.pairwise_singleton ..
  | grown _ _ ih => exact ih
  | copied h ih => exact ih.cons fun c hc => (h.stands hc).exists_lt

theorem nodup (h : Lineage outer es s) : es.Nodup :=
  h.descending.imp Nat.ne_of_gt

/-- From inside one environment no other one is visible. -/
theorem apart (h : Lineage outer es s) (ha : a ∈ es) (hb : b ∈ es) (hne : a ≠ b)
    (he : a ∈ s.chain e) : b ∉ s.chain e :=
  not_both_of_siblings (h.stands ha) (h.stands hb) hne he

end Lineage

/-- Whether code inside one scope and code inside another one keep off each other's bindings. -/
structure Scopes.Isolates (s : Scopes) (a b : ScopeId) : Prop where
  /-- No name stands for a binding of the other scope. -/
  unseen : ∀ e name, a ∈ s.chain e → s.binder? e name ≠ some b
  /-- No assignment changes the other scope. -/
  unchanged : ∀ e name v t, a ∈ s.chain e → s.assign? e name v = some t → t.get? b = s.get? b
  /-- No declaration changes the other scope. -/
  undeclared : ∀ e name kind, a ∈ s.chain e → (s.declare e name kind).get? b = s.get? b
  /-- To assign to a name that the one scope binds changes nothing of what is read inside the other. -/
  unread : ∀ e name v t, a ∈ s.chain e → (s.binding? a name).isSome = true →
    s.assign? e name v = some t → ∀ e' key, b ∈ s.chain e' → t.lookup e' key = s.lookup e' key

/-- Code inside one environment keeps off all others. -/
theorem Lineage.isolated {outer a b : ScopeId} {es : List ScopeId} {s : Scopes}
    (h : Lineage outer es s) (ha : a ∈ es) (hb : b ∈ es) (hne : a ≠ b) : s.Isolates a b where
  unseen e name he hbinder := h.apart ha hb hne he (List.mem_of_find?_eq_some hbinder)
  unchanged e name v t he hassign := assign?_visible hassign (h.apart ha hb hne he)
  undeclared e name kind he := by
    have hne : e ≠ b := fun heq => h.apart ha hb hne he (heq ▸ s.mem_chain_self e)
    unfold Scopes.declare
    split
    · rfl
    · rw [get?_bind, if_neg hne]
  unread e name v t he hbound hassign e' key he' := by
    have hunseen {i : ScopeId} (hi : i ∈ s.chain e') : a ∉ s.chain i := fun hin =>
      h.apart ha hb hne (mem_chain_trans hin hi) he'
    refine lookup_congr (chain_congr fun i _ => ?_) fun i hi =>
      assign?_inside he hbound hassign i (hunseen hi)
    obtain rfl | ⟨owner, binding, rfl⟩ := assign?_cases hassign
    · rfl
    · exact parent_bind ..

/-- Whether a scope is made as a copy of another one, and nothing else is changed. -/
structure Scopes.Copies (s t : Scopes) (a b : ScopeId) : Prop where
  held : (s.get? a).isSome = true
  fresh : s.get? b = none
  same : t.get? b = s.get? a
  others : ∀ i, i ≠ b → t.get? i = s.get? i

theorem Scopes.Under.copies {s : Scopes} {a b : ScopeId} (h : s.Under a b) :
    s.Copies (s.copy a).2 a (s.copy a).1 := by
  have hp := h.parent_eq
  cases hget : s.get? a with
  | none => simp [hget] at hp
  | some scope =>
    refine ⟨by simp [hget], Array.getElem?_eq_none (Nat.le_refl _),
      (get?_copy hget).trans hget.symm, fun i hi => ?_⟩
    rw [Scopes.copy, hget]
    exact (get?_alloc s scope i).trans (if_neg hi)

/-- Whether the environments of the turns of a loop are apart: they are different scopes, side by side
in another one, and whatever runs later inside of one of them keeps off the others. -/
structure Scopes.Apart (s : Scopes) (es : List ScopeId) : Prop where
  distinct : es.Nodup
  siblings : ∃ outer, ∀ e ∈ es, s.Under e outer
  isolated : ∀ t, s.Extends t → ∀ a ∈ es, ∀ b ∈ es, a ≠ b → t.Isolates a b

theorem Lineage.areApart {outer : ScopeId} {es : List ScopeId} {s : Scopes} (h : Lineage outer es s) :
    s.Apart es :=
  ⟨h.nodup, ⟨outer, fun _ => h.stands⟩, fun _ he _ ha _ hb hne => (h.grown he).isolated ha hb hne⟩

end Resumable
