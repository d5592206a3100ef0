import Resumable.Eval.Closure

/-!
Edits that evaluation makes on its own: objects of no special role are made, fields and elements
change. Promises, generators, activations and what is queued stay as they are.
-/

set_option autoImplicit false

namespace Resumable

namespace Role

def isData : Role → Bool
  | .ordinary | .array _ | .arrayIterator _ _ _ _ => true
  | .function _ | .generator _ | .asyncGenerator _ | .promise _ => false

/-- Whether an object with this role can neither be settled nor settle or resume anything. -/
def isInert : Role → Bool
  | .function (.native (.resolve _ _)) | .function (.native (.reject _ _)) => false
  | .generator _ | .asyncGenerator _ | .promise _ => false
  | .ordinary | .array _ | .arrayIterator _ _ _ _ | .function _ => true

def MayBecome (r r' : Role) : Prop := r' = r ∨ r.isData = true ∧ r'.isData = true

theorem MayBecome.trans {r r' r'' : Role} (h : r.MayBecome r') (h' : r'.MayBecome r'') :
    r.MayBecome r'' := by
  obtain rfl | ⟨hd, hd'⟩ := h
  · exact h'
  · obtain rfl | ⟨-, hd''⟩ := h'
    · exact .inr ⟨hd, hd'⟩
    · exact .inr ⟨hd, hd''⟩

theorem isInert_of_isData {r : Role} (h : r.isData = true) : r.isInert = true := by
  cases r <;> first | rfl | cases h

theorem MayBecome.isInert {r r' : Role} (h : r.MayBecome r') (hr : r.isInert = true) :
    r'.isInert = true := by
  obtain rfl | ⟨-, hd⟩ := h
  · exact hr
  · exact isInert_of_isData hd

theorem MayBecome.eq {r r' : Role} (h : r.MayBecome r') (hr : r.isInert = false) : r' = r := by
  obtain rfl | ⟨hd, -⟩ := h
  · rfl
  · rw [isInert_of_isData hd] at hr
    cases hr

end Role

/-- Whether a heap has the same objects as another one and inert ones besides. -/
structure Heap.Extends (h h' : Heap) : Prop where
  old : ∀ (id : ObjectId) (o : Object), h.get? id = some o →
    ∃ o', h'.get? id = some o' ∧ o.role.MayBecome o'.role
  new : ∀ (id : ObjectId) (o : Object), h'.get? id = some o → h.get? id = none →
    o.role.isInert = true

namespace Heap.Extends

variable {h h' h'' : Heap}

theorem refl : h.Extends h :=
  ⟨fun _ o ho => ⟨o, ho, .inl rfl⟩, fun _ _ ho hn => by cases ho.symm.trans hn⟩

theorem trans (hh : h.Extends h') (hh' : h'.Extends h'') : h.Extends h'' where
  old id o ho := by
    obtain ⟨o', ho', hr⟩ := hh.old id o ho
    obtain ⟨o'', ho'', hr'⟩ := hh'.old id o' ho'
    exact ⟨o'', ho'', hr.trans hr'⟩
  new id o ho hn := by
    cases ho' : h'.get? id with
    | none => exact hh'.new id o ho ho'
    | some o' =>
      obtain ⟨o'', ho'', hr⟩ := hh'.old id o' ho'
      cases ho.symm.trans ho''
      exact hr.isInert (hh.new id o' ho' hn)

theorem alloc {o : Object} (ho : o.role.isInert = true) : h.Extends (h.alloc o).2 := by
  have hget (id : ObjectId) : (h.alloc o).2.get? id =
      if id = h.objects.size then some o else h.get? id := Array.getElem?_push
  refine ⟨fun id o' ho' => ⟨o', ?_, .inl rfl⟩, fun id o' ho' hn => ?_⟩
  · obtain ⟨hlt, -⟩ := Array.getElem?_eq_some_iff.1 ho'
    rw [hget, if_neg (Nat.ne_of_lt hlt)]
    exact ho'
  · rw [hget] at ho'
    split at ho'
    · cases ho'
      exact ho
    · cases hn.symm.trans ho'

theorem modify {f : Object → Object} {id : ObjectId}
    (hf : ∀ o : Object, h.get? id = some o → o.role.MayBecome (f o).role) :
    h.Extends (h.modify id f) := by
  have hget (i : ObjectId) : (h.modify id f).get? i =
      if id = i then (h.get? i).map f else h.get? i := Array.getElem?_modify
  refine ⟨fun i o ho => ?_, fun i o ho hn => ?_⟩
  · rw [hget, ho]
    split
    · rename_i heq
      exact ⟨f o, rfl, hf o (by rw [heq, ho])⟩
    · exact ⟨o, rfl, .inl rfl⟩
  · rw [hget, hn] at ho
    split at ho <;> cases ho

end Heap.Extends

/-- Whether nothing has happened to promises, generators, activations and jobs. -/
structure World.Calm (w w' : World) : Prop where
  heap : w.heap.Extends w'.heap
  instances : w'.instances = w.instances
  asyncGenerators : w'.asyncGenerators = w.asyncGenerators
  latches : w'.latches = w.latches
  jobs : w'.jobs = w.jobs

namespace World.Calm

variable {w w₁ w₂ : World}

theorem refl : w.Calm w := ⟨.refl, rfl, rfl, rfl, rfl⟩

theorem trans (h : w.Calm w₁) (h' : w₁.Calm w₂) : w.Calm w₂ :=
  ⟨h.heap.trans h'.heap, h'.instances.trans h.instances,
    h'.asyncGenerators.trans h.asyncGenerators, h'.latches.trans h.latches, h'.jobs.trans h.jobs⟩

end World.Calm

/-- Whether an edit only makes inert objects and changes data. -/
def Edit.IsCalm {α : Type} (x : Edit α) : Prop := ∀ w : World, w.Calm (x w).2

section Calm

variable {α β : Type}

theorem Edit.IsCalm.pure (a : α) : (Pure.pure a : Edit α).IsCalm := fun _ => .refl

theorem Edit.IsCalm.bind {x : Edit α} {f : α → Edit β} (hx : x.IsCalm) (hf : ∀ a, (f a).IsCalm) :
    (x >>= f).IsCalm := fun w => (hx w).trans (hf _ _)

theorem alloc_calm {o : Object} (h : o.role.isInert = true) : (Edit.alloc o).IsCalm :=
  fun _ => ⟨.alloc h, rfl, rfl, rfl, rfl⟩

theorem update_calm (id : ObjectId) {f : Object → Object}
    (h : ∀ o : Object, o.role.MayBecome (f o).role) :
    (Edit.update id f).IsCalm := fun _ => ⟨.modify fun o _ => h o, rfl, rfl, rfl, rfl⟩

theorem updateRole_calm {w : World} {id : ObjectId} {o : Object} {r : Role}
    (ho : w.heap.get? id = some o) (hd : o.role.isData = true) (hr : r.isData = true) :
    w.Calm (Edit.update id (fun o => { o with role := r }) w).2 := by
  refine ⟨.modify fun o' ho' => ?_, rfl, rfl, rfl, rfl⟩
  cases ho.symm.trans ho'
  exact .inr ⟨hd, hr⟩

theorem realm_calm : Edit.realm.IsCalm := fun _ => .refl

/-- Scopes are nothing that promises or activations depend on. -/
theorem scopes_calm (f : Scopes → α × Scopes) : (Edit.scopes f).IsCalm :=
  fun _ => ⟨.refl, rfl, rfl, rfl, rfl⟩

theorem newScope_calm (parent : ScopeId) : (Edit.newScope parent).IsCalm := scopes_calm _

theorem copyScope_calm (id : ScopeId) : (Edit.copyScope id).IsCalm := scopes_calm _

theorem declare_calm (id : ScopeId) (name : String) (kind : VarKind) :
    (Edit.declare id name kind).IsCalm := scopes_calm _

theorem assign_calm (id : ScopeId) (name : String) (v : Value) :
    (Edit.assign id name v).IsCalm := scopes_calm _

theorem define_calm (id : ScopeId) (name : String) (kind : VarKind) (v : Value) :
    (Edit.define id name kind v).IsCalm :=
  (declare_calm id name kind).bind fun _ => assign_calm id name v

theorem newObject_calm (proto : Option ObjectId) : (Edit.newObject proto).IsCalm := alloc_calm rfl

theorem newArray_calm (elements : Array Value) : (Edit.newArray elements).IsCalm :=
  realm_calm.bind fun _ => alloc_calm rfl

theorem newArrayIterator_calm (source : ObjectId) (overKeys : Bool) :
    (Edit.newArrayIterator source overKeys).IsCalm := realm_calm.bind fun _ => alloc_calm rfl

theorem newError_calm (kind : ErrorKind) (message : String) : (Edit.newError kind message).IsCalm :=
  realm_calm.bind fun _ => alloc_calm rfl

theorem newResult_calm (v : Value) (done : Bool) : (Edit.newResult v done).IsCalm :=
  realm_calm.bind fun _ => alloc_calm rfl

theorem forM_calm (xs : List α) {f : α → Edit Unit} (hf : ∀ x, (f x).IsCalm) :
    (xs.forM f).IsCalm := by
  induction xs with
  | nil => exact .pure ()
  | cons x xs ih => exact (hf x).bind fun _ => ih

theorem hoistVars_calm (scope : ScopeId) (body : List Stmt) : (hoistVars scope body).IsCalm :=
  forM_calm _ fun _ => declare_calm _ _ _

theorem elements?_eq_some {o : Object} {elements : Array Value} :
    o.elements? = some elements ↔ o.role = .array elements := by
  unfold Object.elements?
  cases o.role <;> simp

theorem set_mayBecome (o : Object) (key : String) (v : Value) :
    o.role.MayBecome (o.set key v).role := by
  have hfield : (o.setField key v).role = o.role := by
    unfold Object.setField
    split
    · split <;> rfl
    · rfl
  unfold Object.set
  split
  · rename_i elements i helements _
    rw [elements?_eq_some.1 helements]
    exact .inr ⟨rfl, rfl⟩
  · exact .inl hfield

theorem planFor_calm (site : Option Nat) (name : String) (kind : FunctionKind)
    (params : List Pattern) (body : List Stmt) : (planFor site name kind params body).IsCalm := by
  intro w
  simp only [planFor, Bind.bind, StateT.bind, getThe, MonadStateOf.get, get, StateT.get, Pure.pure]
  cases site.bind w.planAt? with
  | some plan => exact .refl
  | none => exact ⟨.refl, rfl, rfl, rfl, rfl⟩

theorem instanceProto_calm (kind : FunctionKind) (isArrow : Bool) :
    (instanceProto kind isArrow).IsCalm := by
  refine realm_calm.bind fun _ => ?_
  split
  · exact .pure _
  · cases kind with
    | async => exact .pure _
    | plain | generator | asyncGenerator => exact (newObject_calm _).bind fun _ => .pure _

theorem newFunction_calm (name : String) (kind : FunctionKind) (c : Closure) :
    (newFunction name kind c).IsCalm := by
  refine realm_calm.bind fun _ => (instanceProto_calm kind c.isArrow).bind fun proto =>
    (alloc_calm rfl).bind fun _ => ?_
  dsimp only
  split
  · refine .bind ?_ fun _ => .pure _
    exact update_calm _ fun _ => .inl rfl
  · exact .pure _

end Calm

end Resumable
