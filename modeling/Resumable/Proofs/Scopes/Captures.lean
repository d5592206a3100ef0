import Resumable.Proofs.Lifecycle.SharedPlans
import Resumable.Proofs.Scopes.Assignment
import Resumable.Proofs.Scopes.Isolation

/-!
Functions keep the scope where they are made. One that is made in a turn of a loop sees the environment of
that turn and of no other one, and so does each of its calls. Main statements: `eval_captures`,
`instantiate_captures`: what code makes captures what the code sees; `calls_stay_apart`.
-/

set_option autoImplicit false

namespace Resumable

/-- Whether a scope is there, and another one is visible from it. -/
structure World.Sees (w : World) (scope e : ScopeId) : Prop where
  exists_lt : scope < w.scopes.all.size
  visible : e ∈ w.scopes.chain scope

/-- Whether a value is a function that was made where a scope is visible. -/
def World.Captures (w : World) (f : Value) (e : ScopeId) : Prop :=
  ∃ c : Closure, w.heap.callable? f = some (.closure c) ∧ w.Sees c.scope e

section Worlds

variable {w w' : World} {scope e : ScopeId} {f : Value}

theorem World.Sees.later (h : w.Sees scope e) (hl : w.Later w') : w'.Sees scope e :=
  ⟨Nat.lt_of_lt_of_le h.exists_lt hl.scopes.size_le, hl.scopes.chain h.exists_lt ▸ h.visible⟩

theorem World.Sees.newScope (h : w.Sees scope e) {inner : ScopeId}
    (hn : (Run.edit (Edit.newScope scope) : Run ScopeId) w = .done inner w') : w'.Sees inner e := by
  have hunder := Scopes.Under.alloc h.exists_lt
  have hext := Scopes.Extends.alloc (s := w.scopes) ⟨.empty, some scope⟩
  cases hn
  exact ⟨hunder.exists_lt, hunder.mem_chain (hext.chain h.exists_lt ▸ h.visible)⟩

theorem callable?_of_calm (hf : ∃ c, w.heap.callable? f = some (.closure c)) (hc : w.Calm w') :
    w'.heap.callable? f = w.heap.callable? f := by
  obtain ⟨c, hf⟩ := hf
  obtain ⟨o, hobject, ho⟩ := Option.bind_eq_some_iff.1 hf
  obtain ⟨id, hid, hget⟩ := Option.bind_eq_some_iff.1 hobject
  obtain ⟨o', hget', hrole⟩ := hc.heap.old id o hget
  have hfunction := Object.callable?_eq_some.1 ho
  have hsame : o'.role = o.role := hrole.resolve_right fun h => by
    rw [hfunction] at h
    cases h.1
  have hobject' : w'.heap.object? f = some o' := Option.bind_eq_some_iff.2 ⟨id, hid, hget'⟩
  rw [hf, Heap.callable?, hobject', ← ho]
  show o'.callable? = o.callable?
  rw [Object.callable?, Object.callable?, hsame]

theorem World.Captures.later (h : w.Captures f e) (hl : w.Later w') (hc : w.Calm w') :
    w'.Captures f e := by
  obtain ⟨c, hf, hsees⟩ := h
  exact ⟨c, (callable?_of_calm ⟨c, hf⟩ hc).trans hf, hsees.later hl⟩

end Worlds

/-- Runs that only make edits of the kind that evaluation makes on its own. -/
def calmly : Conduct where
  State := World
  world w := w
  Good _ := True
  Leads := World.Calm
  Leaves := World.Calm
  leaves_iff := ⟨fun h => ⟨_, h, rfl⟩, by rintro ⟨_, h, rfl⟩; exact h⟩
  good _ := trivial
  refl _ := .refl
  trans := .trans
  calm _ h := ⟨_, h, rfl⟩

section Making

variable {w w' : World} {scope e : ScopeId} {f : Value} {site : Option Nat} {kind : FunctionKind}
  {body : List Stmt}

theorem makeClosure_follows (hsite : HasSite site kind body) {name : Option String}
    {params : List Pattern} {isArrow : Bool}
    (h : makeClosure site name kind params body scope isArrow w = .done f w') :
    w.Later w' ∧ w.Calm w' := by
  have hgrows := (makeClosure_related (R := growing.toEvalRelation) hsite name params scope isArrow).2
  have hcalm := (makeClosure_related (R := calmly.relation.toEvalRelation) hsite name params scope
    isArrow).2 w trivial
  rw [show (makeClosure site name kind params body scope isArrow : Run Value) (calmly.world w) = _
    from h] at hcalm
  exact ⟨hgrows.done h, hcalm⟩

/-- A function captures the scope where it is made. -/
theorem makeClosure_captures (hsite : HasSite site kind body) (hs : w.Sees scope e)
    {name : Option String} {params : List Pattern} {isArrow : Bool}
    (h : makeClosure site name kind params body scope isArrow w = .done f w') : w'.Captures f e := by
  have hplanned := (routineFor_related (R := growing.toEvalRelation) (name.getD "anonymous") params
    hsite).2
  obtain ⟨routine, w₁, hl, h⟩ := hplanned.done_bind h
  cases h
  refine ⟨_, newFunction_callable, hs.later (hl.trans ⟨?_, ?_⟩)⟩
  · exact (newFunction_local ..).scopes_eq w₁ ▸ .refl _
  · exact newFunction_builds .. ▸ .refl _

theorem World.Captures.define {v : Value} (h : w.Captures f e) (name : String) (kind : VarKind) :
    World.Captures (Edit.define scope name kind v w).2 f e :=
  h.later (define_grows scope name kind v w).keeps.later (define_calm scope name kind v w)

/-- A function expression with a name sees itself besides. -/
theorem makeFunction_captures (hs : w.Sees scope e) {name hint : Option String} {d : Func}
    (h : makeFunction name hint d scope w = .done f w') : w'.Captures f e := by
  cases name with
  | none => exact makeClosure_captures hasSite_some hs h
  | some own =>
    simp only [makeFunction, bind, RunOn.bind] at h
    cases hn : (Run.edit (Edit.newScope scope) : Run ScopeId) w with
    | abrupt | exhausted => cases hn
    | done inner w₁ =>
      rw [show (liftM (Edit.newScope scope) : Run ScopeId) w = _ from hn] at h
      dsimp only at h
      cases hm : (makeClosure (some d.site) (some own) d.kind d.params d.body inner false : Run Value)
          w₁ with
      | abrupt | exhausted =>
        rw [hm] at h
        cases h
      | done v w₂ =>
        rw [hm] at h
        cases h
        exact (makeClosure_captures hasSite_some (hs.newScope hn) hm).define own .const

def Expr.isFunction : Expr → Bool
  | .function _ _ | .arrow _ | .lambda _ _ _ => true
  | _ => false

/-- A function expression captures what is visible where it is evaluated. -/
theorem eval_captures {host : Host} {x : Expr} (hx : x.isFunction = true) (hs : w.Sees scope e)
    {hint : Option String} (h : x.eval host scope hint w = .done f w') : w'.Captures f e := by
  cases x with
  | function name d =>
    rw [Expr.eval] at h
    exact makeFunction_captures hs h
  | arrow d =>
    rw [Expr.eval] at h
    exact makeClosure_captures hasSite_some hs h
  | lambda isAsync params result =>
    rw [Expr.eval] at h
    exact makeClosure_captures hasSite_lambda hs h
  | _ => cases hx

end Making

section Declared

variable {w w' : World} {scope e : ScopeId} {v : Value}

theorem Scopes.binding?_bind_other {s : Scopes} {id : ScopeId} {name key : String} {b : Binding}
    (hkey : key ≠ name) : (s.bind id name b).binding? id key = s.binding? id key := by
  rw [binding?_bind, if_neg fun h => hkey h.2]

theorem declare_binds {s : Scopes} {name : String} (hs : scope < s.all.size)
    (hfree : ∀ b, s.binding? scope name = some b → b.kind ≠ .const) :
    (∃ b, (s.declare scope name .var).binding? scope name = some b ∧ b.kind ≠ .const) ∧
      ∀ key, key ≠ name → (s.declare scope name .var).binding? scope key = s.binding? scope key := by
  cases hb : s.binding? scope name with
  | some b =>
    have hsame : s.declare scope name .var = s := by simp [Scopes.declare, hb]
    rw [hsame]
    exact ⟨⟨b, hb, hfree b hb⟩, fun _ _ => rfl⟩
  | none =>
    have hnew : s.declare scope name .var = s.bind scope name ⟨.undefined, .var, true⟩ := by
      simp [Scopes.declare, hb]
    rw [hnew]
    exact ⟨⟨_, Scopes.binding?_bind_self hs .., by simp⟩, fun key hkey => Scopes.binding?_bind_other hkey⟩

/-- To define a name binds it, unless it is bound as a constant. -/
theorem define_binds (name : String) (hs : scope < w.scopes.all.size)
    (hfree : ∀ b, w.scopes.binding? scope name = some b → b.kind ≠ .const) (v : Value) :
    (∃ b, (Edit.define scope name .var v w).2.scopes.binding? scope name = some b ∧ b.value = v ∧
      b.kind ≠ .const) ∧
    ∀ key, key ≠ name → (Edit.define scope name .var v w).2.scopes.binding? scope key =
      w.scopes.binding? scope key := by
  obtain ⟨⟨b, hb, hk⟩, hothers⟩ := declare_binds hs hfree
  obtain ⟨t, ht⟩ : ∃ t, w.scopes.declare scope name .var = t := ⟨_, rfl⟩
  rw [ht] at hb hothers
  have hsize : scope < t.all.size := by
    rw [← ht]
    exact Nat.lt_of_lt_of_le hs (Scopes.Extends.declare scope name .var).size_le
  have hout : (Edit.define scope name .var v w).2 =
      (Edit.assign scope name v { w with scopes := t }).2 := by
    rw [← ht]
    rfl
  have hassign : t.assign? scope name v =
      some (t.bind scope name { b with value := v, initialized := true }) := by
    rw [(Scopes.Owner.here (by rw [hb]; rfl)).assign?_eq v, hb]
    simp [hk]
  rw [hout, assign_apply]
  dsimp only
  rw [hassign]
  exact ⟨⟨_, Scopes.binding?_bind_self hsize .., rfl, hk⟩,
    fun key hkey => (Scopes.binding?_bind_other hkey).trans (hothers key hkey)⟩

section Routines

variable {site : Option Nat} {kind : FunctionKind} {body : List Stmt}

theorem plan_scopes (hsite : HasSite site kind body) (hkind : kind ≠ .plain) {name : String}
    {params : List Pattern} {plan : Plan}
    (h : routineFor.plan site name kind params body w = .done plan w') : w'.scopes = w.scopes := by
  have hlocal := (planFor_local name params hsite hkind).scopes_eq w
  obtain ⟨⟨r, w₁⟩, hr⟩ : ∃ r, planFor site name kind params body w = r := ⟨_, rfl⟩
  rw [hr] at hlocal
  simp only [routineFor.plan, bind, RunOn.bind] at h
  rw [show (liftM (planFor site name kind params body) : Run _) w = .done r w₁ from
    congrArg (fun r : Except Refusal Plan × World => Outcome.done r.1 r.2) hr] at h
  cases r with
  | error => cases h
  | ok plan =>
    cases h
    exact hlocal

theorem routineFor_scopes (hsite : HasSite site kind body) {name : String} {params : List Pattern}
    {routine : Routine} (h : routineFor site name kind params body w = .done routine w') :
    w'.scopes = w.scopes := by
  cases kind with
  | plain =>
    cases h
    rfl
  | generator | async | asyncGenerator =>
    simp only [routineFor, bind, RunOn.bind] at h
    split at h
    · rename_i hplan
      cases h
      exact plan_scopes hsite (by simp) hplan
    · cases h
    · cases h

theorem makeClosure_scopes (hsite : HasSite site kind body) {name : Option String}
    {params : List Pattern} {isArrow : Bool}
    (h : makeClosure site name kind params body scope isArrow w = .done v w') :
    w'.scopes = w.scopes := by
  simp only [makeClosure, bind, RunOn.bind] at h
  split at h
  · rename_i routine w₁ hroutine
    cases h
    exact ((newFunction_local ..).scopes_eq w₁).trans (routineFor_scopes hsite hroutine)
  · cases h
  · cases h

end Routines

/-- A declared function is bound to one that captures what is visible where it is declared, unless the name
is that of a constant. -/
theorem instantiate_captures {ds : List FunctionDecl} (hs : w.Sees scope e)
    (hfree : ∀ d ∈ ds, ∀ b, w.scopes.binding? scope d.name = some b → b.kind ≠ .const)
    (h : instantiate scope ds w = .done () w') :
    (∀ d ∈ ds, ∃ b, w'.scopes.binding? scope d.name = some b ∧ w'.Captures b.value e) ∧
      (∀ key, (∀ d ∈ ds, key ≠ d.name) → w'.scopes.binding? scope key = w.scopes.binding? scope key) ∧
      w.Later w' ∧ w.Calm w' := by
  induction ds generalizing w with
  | nil =>
    cases h
    exact ⟨by simp, fun _ _ => rfl, .refl _, .refl⟩
  | cons d ds ih =>
    obtain ⟨hd, hfree⟩ := List.forall_mem_cons.1 hfree
    simp only [instantiate, bind, RunOn.bind] at h
    split at h
    · rename_i f w₁ hmade
      obtain ⟨hlater, hcalm⟩ := makeClosure_follows hasSite_some hmade
      have hsame := makeClosure_scopes hasSite_some hmade
      have hcaptures := makeClosure_captures hasSite_some hs hmade
      have hs₁ := hs.later hlater
      obtain ⟨⟨b, hb, hvalue, hkind⟩, hothers⟩ := define_binds d.name hs₁.exists_lt
        (by rw [hsame]; exact hd) f
      obtain ⟨w₂, hw₂⟩ : ∃ w₂, (Edit.define scope d.name .var f w₁).2 = w₂ := ⟨_, rfl⟩
      have hlater₂ : w₁.Later w₂ := hw₂ ▸ (define_grows scope d.name .var f w₁).keeps.later
      have hcalm₂ : w₁.Calm w₂ := hw₂ ▸ define_calm scope d.name .var f w₁
      rw [hw₂] at hb hothers
      have h : instantiate scope ds w₂ = .done () w' := hw₂ ▸ h
      have hfree₂ : ∀ d' ∈ ds, ∀ b', w₂.scopes.binding? scope d'.name = some b' → b'.kind ≠ .const := by
        intro d' hd' b' hb'
        by_cases hname : d'.name = d.name
        · rw [hname, hb] at hb'
          cases hb'
          exact hkind
        · rw [hothers _ hname, hsame] at hb'
          exact hfree d' hd' b' hb'
      obtain ⟨hrest, hkeep, hlater₃, hcalm₃⟩ := ih (hs₁.later hlater₂) hfree₂ h
      refine ⟨List.forall_mem_cons.2 ⟨?_, hrest⟩, fun key hkey => ?_,
        (hlater.trans hlater₂).trans hlater₃, (hcalm.trans hcalm₂).trans hcalm₃⟩
      · by_cases hagain : ∃ d' ∈ ds, d'.name = d.name
        · obtain ⟨d', hd', hname⟩ := hagain
          exact hname ▸ hrest d' hd'
        · have hkept := hkeep d.name fun d' hd' hname => hagain ⟨d', hd', hname.symm⟩
          refine ⟨b, hkept.trans hb, hvalue ▸ hcaptures.later (hlater₂.trans hlater₃) ?_⟩
          exact hcalm₂.trans hcalm₃
      · obtain ⟨hne, hkey⟩ := List.forall_mem_cons.1 hkey
        rw [hkeep key hkey, hothers key hne, hsame]
    · cases h
    · cases h

end Declared

/-- A function that was made in one turn of a loop sees that turn whenever it is called, and no other
turn. -/
theorem calls_stay_apart (fuel : Nat) {es : List ScopeId} {a b : ScopeId} {w w₁ w₂ : World} {f : Value}
    (hapart : w.scopes.Apart es) (ha : a ∈ es) (hb : b ∈ es) (hne : a ≠ b) (hf : w.Captures f a)
    (hl : w.Later w₁) {c : Closure} (hmade : w.heap.callable? f = some (.closure c))
    {receiver : Value} {args : List Value} {scope : ScopeId}
    (hc : c.enter (.withFuel fuel) receiver args w₁ = .done scope w₂) :
    w₂.Sees scope a ∧ b ∉ w₂.scopes.chain scope := by
  obtain ⟨c', hc', hsees⟩ := hf
  cases hmade.symm.trans hc'
  have hsees₁ := hsees.later hl
  obtain ⟨hl₂, hunder⟩ := enter_under c receiver args (withFuel_grows fuel) hsees₁.exists_lt hc
  have hvisible : a ∈ w₂.scopes.chain scope := hunder.mem_chain (hsees₁.later hl₂).visible
  obtain ⟨outer, hsiblings⟩ := hapart.siblings
  have hstands {e : ScopeId} (he : e ∈ es) : w₂.scopes.Under e outer :=
    (hsiblings e he).later (hl.scopes.trans hl₂.scopes)
  exact ⟨⟨hunder.exists_lt, hvisible⟩,
    Scopes.not_both_of_siblings (hstands ha) (hstands hb) hne hvisible⟩

end Resumable
