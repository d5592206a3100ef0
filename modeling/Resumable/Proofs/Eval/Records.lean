import Resumable.Eval.Closure

/-!
Records of the plans that have been built. They are only added to, and no definition gets a second plan.
-/

set_option autoImplicit false

namespace Resumable

def PlanRecord.built? (b : PlanRecord) : Option Nat :=
  match b.result with
  | .ok _ => b.site
  | .error _ => none

theorem PlanRecord.site_of_built {b : PlanRecord} {site : Nat} (h : b.built? = some site) :
    b.site = some site := by
  unfold PlanRecord.built? at h
  split at h
  · exact h
  · cases h

/-- The definitions that have got a plan, one entry for each plan. -/
def builtSites (bs : List PlanRecord) : List Nat := bs.filterMap PlanRecord.built?

theorem builtSites_concat (bs : List PlanRecord) (b : PlanRecord) :
    builtSites (bs ++ [b]) = builtSites bs ++ b.built?.toList := by
  cases h : b.built? <;> simp [builtSites, h]

/-- Whether records have been added to others, no second plan of a definition among them. -/
structure RecordsGrow (bs bs' : List PlanRecord) : Prop where
  kept : bs <+: bs'
  apart : (builtSites bs).Nodup → (builtSites bs').Nodup

namespace RecordsGrow

variable {bs bs₁ bs₂ : List PlanRecord}

theorem refl (bs : List PlanRecord) : RecordsGrow bs bs := ⟨List.prefix_rfl, id⟩

theorem trans (h : RecordsGrow bs bs₁) (h' : RecordsGrow bs₁ bs₂) : RecordsGrow bs bs₂ :=
  ⟨h.kept.trans h'.kept, fun hn => h'.apart (h.apart hn)⟩

end RecordsGrow

section Lookup

variable {w : World} {site : Nat}

theorem planAt?_eq_none : w.planAt? site = none ↔ site ∉ builtSites w.builds := by
  simp only [World.planAt?, List.findSome?_eq_none_iff, builtSites, List.mem_filterMap, not_exists,
    not_and]
  refine forall₂_congr fun b _ => ?_
  obtain ⟨s, name, kind, result⟩ := b
  cases result with
  | ok r => simp [PlanRecord.built?]
  | error r => simp [PlanRecord.built?]

theorem planAt?_of_kept {w' : World} {plan : Plan} (h : w.builds <+: w'.builds)
    (hp : w.planAt? site = some plan) : w'.planAt? site = some plan := by
  obtain ⟨more, hmore⟩ := h
  simp only [World.planAt?] at hp ⊢
  rw [← hmore, List.findSome?_append, hp]
  rfl

end Lookup

section Building

variable (site : Option Nat) (name : String) (kind : FunctionKind) (params : List Pattern)
  (body : List Stmt)

theorem planFor_of_built {w : World} {definition : Nat} {plan : Plan}
    (h : w.planAt? definition = some plan) :
    planFor (some definition) name kind params body w = (.ok plan, w) := by
  simp only [planFor, bind, StateT.bind, getThe, MonadStateOf.get, get, StateT.get, pure,
    Option.bind_some, h]
  rfl

/-- The record of an attempt. -/
def attemptOf : PlanRecord :=
  ⟨site, name, kind, (buildPlan kind.isAsync params body).map fun plan =>
    (plan, Census.ofBody kind.isAsync body)⟩

theorem planFor_of_unbuilt {w : World} (h : site.bind w.planAt? = none) :
    planFor site name kind params body w = (buildPlan kind.isAsync params body,
      { w with builds := w.builds ++ [attemptOf site name kind params body] }) := by
  simp only [planFor, bind, StateT.bind, getThe, MonadStateOf.get, get, StateT.get, pure, h]
  rfl

theorem planFor_records (w : World) :
    RecordsGrow w.builds (planFor site name kind params body w).2.builds := by
  cases h : site.bind w.planAt? with
  | some plan =>
    obtain ⟨definition, rfl, hplan⟩ := Option.bind_eq_some_iff.1 h
    rw [planFor_of_built name kind params body hplan]
    exact .refl _
  | none =>
    rw [planFor_of_unbuilt site name kind params body h]
    refine ⟨List.prefix_append .., fun hn => ?_⟩
    rw [builtSites_concat]
    cases hb : (attemptOf site name kind params body).built? with
    | none => rwa [Option.toList_none, List.append_nil]
    | some definition =>
      have hsite : site = some definition := PlanRecord.site_of_built hb
      have hnew : definition ∉ builtSites w.builds :=
        planAt?_eq_none.1 (by rwa [hsite, Option.bind_some] at h)
      exact List.nodup_append.2 ⟨hn, by simp, fun a ha b hb heq => by
        cases List.mem_singleton.1 hb
        exact hnew (heq ▸ ha)⟩

end Building

/-- Whether a record is that of an asynchronous arrow function that gives an expression. -/
def PlanRecord.IsLambda (b : PlanRecord) : Prop :=
  ∃ name params e, b = attemptOf none name .async params [.ret (some e)]

/-- Whether a function has a definition, or is an arrow function that gives an expression. -/
def HasSite (site : Option Nat) (kind : FunctionKind) (body : List Stmt) : Prop :=
  site = none → kind ≠ .plain → kind = .async ∧ ∃ e, body = [.ret (some e)]

theorem hasSite_some {definition : Nat} {kind : FunctionKind} {body : List Stmt} :
    HasSite (some definition) kind body := fun h => (Option.some_ne_none _ h).elim

theorem hasSite_lambda {site : Option Nat} {isAsync : Bool} {e : Expr} :
    HasSite site (.ofFlags isAsync false) [.ret (some e)] := by
  intro _ hkind
  cases isAsync with
  | true => exact ⟨rfl, e, rfl⟩
  | false => exact absurd rfl hkind

/-- Whether nothing has been added but records of definitions and of such functions. -/
structure RecordsAdd (bs bs' : List PlanRecord) : Prop extends RecordsGrow bs bs' where
  lambda : ∀ b ∈ bs', b.site = none → b ∈ bs ∨ b.IsLambda

namespace RecordsAdd

variable {bs bs₁ bs₂ : List PlanRecord}

theorem refl (bs : List PlanRecord) : RecordsAdd bs bs := ⟨.refl bs, fun _ hb _ => .inl hb⟩

theorem trans (h : RecordsAdd bs bs₁) (h' : RecordsAdd bs₁ bs₂) : RecordsAdd bs bs₂ := by
  refine ⟨h.toRecordsGrow.trans h'.toRecordsGrow, fun b hb hsite => ?_⟩
  obtain hb | hb := h'.lambda b hb hsite
  · exact h.lambda b hb hsite
  · exact .inr hb

end RecordsAdd

theorem planFor_adds {site : Option Nat} {kind : FunctionKind} {body : List Stmt} (name : String)
    (params : List Pattern) (hsite : HasSite site kind body) (hkind : kind ≠ .plain) (w : World) :
    RecordsAdd w.builds (planFor site name kind params body w).2.builds := by
  refine ⟨planFor_records site name kind params body w, fun b hb hnone => ?_⟩
  cases h : site.bind w.planAt? with
  | some plan =>
    obtain ⟨definition, rfl, hplan⟩ := Option.bind_eq_some_iff.1 h
    rw [planFor_of_built name kind params body hplan] at hb
    exact .inl hb
  | none =>
    rw [planFor_of_unbuilt site name kind params body h] at hb
    obtain hb | hb := List.mem_append.1 hb
    · exact .inl hb
    · obtain rfl := List.mem_singleton.1 hb
      obtain rfl : site = none := hnone
      obtain ⟨rfl, e, rfl⟩ := hsite rfl hkind
      exact .inr ⟨name, params, e, rfl⟩

end Resumable
