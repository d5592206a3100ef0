import Resumable.Proofs.Machine.Bounds
import Resumable.Proofs.Machine.Finally
import Resumable.Proofs.Lifecycle.Programs
import Resumable.Proofs.Machine.Handover

/-!
What the loops of a plan do with the elements of a synchronous iterator that they run over asynchronously.
Main statement: `loops_await_elements`: an element that is like a promise is handed out to wait for, and
what the loop goes on with is what it settles to.
-/

set_option autoImplicit false

namespace Resumable

open RunOn (Gives)

/-- Whether a result of an iterator is an element and not the end. -/
structure Heap.IsElement (h : Heap) (result v : Value) : Prop where
  wellFormed : malformed? h result = none
  notDone : (h.property result "done").truthy = false
  value : h.property result "value" = v

def Cause.actor (t : Turn) : Cause → Instance
  | .instr _ => t.subject
  | .resume found _ => { found with awaiting := none }

/-- Whether a step has got an element from the iterator of its loop, and in which world it looks at that:
the iterator has answered at once, or its answer has been awaited. -/
inductive Offers (host : Host) (t : Turn) (w : World) : Cause → Value → World → Prop where
  | call {g : Instance} {record : IteratorRecord} {kind : Option VarKind} {pattern : Pattern}
    {body exit : Nat} {result v : Value} {w' : World} : t = .goOn g → g.iterator? = some record →
    record.callNext host [] w = .done result w' → w'.heap.IsElement result v →
    Offers host t w (.instr (.moveNext kind pattern body exit false)) v w'
  | awaited {found : Instance} {result v : Value} : found.awaiting = some .result →
    w.heap.IsElement result v → Offers host t w (.resume found (.settled (.fulfilled result))) v w

section Looking

variable {host : Host} {g : Instance} {result v : Value} {w w' : World} {t : Turn}

theorem iteratorResult_awaits (he : w.heap.IsElement result v) (ha : g.awaitsElements = true)
    (hv : w.heap.isPromiseLike v = true) :
    g.iteratorResult host result w = .done (.stop { g with awaiting := some .element } (.awaiting v)) w := by
  obtain ⟨hmal, hdone, rfl⟩ := he
  have hread : (Run.heap : Run Heap) w = .done w.heap w := rfl
  simp only [Instance.iteratorResult, bind, RunOn.bind, hread, hmal, hdone, ha, hv, Bool.and_self]
  rfl

theorem iteratorResult_binds (he : w.heap.IsElement result v)
    (hv : (g.awaitsElements && w.heap.isPromiseLike v) = false) :
    g.iteratorResult host result w = g.bindElement host v w := by
  obtain ⟨hmal, hdone, rfl⟩ := he
  have hread : (Run.heap : Run Heap) w = .done w.heap w := rfl
  simp only [Instance.iteratorResult, bind, RunOn.bind, hread, hmal, hdone, hv]
  rfl

theorem iteratorResult_cases (h : g.iteratorResult host result w = .done t w') :
    (∃ v, w.heap.IsElement result v ∧ g.awaitsElements = true ∧ w.heap.isPromiseLike v = true ∧
      t = .stop { g with awaiting := some .element } (.awaiting v)) ∨
    (∃ v, w.heap.IsElement result v ∧ (g.awaitsElements && w.heap.isPromiseLike v) = false ∧
      g.bindElement host v w = .done t w') ∨
    (∃ e, t = .stop g (.failed e)) ∨ ∃ ip, t = .goOn (g.goto ip) := by
  cases hmal : malformed? w.heap result with
  | some e =>
    refine .inr (.inr (.inl ⟨e, ?_⟩))
    have hread : (Run.heap : Run Heap) w = .done w.heap w := rfl
    simp only [Instance.iteratorResult, bind, RunOn.bind, hread, hmal] at h
    cases h
    rfl
  | none =>
    cases hdone : (w.heap.property result "done").truthy with
    | true =>
      refine .inr (.inr (.inr ?_))
      have hread : (Run.heap : Run Heap) w = .done w.heap w := rfl
      simp only [Instance.iteratorResult, bind, RunOn.bind, hread, hmal, hdone, if_true] at h
      cases hi : g.instr? with
      | none =>
        rw [hi] at h
        cases h
        exact ⟨g.ip, rfl⟩
      | some i =>
        rw [hi] at h
        cases i with
        | moveNext =>
          cases h
          exact ⟨_, rfl⟩
        | _ =>
          cases h
          exact ⟨g.ip, rfl⟩
    | false =>
      have he : w.heap.IsElement result (w.heap.property result "value") := ⟨hmal, hdone, rfl⟩
      cases hv : (g.awaitsElements && w.heap.isPromiseLike (w.heap.property result "value")) with
      | true =>
        obtain ⟨ha, hlike⟩ := Bool.and_eq_true_iff.1 hv
        cases (iteratorResult_awaits he ha hlike).symm.trans h
        exact .inl ⟨_, he, ha, hlike, rfl⟩
      | false => exact .inr (.inl ⟨_, he, hv, (iteratorResult_binds he hv).symm.trans h⟩)

end Looking

/-- Whether a turn that goes on awaits nothing, and one that can be resumed awaits no element of a loop. -/
def Turn.AwaitsElse : Turn → Prop
  | .goOn g => g.awaiting = none
  | .pause g p => p.isFinal = false → g.awaiting ≠ some .element

section Waiting

variable {host : Host} {g : Instance}

theorem awaitsElse_of_proceeds {plan : Plan} {d : Option Delegation} {a : Option AwaitKind}
    {x : Run Turn} (ha : a = none) (h : Gives (Turn.Proceeds plan d a) x) :
    Gives Turn.AwaitsElse x := by
  intro w t w' hx
  have ht := h w t w' hx
  cases t with
  | goOn g => exact ht.2.2.trans ha
  | pause g p =>
    intro hf
    cases (show p.isFinal = true from ht).symm.trans hf

theorem after_awaitsElse {α : Type} (ha : g.awaiting = none) (x : Run α) {next : α → Run Turn}
    (hn : ∀ a, Gives Turn.AwaitsElse (next a)) : Gives Turn.AwaitsElse (g.after host x next) := by
  refine .bind fun r => ?_
  cases r with
  | ok a => exact hn a
  | error c => exact awaitsElse_of_proceeds ha (complete_proceeds host c)

theorem delegateResult_awaitsElse (ha : g.awaiting = none) (result : Value) :
    Gives Turn.AwaitsElse (g.delegateResult host result) := by
  refine .bind fun h => ?_
  split
  · exact .pure fun _ => by simp
  · cases malformed? h result with
    | some e => exact .pure fun hf => by cases hf
    | none =>
      dsimp only
      split
      · exact awaitsElse_of_proceeds ha (delegateDone_proceeds host _)
      · exact .pure fun _ => by simp [ha]

theorem passOn_awaitsElse (ha : g.awaiting = none) (m : Method) (v : Value) :
    Gives Turn.AwaitsElse (g.passOn host m v) := by
  unfold Instance.passOn
  cases g.delegation with
  | none => exact awaitsElse_of_proceeds ha (storeResume_proceeds host v)
  | some d =>
    obtain ⟨record, received, native⟩ := d
    let waiting : Instance := { g with delegation := some ⟨record, m, native⟩ }
    cases native with
    | some inner => exact .pure fun _ => by simp [ha]
    | none =>
      refine .bind fun r => ?_
      rcases r with c | _ | result
      · exact awaitsElse_of_proceeds ha (complete_proceeds (g := waiting.endDelegation) host c)
      · exact awaitsElse_of_proceeds ha (delegateMissing_proceeds (g := waiting.endDelegation) host _ m v)
      · exact delegateResult_awaitsElse (g := waiting) ha result

theorem startDelegation_awaitsElse (ha : g.awaiting = none) (iterable : Value) :
    Gives Turn.AwaitsElse (g.startDelegation host iterable) :=
  .bind fun _ => after_awaitsElse ha _ fun record => .bind fun h =>
    let native := if g.isAsync then none else h.nativeGenerator? record.iterator
    passOn_awaitsElse (g := { g with delegation := some ⟨record, .next, native⟩ }) ha _ _

theorem dispatch_awaitsElse (ha : g.awaiting = none) {i : Instr}
    (hm : ∀ kind pattern body exit isAsync, i ≠ .moveNext kind pattern body exit isAsync) :
    Gives Turn.AwaitsElse (g.dispatch host i) := by
  cases i with
  | yield | await =>
    exact after_awaitsElse ha _ fun v => .pure fun _ => by simp [Instance.goto, ha]
  | yieldStar => exact after_awaitsElse ha _ fun v => startDelegation_awaitsElse ha v
  | moveNext => exact absurd rfl (hm _ _ _ _ _)
  | _ => exact awaitsElse_of_proceeds ha (dispatch_proceeds host rfl (by simp))

theorem iteratorResult_awaitsElse (ha : g.awaiting = none) {result : Value} {w w' : World} {t : Turn}
    (h : g.iteratorResult host result w = .done t w') : t.AwaitsElse ∨
      ∃ v, w.heap.IsElement result v ∧ g.awaitsElements = true ∧ w.heap.isPromiseLike v = true ∧
        t = .stop { g with awaiting := some .element } (.awaiting v) := by
  obtain hstop | ⟨v, -, -, hbind⟩ | ⟨e, rfl⟩ | ⟨ip, rfl⟩ := iteratorResult_cases h
  · exact .inr hstop
  · exact .inl (awaitsElse_of_proceeds ha (bindElement_proceeds host v) w t w' hbind)
  · exact .inl fun hf => by cases hf
  · exact .inl ha

end Waiting

theorem moveNext_cases {host : Host} {g : Instance} {isAsync : Bool} {w w' : World} {t : Turn}
    (h : g.moveNext host isAsync w = .done t w') :
    (g.iterator? = none ∧ ∃ e w₁, g.unwind host (.throw e) w₁ = .done t w') ∨
    (∃ c w₁, g.popFrame.complete host c w₁ = .done t w') ∨
    ∃ record result w₁, g.iterator? = some record ∧ record.callNext host [] w = .done result w₁ ∧
      ((isAsync = true ∧ t = .stop { g with awaiting := some .result } (.awaiting result)) ∨
        (isAsync = false ∧ g.iteratorResult host result w₁ = .done t w')) := by
  unfold Instance.moveNext at h
  cases hr : g.iterator? with
  | none =>
    rw [hr] at h
    exact .inl ⟨rfl, _, _, h⟩
  | some record =>
    simp only [hr, bind, RunOn.bind, RunOn.attempt] at h
    cases hcall : record.callNext host [] w with
    | exhausted =>
      rw [hcall] at h
      cases h
    | abrupt c w₁ =>
      rw [hcall] at h
      exact .inr (.inl ⟨c, w₁, h⟩)
    | done result w₁ =>
      rw [hcall] at h
      refine .inr (.inr ⟨record, result, w₁, rfl, hcall, ?_⟩)
      cases isAsync with
      | true =>
        cases h
        exact .inl ⟨rfl, rfl⟩
      | false => exact .inr ⟨rfl, h⟩

section Steps

variable {host : Host} {t t' : Turn} {c : Cause} {w : World}

/-- Whether a step stops for an element that it has got, as that is like a promise. -/
def StopsFor (host : Host) (t : Turn) (c : Cause) (w : World) (t' : Turn) (v : Value) : Prop :=
  ∃ w₁, Offers host t w c v w₁ ∧ (c.actor t).awaitsElements = true ∧ w₁.heap.isPromiseLike v = true ∧
    t' = .stop { c.actor t with awaiting := some .element } (.awaiting v)

theorem settled_awaits {found : Instance} {s : Settlement} {w' : World}
    (h : found.resumed host (.settled s) w = .done t' w') : t'.AwaitsElse ∨
      ∃ v, StopsFor host t (.resume found (.settled s)) w t' v := by
  let g : Instance := { found with awaiting := none }
  have hproceeds {plan : Plan} {d : Option Delegation} {x : Run Turn}
      (hx : Gives (Turn.Proceeds plan d none) x) (h : x w = .done t' w') : t'.AwaitsElse :=
    awaitsElse_of_proceeds rfl hx w t' w' h
  change g.settled host found.awaiting s w = .done t' w' at h
  cases s with
  | fulfilled v =>
    cases hk : found.awaiting with
    | none =>
      rw [hk] at h
      exact .inl (hproceeds (storeResume_proceeds (g := g) host v) h)
    | some kind =>
      rw [hk] at h
      cases kind with
      | value => exact .inl (hproceeds (storeResume_proceeds (g := g) host v) h)
      | element => exact .inl (hproceeds (bindElement_proceeds (g := g) host v) h)
      | delegate => exact .inl (delegateResult_awaitsElse (g := g) rfl v w t' w' h)
      | result =>
        refine (iteratorResult_awaitsElse (g := g) rfl h).imp_right ?_
        rintro ⟨v', he, ha, hlike, ht⟩
        exact ⟨v', w, .awaited hk he, ha, hlike, ht⟩
  | rejected v =>
    refine .inl ?_
    cases hk : found.awaiting with
    | none =>
      rw [hk] at h
      exact hproceeds (unwind_proceeds (g := g) host _) h
    | some kind =>
      rw [hk] at h
      cases kind with
      | value | element => exact hproceeds (unwind_proceeds (g := g) host _) h
      | result => exact hproceeds (unwind_proceeds (g := g.popFrame) host _) h
      | delegate => exact passOn_awaitsElse (g := g) rfl _ v w t' w' h

/-- An instance awaits an element only after it has stopped for one. -/
theorem Next.awaits (h : Next host t c w t') (ht : ∀ g, t = .goOn g → g.awaiting = none) :
    t'.AwaitsElse ∨ ∃ v, StopsFor host t c w t' v := by
  cases h with
  | @dispatch g i _ _ w' hi hd =>
    have ha := ht g rfl
    by_cases hm : ∃ kind pattern body exit isAsync, i = .moveNext kind pattern body exit isAsync
    · obtain ⟨kind, pattern, body, exit, isAsync, rfl⟩ := hm
      obtain ⟨-, e, w₁, hu⟩ | ⟨c, w₁, hu⟩ | ⟨record, result, w₁, hr, hcall, ⟨-, rfl⟩ | ⟨rfl, hres⟩⟩ :=
        moveNext_cases (show g.moveNext host isAsync w = .done t' w' from hd)
      · exact .inl (awaitsElse_of_proceeds ha (unwind_proceeds host _) _ _ _ hu)
      · exact .inl (awaitsElse_of_proceeds ha (complete_proceeds (g := g.popFrame) host c) _ _ _ hu)
      · exact .inl fun _ => by simp
      · refine (iteratorResult_awaitsElse ha hres).imp_right ?_
        rintro ⟨v, he, hawaits, hlike, ht'⟩
        exact ⟨v, w₁, .call rfl hr hcall he, hawaits, hlike, ht'⟩
    · exact .inl (dispatch_awaitsElse ha
        (fun kind pattern body exit isAsync h => hm ⟨kind, pattern, body, exit, isAsync, h⟩) w t' w' hd)
  | @resume g g' p a _ _ w' hf hb hr =>
    let free : Instance := { g' with awaiting := none }
    cases a with
    | settled s => exact settled_awaits hr
    | delegateDone v =>
      exact .inl (awaitsElse_of_proceeds rfl (delegateDone_proceeds (g := free) host v) _ _ _ hr)
    | delegateThrew v =>
      exact .inl (awaitsElse_of_proceeds rfl (unwind_proceeds (g := free.endDelegation) host _) _ _ _ hr)
    | next v => exact .inl (passOn_awaitsElse (g := free) rfl .next v _ _ _ hr)
    | throw v | ret v =>
      unfold Instance.resumed at hr
      dsimp only at hr
      split at hr
      · exact .inl (passOn_awaitsElse (g := free) rfl _ v _ _ _ hr)
      · exact .inl (awaitsElse_of_proceeds rfl (unwind_proceeds (g := free) host _) _ _ _ hr)

theorem Next.looks (h : Next host t c w t') {v : Value} {w₁ : World} (ho : Offers host t w c v w₁) :
    ∃ result w', w₁.heap.IsElement result v ∧
      (c.actor t).iteratorResult host result w₁ = .done t' w' := by
  cases ho with
  | @call g record kind pattern body exit result _ _ hg hr hcall he =>
    subst hg
    cases h with
    | dispatch hi hd =>
      have hd : g.moveNext host false w = .done t' _ := hd
      simp only [Instance.moveNext, hr, bind, RunOn.bind, RunOn.attempt, hcall] at hd
      exact ⟨result, _, he, hd⟩
  | @awaited found result _ ha he =>
    cases h with
    | resume _ _ hr =>
      simp only [Instance.resumed, Instance.settled, ha] at hr
      exact ⟨result, _, he, hr⟩

theorem Next.resumes (h : Next host t c w t') {found : Instance} {a : Action}
    (hc : c = .resume found a) : ∃ w', found.resumed host a w = .done t' w' := by
  subst hc
  cases h with
  | resume _ _ hr => exact ⟨_, hr⟩

theorem Next.dispatches (h : Next host t c w t') {i : Instr} (hc : c = .instr i) :
    ∃ g w', t = .goOn g ∧ g.instr? = some i ∧ g.dispatch host i w = .done t' w' := by
  subst hc
  cases h with
  | dispatch hi hd => exact ⟨_, _, rfl, hi, hd⟩

end Steps

def Holding.shallow (plan : Plan) (n : Nat) : Holding where
  plan := plan
  around p := p.scopes.length ≤ n
  stands p := p.scopes.length ≤ n
  frame _ := True
  jump _ := True
  leaps := True
  around_of_stands := id
  cut hp _ := Nat.le_trans (List.drop_sublist _ _).length_le hp
  enter hp _ _ := Nat.le_trans (List.drop_sublist _ _).length_le hp
  land hp _ := Nat.le_trans (List.drop_sublist _ _).length_le hp
  phase _ _ := trivial
  handler _ := trivial
  leap _ _ _ := trivial

section Entering

variable {host : Host} {g g' : Instance} {w w' : World}

theorem shallow_holds (g : Instance) : g.Holds (.shallow g.plan g.scopes.length) :=
  ⟨rfl, Nat.le_refl _, fun _ _ => trivial⟩

theorem shallow_onward (g : Instance) : g.Onward (.shallow g.plan g.scopes.length) :=
  ⟨fun _ _ _ => Nat.le_refl _, fun _ _ _ _ _ _ _ _ => ⟨Nat.le_refl _, Nat.le_refl _⟩⟩

theorem not_deeper {plan : Plan} {x : Run Turn}
    (hx : Gives (Turn.Keeps (.shallow plan g.scopes.length)) x) (h : x w = .done (.goOn g') w') :
    ¬ g.scopes.length < g'.scopes.length :=
  Nat.not_lt.2 ((hx w _ w' h).stands trivial)

theorem iteratorResult_deeper {result : Value} (h : g.iteratorResult host result w = .done (.goOn g') w')
    (hd : g.scopes.length < g'.scopes.length) : ∃ v, w.heap.IsElement result v ∧
      (g.awaitsElements && w.heap.isPromiseLike v) = false ∧
      g.bindElement host v w = .done (.goOn g') w' := by
  obtain ⟨v, -, -, -, ht⟩ | hbind | ⟨e, ht⟩ | ⟨ip, ht⟩ := iteratorResult_cases h
  · cases ht
  · exact hbind
  · cases ht
  · cases ht
    exact absurd hd (Nat.lt_irrefl _)

/-- A resumption opens a scope only for an element that has been awaited, or whose result has. -/
theorem resumed_deeper {found : Instance} {a : Action}
    (h : found.resumed host a w = .done (.goOn g') w') (hd : found.scopes.length < g'.scopes.length) :
    (∃ result, a = .settled (.fulfilled result) ∧ found.awaiting = some .result ∧
      Instance.iteratorResult host { found with awaiting := none } result w = .done (.goOn g') w') ∨
    ∃ v, a = .settled (.fulfilled v) ∧ found.awaiting = some .element ∧
      Instance.bindElement host { found with awaiting := none } v w = .done (.goOn g') w' := by
  let g : Instance := { found with awaiting := none }
  have hg : g.Holds (.shallow g.plan g.scopes.length) := shallow_holds g
  have ho := shallow_onward g
  have hdone : g.endDelegation.Holds (.shallow g.plan g.scopes.length) := shallow_holds g.endDelegation
  have hnot {x : Run Turn} (hx : Gives (Turn.Keeps (.shallow g.plan g.scopes.length)) x)
      (h : x w = .done (.goOn g') w') : False := not_deeper (g := g) hx h hd
  have hpass (m : Method) (v : Value) : Gives (Turn.Keeps (.shallow g.plan g.scopes.length))
      (g.passOn host m v) := passOn_holds hg (.inl trivial) ho m v
  have hunwind (v : Value) : Gives (Turn.Keeps (.shallow g.plan g.scopes.length))
      (g.unwind host (.throw v)) := unwind_holds hg.bears (by simp)
  cases a with
  | settled s =>
    change g.settled host found.awaiting s w = .done (.goOn g') w' at h
    cases s with
    | fulfilled v =>
      cases hk : found.awaiting with
      | none =>
        rw [hk] at h
        exact (hnot (storeResume_holds hg ho v) h).elim
      | some kind =>
        rw [hk] at h
        cases kind with
        | value => exact (hnot (storeResume_holds hg ho v) h).elim
        | delegate => exact (hnot (delegateResult_holds hg ho v) h).elim
        | result => exact .inl ⟨v, rfl, rfl, h⟩
        | element => exact .inr ⟨v, rfl, rfl, h⟩
    | rejected v =>
      cases hk : found.awaiting with
      | none =>
        rw [hk] at h
        exact (hnot (hunwind v) h).elim
      | some kind =>
        rw [hk] at h
        cases kind with
        | value | element => exact (hnot (hunwind v) h).elim
        | delegate => exact (hnot (hpass .throw v) h).elim
        | result => exact (hnot (unwind_holds hg.bears.popFrame (by simp)) h).elim
  | delegateDone v => exact (hnot (delegateDone_holds hg ho v) h).elim
  | delegateThrew v => exact (hnot (unwind_holds hdone.bears (by simp)) h).elim
  | next v => exact (hnot (hpass .next v) h).elim
  | throw v | ret v =>
    unfold Instance.resumed at h
    dsimp only at h
    split at h
    · exact (hnot (hpass _ v) h).elim
    · exact (hnot (unwind_holds hg.bears (by simp)) h).elim

end Entering

/-- What becomes of the elements of a loop that awaits them, in all steps of a run. -/
structure Course.AwaitsElements {host : Host} {first : Instance} (r : Course host first) : Prop where
  /-- An element that is like a promise is handed out to wait for. -/
  awaits : ∀ k < r.length, ∀ v w, Offers host (r.turn k) (r.world k) (r.cause k) v w →
    ((r.cause k).actor (r.turn k)).awaitsElements = true → w.heap.isPromiseLike v = true →
    r.turn (k + 1) =
      .stop { (r.cause k).actor (r.turn k) with awaiting := some .element } (.awaiting v)
  /-- Any other goes to the pattern of the loop. -/
  binds : ∀ k < r.length, ∀ v w, Offers host (r.turn k) (r.world k) (r.cause k) v w →
    w.heap.isPromiseLike v = false →
    ∃ w', ((r.cause k).actor (r.turn k)).bindElement host v w = .done (r.turn (k + 1)) w'
  /-- So does what an awaited one settles to. -/
  fulfilled : ∀ k < r.length, ∀ found v, r.cause k = .resume found (.settled (.fulfilled v)) →
    found.awaiting = some .element → ∃ w', Instance.bindElement host { found with awaiting := none } v
      (r.world k) = .done (r.turn (k + 1)) w'
  /-- Its rejection is thrown in the loop. -/
  rejected : ∀ k < r.length, ∀ found v, r.cause k = .resume found (.settled (.rejected v)) →
    found.awaiting = some .element → ∃ w', Instance.unwind host { found with awaiting := none } (.throw v)
      (r.world k) = .done (r.turn (k + 1)) w'
  /-- Nothing else does: a loop that goes on in a new scope has bound an element that is not like a
  promise, or the value of one that it has stopped for in the step before. -/
  nothingElse : ∀ k < r.length, ∀ kind pattern body exit isAsync g,
    ((r.cause k).actor (r.turn k)).instr? = some (.moveNext kind pattern body exit isAsync) →
    ((r.cause k).actor (r.turn k)).awaitsElements = true → r.turn (k + 1) = .goOn g →
    ((r.cause k).actor (r.turn k)).scopes.length < g.scopes.length → ∃ v w w',
      ((r.cause k).actor (r.turn k)).bindElement host v w = .done (.goOn g) w' ∧
      ((Offers host (r.turn k) (r.world k) (r.cause k) v w ∧ w.heap.isPromiseLike v = false) ∨
        ∃ found j p, r.cause k = .resume found (.settled (.fulfilled v)) ∧ k = j + 1 ∧
          StopsFor host (r.turn j) (r.cause j) (r.world j) (r.turn k) p)

namespace Course

variable {host : Host} {plan : Plan} {base : ScopeId} {isAsync : Bool}

theorem awaiting_of_goOn (r : Course host (.running plan base isAsync)) {k : Nat} (hk : k ≤ r.length)
    {g : Instance} (hg : r.turn k = .goOn g) : g.awaiting = none := by
  induction k generalizing g with
  | zero =>
    obtain ⟨a, ha⟩ := r.starts
    rw [ha] at hg
    cases a <;> cases hg <;> rfl
  | succ k ih =>
    obtain helse | ⟨v, w₁, -, -, -, ht⟩ := (r.steps k hk).awaits fun g hg => ih (by omega) hg
    · rwa [hg] at helse
    · cases hg.symm.trans ht

theorem stopsFor_of_awaiting (r : Course host (.running plan base isAsync)) {k : Nat} (hk : k < r.length)
    {found : Instance} {a : Action} (hc : r.cause k = .resume found a)
    (ha : found.awaiting = some .element) :
    ∃ j p, k = j + 1 ∧ StopsFor host (r.turn j) (r.cause j) (r.world j) (r.turn k) p := by
  obtain ⟨g, p, hg, hf, hb⟩ : ∃ g p, r.turn k = .pause g p ∧ p.isFinal = false ∧ g.MayBecome found := by
    have hstep := r.steps k hk
    rw [hc] at hstep
    generalize r.turn k = t at hstep
    cases hstep with
    | resume hf hb _ => exact ⟨_, _, rfl, hf, hb⟩
  have hg' : g.awaiting = some .element := by
    obtain h | h := hb.awaiting_eq
    · exact h ▸ ha
    · cases h.symm.trans ha
  cases k with
  | zero =>
    obtain ⟨b, hb⟩ := r.starts
    rw [hb] at hg
    cases b <;> cases hg <;> cases hg'
  | succ j =>
    obtain helse | ⟨v, hv⟩ := (r.steps j (by omega)).awaits fun g hg =>
      r.awaiting_of_goOn (by omega) hg
    · rw [hg] at helse
      exact absurd hg' (helse hf)
    · exact ⟨j, v, rfl, hv⟩

end Course

/-- The value in the result that a promise is fulfilled with. -/
def World.fulfilledElement? (w : World) (promise : String) : Option Value :=
  match (w.value? promise).bind w.heap.promise? with
  | some (.settled (.fulfilled result)) => some (w.heap.property result "value")
  | _ => none

/-- A loop that runs asynchronously over a synchronous iterator stops for the elements that are like
promises, and goes on with what they settle to: whatever plan is run, no such element is bound. -/
theorem loops_await_elements {plan : Plan} {base : ScopeId} {isAsync : Bool} (host : Host)
    (r : Course host (.running plan base isAsync)) : r.AwaitsElements where
  awaits k hk v w ho ha hv := by
    obtain ⟨result, w', he, hres⟩ := (r.steps k hk).looks ho
    exact (Outcome.done.inj ((iteratorResult_awaits he ha hv).symm.trans hres)).1.symm
  binds k hk v w ho hv := by
    obtain ⟨result, w', he, hres⟩ := (r.steps k hk).looks ho
    exact ⟨w', (iteratorResult_binds he (by rw [hv, Bool.and_false])).symm.trans hres⟩
  fulfilled k hk found v hc ha := by
    obtain ⟨w', hr⟩ := (r.steps k hk).resumes hc
    simp only [Instance.resumed, Instance.settled, ha] at hr
    exact ⟨w', hr⟩
  rejected k hk found v hc ha := by
    obtain ⟨w', hr⟩ := (r.steps k hk).resumes hc
    simp only [Instance.resumed, Instance.settled, ha] at hr
    exact ⟨w', hr⟩
  nothingElse k hk kind pattern body exit async g hi ha hg hdeep := by
    have hstep := r.steps k hk
    rw [hg] at hstep
    cases hc : r.cause k with
    | instr i =>
      obtain ⟨g₀, w', hg₀, hi₀, hd⟩ := hstep.dispatches hc
      rw [hc, hg₀] at hi ha hdeep
      rw [hg₀]
      cases hi₀.symm.trans hi
      have hholds := shallow_holds g₀
      obtain ⟨-, e, w₁, hu⟩ | ⟨c, w₁, hu⟩ | ⟨record, result, w₁, hr, hcall, ⟨-, ht⟩ | ⟨rfl, hres⟩⟩ :=
        moveNext_cases (show g₀.moveNext host async _ = .done (.goOn g) w' from hd)
      · exact absurd hdeep (not_deeper (unwind_holds hholds.bears (by simp)) hu)
      · exact absurd hdeep (not_deeper (complete_holds hholds.bears.popFrame (.inl trivial)) hu)
      · cases ht
      · obtain ⟨v, he, hv, hbind⟩ := iteratorResult_deeper hres hdeep
        have ha : g₀.awaitsElements = true := ha
        rw [ha, Bool.true_and] at hv
        exact ⟨v, w₁, w', hbind, .inl ⟨.call rfl hr hcall he, hv⟩⟩
    | resume found a =>
      rw [hc] at ha hdeep
      obtain ⟨w', hr⟩ := hstep.resumes hc
      obtain ⟨result, rfl, haw, hres⟩ | ⟨v, rfl, haw, hbind⟩ := resumed_deeper hr hdeep
      · obtain ⟨v, he, hv, hbind⟩ := iteratorResult_deeper hres hdeep
        have ha : Instance.awaitsElements { found with awaiting := none } = true := ha
        rw [ha, Bool.true_and] at hv
        exact ⟨v, _, w', hbind, .inl ⟨.awaited haw he, hv⟩⟩
      · obtain ⟨j, p, hj, hp⟩ := r.stopsFor_of_awaiting hk hc haw
        exact ⟨v, _, w', hbind, .inr ⟨found, j, p, rfl, hj, hp⟩⟩

/-- The loop `for await (x of [Promise.resolve(null)]) yield x` yields null. -/
example : ((Session.runProgram
      [.function "g" (.mk 0 .asyncGenerator [] [.forOf (.declare .let (.ident "x")) (.array
          [some (.call (.dot (.ident "Promise") "resolve") [.null])])
          (.expr (.yield (some (.ident "x")))) true]),
        .declare .var [.mk (.ident "p") (some (.call (.dot (.call (.ident "g") []) "next") []))]]
      .initial).world?.bind fun w => (w.fulfilledElement? "p").map Value.isNullish) = some true := by
  decide +kernel

/-- A `yield*` hands such an element on as it is: `async function* g() { yield* [Promise.resolve(null)] }`. -/
theorem delegation_yields_promise : ((Session.runProgram
      [.function "g" (.mk 0 .asyncGenerator [] [.expr (.yieldStar (some (.array
          [some (.call (.dot (.ident "Promise") "resolve") [.null])])))]),
        .declare .var [.mk (.ident "p") (some (.call (.dot (.call (.ident "g") []) "next") []))]]
      .initial).world?.bind fun w => (w.fulfilledElement? "p").map w.heap.isPromise) = some true := by
  decide +kernel

end Resumable
