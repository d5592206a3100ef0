import Resumable.Proofs.Lifecycle.Programs
import Resumable.Proofs.Lowering.Groups
import Resumable.Proofs.Lowering.Meaning

/-!
The head of a loop whose initializers suspend. Lowering takes the initializers out of the loop up to the
last one that suspends and leaves the bindings in the head, so no name is bound before the last
suspension. Main statements: `stageHead_lowers`, by induction on the declarators, `head_effects`, for heads
of any kind, and `head_means`, for `var` heads: the effects and the head that is left do what the two stages
of the head do, and this is the head declarator by declarator if no initializer stands before one that
suspends.
-/

set_option autoImplicit false

namespace Resumable

section Stages

variable {σ : Type} [HasWorld σ] (inAsync : Bool) (host : HostOn σ) (scope : ScopeId)

/-- A `var` head in two stages: the first evaluates the initializers up to the last suspension, the second
binds the names. -/
def stageHead : List Declarator → RunOn σ (RunOn σ Unit)
  | [] => return pure ()
  | .mk _ none :: ds => stageHead ds
  | .mk p (some e) :: ds => do
    let y ← e.stage inAsync host scope p.hint
    let y ← settleStage (ds.any (·.initHasSuspend inAsync)) y
    let rest ← stageHead ds
    return do
      p.bind host scope (some .var) (← y)
      rest

variable {inAsync host scope}

theorem stageHead_plain {ds : List Declarator} (h : ds.any (·.initHasSuspend inAsync) = false) :
    stageHead inAsync host scope ds = pure (declareAll host scope .var ds) := by
  induction ds with
  | nil => rfl
  | cons d ds ih =>
    obtain ⟨p, init⟩ := d
    rw [List.any_cons, Bool.or_eq_false_iff] at h
    obtain ⟨hinit, hds⟩ := h
    cases init with
    | none => simp [stageHead, declareAll, ih hds]
    | some e => simp [stageHead, declareAll, stage_plain hinit, settleStage, hds, ih hds]

end Stages

/-- Whether no initializer stands before one that suspends. -/
def headLeads (inAsync : Bool) : List Declarator → Bool
  | [] => true
  | .mk _ none :: ds => headLeads inAsync ds
  | .mk _ (some _) :: ds => !ds.any (·.initHasSuspend inAsync)

/-- Whether hoisting keeps what the initializers mean, each in its place. -/
def headIsOrderly (inAsync : Bool) : List Declarator → Bool
  | [] => true
  | .mk _ none :: ds => headIsOrderly inAsync ds
  | .mk p (some e) :: ds =>
    e.isOrderly inAsync && (p.hint.isNone || e.mayTakeName inAsync) &&
      (!ds.any (·.initHasSuspend inAsync) || e.mayWait inAsync) && headIsOrderly inAsync ds

/-- A head of which only the first initializer may suspend is evaluated declarator by declarator. -/
theorem stageHead_whole {σ : Type} [HasWorld σ] {inAsync : Bool} {host : HostOn σ} {scope : ScopeId}
    (hs : ∀ x, host.suspend .await x = x >>= (host.suspend .await <| pure ·)) {ds : List Declarator}
    (hleads : headLeads inAsync ds = true) (hlate : listLooksUpLate inAsync (initials ds) = false) :
    whole (stageHead inAsync host scope ds) = declareAll host scope .var ds := by
  induction ds with
  | nil => rfl
  | cons d ds ih =>
    obtain ⟨q, init⟩ := d
    cases init with
    | none => exact (ih hleads hlate).trans (by simp [declareAll])
    | some e =>
      have hds : ds.any (·.initHasSuspend inAsync) = false := by simpa [headLeads] using hleads
      rw [initials, listLooksUpLate, Bool.or_eq_false_iff] at hlate
      rw [stageHead, stageHead_plain hds, hds, declareAll, ← e.stage_whole hs q.hint hlate.1]
      simp [settleStage, whole]

section Lowering

variable {p : Private} {host : Host} {inAsync : Bool}

theorem Private.Blind.declareAll (hb : p.Blind host) {ds : List Declarator}
    (hn : ∀ x ∈ declaratorsUses ds, isSlotName x = false) (scope : ScopeId) (kind : VarKind) :
    p.Follows (declareAll (answering host) scope kind ds) (declareAll (answering host) scope kind ds) :=
  (declareAll_related_of_names hb.related scope kind ds hn fun _ => Private.Blind.suspends).follows

theorem Private.Blind.bind (hb : p.Blind host) {q : Pattern}
    (hn : ∀ x ∈ q.uses, isSlotName x = false) (scope : ScopeId) (kind : Option VarKind) (v : Value) :
    p.Follows (q.bind (answering host) scope kind v) (q.bind (answering host) scope kind v) :=
  (q.bind_related_of_names hb.related scope kind v hn fun _ => Private.Blind.suspends).follows

theorem withInitials_initials (ds : List Declarator) : withInitials ds (initials ds) = ds := by
  induction ds with
  | nil => rfl
  | cons d ds ih =>
    obtain ⟨q, init⟩ := d
    cases init <;> simp [withInitials, initials, ih]

/-- The effects do the first stage of a head, and the head that is left does the second one. -/
theorem stageHead_lowers (hb : p.Blind host) {ds : List Declarator} {before rest : List Expr}
    {n m : SlotNumber} (hh : Hoists inAsync n (.operands (initials ds) before rest) m)
    (hserved : (Hoisting.operands (initials ds) before rest).Served p)
    (hclean : ∀ x ∈ declaratorsUses ds, isSlotName x = false)
    (horderly : headIsOrderly inAsync ds = true) :
    p.Lowers host (stageHead inAsync (answering host) p.scope ds) before
      (declareAll (answering host) p.scope .var (withInitials ds rest)) := by
  induction ds generalizing before rest n with
  | nil =>
    cases hh
    exact .ofFollows (Private.Unseen.pure ()).follows
  | cons d ds ih =>
    obtain ⟨q, init⟩ := d
    cases init with
    | none => exact ih hh hserved (fun x hx => hclean x (List.mem_append_right _ hx)) horderly
    | some e =>
      simp only [headIsOrderly, Bool.and_eq_true, Bool.or_eq_true, Bool.not_eq_true',
        any_initHasSuspend] at horderly
      obtain ⟨⟨⟨he, hname⟩, hwait⟩, hds⟩ := horderly
      simp only [declaratorsUses, List.mem_append, or_imp, forall_and] at hclean
      obtain ⟨⟨hcleane, hcleanq⟩, hcleands⟩ := hclean
      have hbind (v : Value) := hb.bind hcleanq p.scope (some .var) v
      cases hh with
      | @operand _ k k' _ _ _ before rest h s hh hsettle hrest =>
        have hfirst := (hh.means hb (hserved.mono (listUses_head _ _)
          ((before_settle hsettle).trans (List.sublist_append_left _ _)))).1 he q.hint fun hq =>
            hname.resolve_left fun hnone => by simp_all
        cases hl : listHasSuspend inAsync (initials ds) with
        | true =>
          rw [hl] at hsettle hwait
          have hnames := hserved.names
          have hnodup := hserved.nodup
          simp only [Hoisting.before, listSlots_append, List.mem_append, List.nodup_append] at hnames hnodup
          obtain ⟨hsettles, -, huses⟩ := operand_settles (p := p) hh hsettle
            (by simpa using hwait) hcleane (fun x hx => hnames x (.inl hx)) hfirst
          have hlater := ih hrest (hserved.mono (listUses_tail _ _) (List.sublist_append_right _ _))
            hcleands hds
          have hboth := hsettles.bind_lowers q.hint huses
            (fun y hy hy' => hnodup.2.2 y hy y hy' rfl) fun v =>
              hlater.wrap (f := fun z => do q.bind (answering host) p.scope (some .var) v; z)
                (g := fun z => do q.bind (answering host) p.scope (some .var) v; z)
                fun _ _ _ _ hz => .bind (.ofFollows (hbind v)) fun _ => hz
          simpa [stageHead, settleStage, any_initHasSuspend, hl, whole, withInitials, declareAll]
            using hboth
        | false =>
          rw [hl] at hsettle
          obtain ⟨rfl, rfl⟩ := (run_settle_false ..).1 hsettle
          obtain ⟨rfl, rfl⟩ := hrest.operands_plain hl
          have hboth := hfirst.bind fun v => (hbind v).bind fun _ =>
            hb.declareAll hcleands p.scope .var
          rw [stageHead, stageHead_plain ((any_initHasSuspend inAsync ds).trans hl)]
          simpa [settleStage, any_initHasSuspend, hl, withInitials, withInitials_initials, declareAll]
            using hboth

end Lowering

/-- The effects alone come to the same end as the first stage alone. -/
theorem Private.Settles.agrees_first {α : Type} {p : Private} {host : Host} {x : RunOn Dialogue α}
    {before : List Expr} {Q : α → Dialogue → Prop} {s s' : Dialogue} (h : p.Settles host x before Q)
    (hs : p.Alike s s') :
    p.Agrees ((x >>= fun _ => pure ()) s) (evalAll (answering host) p.scope before s') := by
  have hx := h s s' hs
  unfold Private.SettlesAt at hx
  cases hr : evalAll (answering host) p.scope before s' with
  | done _ t' =>
    rw [hr] at hx
    obtain ⟨-, a, t, hxs, ht, -⟩ := hx
    rw [bind_eq_of_done hxs]
    exact .done ht
  | abrupt c t' =>
    rw [hr] at hx
    exact hx.abrupt_bind
  | exhausted =>
    rw [hr] at hx
    rw [bind_eq_of_exhausted hx]
    exact .exhausted

/-- Whether what stands before a suspension is read from a slot, or is a literal. -/
def areRead (inAsync : Bool) : List Expr → List Expr → Bool
  | _ :: es, r :: rest => (!listHasSuspend inAsync es || r.isInert) && areRead inAsync es rest
  | _, _ => true

theorem Hoists.rest_isRead {inAsync : Bool} {ds : List Declarator} {before rest : List Expr}
    {n m : SlotNumber} (hh : Hoists inAsync n (.operands (initials ds) before rest) m)
    (horderly : headIsOrderly inAsync ds = true) :
    areRead inAsync (initials ds) rest = true := by
  induction ds generalizing before rest n with
  | nil =>
    cases hh
    rfl
  | cons d ds ih =>
    obtain ⟨q, init⟩ := d
    cases init with
    | none => exact ih hh horderly
    | some e =>
      simp only [headIsOrderly, Bool.and_eq_true, Bool.or_eq_true, Bool.not_eq_true',
        any_initHasSuspend] at horderly
      obtain ⟨⟨-, hwait⟩, hds⟩ := horderly
      cases hh with
      | @operand _ k k' _ _ _ before rest h s hh hsettle hrest =>
        simp only [initials, areRead, Bool.and_eq_true, Bool.or_eq_true, Bool.not_eq_true']
        refine ⟨?_, ih hrest hds⟩
        cases hl : listHasSuspend inAsync (initials ds) with
        | false => exact .inl rfl
        | true =>
          rw [hl] at hsettle hwait
          have hlook := (mayWait_look hh (by simpa using hwait)).2
          exact .inr ((Hoists.operand_look hsettle fun _ => hlook).resolve_right (by simp))

/-- What lowering leaves of a loop head: the effects first, then the head itself. -/
def execHead {σ : Type} [HasWorld σ] (host : HostOn σ) (scope : ScopeId) (before : List Expr)
    (init : ForInit) : RunOn σ Unit := do
  evalAll host scope before
  init.exec host scope

section Result

variable {inAsync : Bool} {n m : SlotNumber} {ds : List Declarator} {before : List Expr}
  {init : ForInit} {p : Private}

theorem initials_uses (ds : List Declarator) : listUses (initials ds) ⊆ declaratorsUses ds := by
  induction ds with
  | nil => exact fun _ => id
  | cons d ds ih =>
    obtain ⟨q, init⟩ := d
    intro x hx
    cases init with
    | none => exact List.mem_append_right _ (ih hx)
    | some e =>
      simp only [initials, listUses, declaratorsUses, List.mem_append] at hx ⊢
      exact hx.imp .inl (ih ·)

theorem declareAll_discreet (host : Host) (p : Private) (scope : ScopeId) (kind : VarKind)
    (ds : List Declarator) (s : Dialogue) :
    declareAll (answering (host.discreet p)) scope kind ds s = .exhausted ∨
      declareAll (answering (host.discreet p)) scope kind ds s =
        declareAll (answering host) scope kind ds s :=
  declareAll_related (discreet_approximates host p) (fun _ => trivial) scope kind ds
    (fun _ _ _ _ h => approximates.bind h fun _ _ => .inr rfl) s

/-- What lowering makes of a head of any kind, of `let` and `const` too. The effects, which run in the scope
around the loop, do the first stage of the head there. The head that is left binds the same names, in the
scope of the loop: it does not suspend, and for what stands before a suspension it reads a slot or a
literal. -/
theorem head_effects {kind : VarKind} (host : Host)
    (hr : ((ForInit.declare kind ds).lower inAsync).run n = .ok ((before, init), m))
    (hclean : ∀ x ∈ declaratorsUses ds, isSlotName x = false)
    (hcount : (listSlots before).length ≤ 2 ^ 64) (horderly : headIsOrderly inAsync ds = true)
    (hnames : ∀ x ∈ listSlots before, x ∈ p.names) {w : World} (hw : p.Open w.scopes)
    (script : List Reply) :
    (∃ rest, init = .declare kind (withInitials ds rest) ∧ listHasSuspend inAsync rest = false ∧
      areRead inAsync (initials ds) rest = true) ∧
    let first := stageHead inAsync (answering (host.discreet p)) p.scope ds >>= fun _ => pure ()
    first (.start w script) ≠ .exhausted →
      p.Agrees (first (.start w script)) (evalAll (answering host) p.scope before (.start w script)) := by
  have hb : p.Blind (host.discreet p) := discreet_blind host p
  simp only [ForInit.lower, run_bind_ok, run_pure_ok, Prod.mk.injEq] at hr
  obtain ⟨⟨before', es⟩, k, hhead, ⟨rfl, rfl⟩, rfl⟩ := hr
  obtain ⟨rest, hh, rfl⟩ := lowerHead_hoists hhead
  have hserved := hh.served (fun x hx => hclean x (initials_uses ds hx)) hcount hnames
  have hstart : p.Alike (.start w script) (.start w script) := ⟨.refl hw, .nil, rfl, rfl⟩
  refine ⟨⟨rest, rfl, (listForms_eq_nil_iff inAsync rest).1 hh.sound.2.1, hh.rest_isRead horderly⟩, ?_⟩
  intro first hfirst
  have hagrees := Private.Settles.agrees_first (stageHead_lowers hb hh hserved hclean horderly) hstart
  obtain hnone | heq := evalAll_discreet host p p.scope before' (.start w script)
  · rw [hnone] at hagrees
    exact absurd hagrees.eq_exhausted hfirst
  · rwa [heq] at hagrees

/-- Lowering keeps what an orderly `var` head means, calls and suspensions included, but that no name is
bound before the last suspension: the head is evaluated in two stages. If no initializer stands before one
that suspends, this is the head declarator by declarator. The host gives up on a call for which the slots
make a difference. -/
theorem head_means (host : Host)
    (hr : ((ForInit.declare .var ds).lower inAsync).run n = .ok ((before, init), m))
    (hclean : ∀ x ∈ declaratorsUses ds, isSlotName x = false)
    (hcount : (listSlots before).length ≤ 2 ^ 64) (horderly : headIsOrderly inAsync ds = true)
    (hnames : ∀ x ∈ listSlots before, x ∈ p.names) {w : World} (hw : p.Open w.scopes)
    (script : List Reply) :
    let staged := whole (stageHead inAsync (answering (host.discreet p)) p.scope ds) (.start w script)
    staged ≠ .exhausted →
      p.Agrees staged (execHead (answering host) p.scope before init (.start w script)) ∧
      (headLeads inAsync ds = true → listLooksUpLate inAsync (initials ds) = false →
        staged = (ForInit.declare .var ds).exec (answering host) p.scope (.start w script)) := by
  intro staged hstaged
  have hb : p.Blind (host.discreet p) := discreet_blind host p
  simp only [ForInit.lower, run_bind_ok, run_pure_ok, Prod.mk.injEq] at hr
  obtain ⟨⟨before', es⟩, k, hhead, ⟨rfl, rfl⟩, rfl⟩ := hr
  obtain ⟨rest, hh, rfl⟩ := lowerHead_hoists hhead
  have hserved := hh.served (fun x hx => hclean x (initials_uses ds hx)) hcount hnames
  have hstart : p.Alike (.start w script) (.start w script) := ⟨.refl hw, .nil, rfl, rfl⟩
  have hagrees := (stageHead_lowers hb hh hserved hclean horderly).agrees hstart
  refine ⟨?_, fun hleads hlate => ?_⟩
  · obtain hnone | heq := approximates.bind (evalAll_discreet host p p.scope before')
      (fun _ => declareAll_discreet host p p.scope .var (withInitials ds rest)) (.start w script)
    · rw [hnone] at hagrees
      exact absurd hagrees.eq_exhausted hstaged
    · rwa [heq] at hagrees
  · have hwhole : staged = declareAll (answering (host.discreet p)) p.scope .var ds (.start w script) :=
      congrFun (stageHead_whole answering_await hleads hlate) _
    obtain hnone | heq := declareAll_discreet host p p.scope .var ds (.start w script)
    · exact absurd (hwhole.trans hnone) hstaged
    · exact hwhole.trans heq

end Result

/-- A name without an initializer may stand before the suspension: `var a, b = yield this`. -/
theorem head_means_bare :
    let ds := [Declarator.mk (.ident "a") none, .mk (.ident "b") (some (.yield (some .this)))]
    let before := [Expr.assign .set (.ident (slotName 0)) (.yield (some .this))]
    let init := ForInit.declare .var [.mk (.ident "a") none, .mk (.ident "b") (some (.ident (slotName 0)))]
    let w := { World.slotted 1 with
      scopes := (World.slotted 1).scopes.declare World.global "b" .var }
    let start := Dialogue.start w [⟨.next, .null⟩]
    ((ForInit.declare .var ds).lower false).run 0 = .ok ((before, init), 1) ∧
    (Private.first 1).Agrees
      ((ForInit.declare .var ds).exec (answering (Host.withFuel 8)) World.global start)
      (execHead (answering (Host.withFuel 8)) World.global before init start) := by
  intro ds before init w start
  have hr : ((ForInit.declare .var ds).lower false).run 0 = .ok ((before, init), 1) := rfl
  have hopen : (Private.first 1).Open w.scopes := {
    allocated := by decide +kernel
    chain := by decide +kernel
    bound := by decide +kernel }
  have hone : (whole (stageHead false (answering ((Host.withFuel 8).discreet (Private.first 1)))
      World.global ds) start).eventCount = some 1 := by
    rw [stageHead_whole answering_await rfl rfl]
    decide +kernel
  have hmeans := head_means (p := Private.first 1) (Host.withFuel 8) hr (by decide) (by decide)
    (by decide) (by decide) hopen [⟨.next, .null⟩] fun hnone => by
      cases (congrArg Outcome.eventCount hnone).symm.trans hone
  rw [hmeans.2 rfl rfl] at hmeans
  exact ⟨hr, hmeans.1⟩

def World.yielded? (w : World) (result : String) : Option Value :=
  (w.value? result).map (w.heap.property · "value")

/-- The first initializer is bound after the suspension in the second one, which yields `undefined`:
`function* g() { for (var a = null, b = yield a; false; ) ; }`. -/
theorem head_binds_late : ((Session.runProgram
      [.function "g" (.mk 0 .generator [] [.forLoop (.declare .var
          [.mk (.ident "a") (some .null), .mk (.ident "b") (some (.yield (some (.ident "a"))))])
          (some (.bool false)) none .empty]),
        .declare .var [.mk (.ident "result")
          (some (.call (.dot (.call (.ident "g") []) "next") []))]]
      .initial).world?.bind fun w => (w.yielded? "result").map Value.isUndefined) = some true := by
  decide +kernel

end Resumable
