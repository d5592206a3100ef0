import Resumable.Proofs.Lowering.Assignments
import Resumable.Proofs.Refinement.Discretion
import Resumable.Realm

/-!
Lowering keeps what expressions mean. The effects and what is left of an expression take part in the same
dialogue as its two stages: the same calls and suspensions in the same order, each in the same world but
for the slots, and the same end. Main statements: `Hoists.means`, by induction on what hoisting does, and
`hoist_means`. A method whose arguments suspend is looked up late: `hoist_looks_up_late`.
-/

set_option autoImplicit false

namespace Resumable

section Suspending

variable {p : Private} {host : Host} {inAsync : Bool} {n m : SlotNumber} {wrap : Expr → Expr}
  {e d : Expr} {h : Hoisted}

theorem SuspendsBare.answers (he : SuspendsBare e) (p : Private) (host : Host) (inAsync : Bool) :
    ∃ kind,
    (∀ hint, e.eval (answering host) p.scope hint = answer kind .undefined) ∧
    ∀ hint, e.stage inAsync (answering host) p.scope hint =
      do return pure (← answer kind .undefined) := by
  cases he with
  | yield =>
    refine ⟨.yield, fun _ => rfl, fun _ => ?_⟩
    rw [Expr.stage.eq_def]
    rfl
  | yieldStar =>
    refine ⟨.delegate, fun _ => rfl, fun _ => ?_⟩
    rw [Expr.stage.eq_def]
    rfl

theorem Suspends.hasSuspend (hw : Suspends inAsync wrap) : (wrap e).hasSuspend inAsync = true := by
  cases hw with
  | await hasync => simp [Expr.hasSuspend, Expr.suspends, hasync]
  | _ => simp [Expr.hasSuspend, Expr.suspends]

theorem Suspends.answers (hw : Suspends inAsync wrap) (p : Private) (host : Host) : ∃ kind,
    (∀ (e : Expr) hint, (wrap e).eval (answering host) p.scope hint =
      e.eval (answering host) p.scope none >>= answer kind) ∧
    ∀ (e : Expr) hint, (wrap e).stage inAsync (answering host) p.scope hint =
      do return pure (← whole (e.stage inAsync (answering host) p.scope none) >>= answer kind) := by
  have hs (e : Expr) := hw.hasSuspend (e := e)
  cases hw with
  | yield =>
    refine ⟨.yield, fun _ _ => rfl, fun e _ => ?_⟩
    rw [Expr.stage.eq_def, hs]
    rfl
  | yieldStar =>
    refine ⟨.delegate, fun _ _ => rfl, fun e _ => ?_⟩
    rw [Expr.stage.eq_def, hs]
    rfl
  | await hasync =>
    subst hasync
    refine ⟨.await, fun _ _ => rfl, fun e _ => ?_⟩
    rw [Expr.stage.eq_def, hs]
    rfl

theorem bare_means (he : SuspendsBare e) (hn : slotName n ∈ p.names) :
    (Hoisting.expr e ⟨[.assign .set (.ident (slotName n)) e], .ident (slotName n)⟩).Means p host
      inAsync := by
  refine ⟨fun _ hint _ => ?_, fun d hd => by cases he <;> cases hd⟩
  obtain ⟨kind, heval, hstage⟩ := he.answers p host inAsync
  have hsettles : p.Settles host (answer kind .undefined)
      [.assign .set (.ident (slotName n)) e] fun v t => p.Holds t (.ident (slotName n)) v := by
    refine fun s s' hs => .store ?_ hn
    rw [heval]
    exact (Private.Unseen.answer kind .undefined).follows s s' hs
  rw [hstage]
  exact hsettles.lowers (by simp [Expr.uses])

theorem suspend_means (hw : Suspends inAsync wrap) (hn : slotName m ∈ p.names)
    (ih : (Hoisting.expr e h).Means p host inAsync) :
    (Hoisting.expr (wrap e) ⟨h.before ++ [.assign .set (.ident (slotName m)) (wrap h.rest)],
      .ident (slotName m)⟩).Means p host inAsync := by
  refine ⟨fun horderly hint _ => ?_, fun d hd => by cases hw <;> cases hd⟩
  have horderly : e.isOrderly inAsync = true := by cases hw <;> exact horderly
  obtain ⟨kind, heval, hstage⟩ := hw.answers p host
  have hboth := (ih.1 horderly none nofun).bind fun v => (Private.Unseen.answer kind v).follows
  rw [← heval h.rest (slotName m)] at hboth
  have hwhole (x : RunOn Dialogue (RunOn Dialogue Value)) :
      whole (do return (← x) >>= answer kind) = whole x >>= answer kind := by
    simp [whole]
  have hstore := hboth.store hn
  rw [hwhole] at hstore
  rw [hstage]
  exact hstore.lowers (by simp [Expr.uses])

end Suspending

section Sequences

variable {p : Private} {host : Host} {inAsync : Bool} {n k m : SlotNumber} {e : Expr}
  {es before first rest : List Expr} {h : Hoisted}

theorem eval_ofItems {σ : Type} [HasWorld σ] {host : HostOn σ} {scope : ScopeId} (hes : es ≠ []) :
    (Expr.ofItems es).eval host scope none = evalSeq host scope .undefined es := by
  match es with
  | [e] => simp [Expr.ofItems, evalSeq]
  | e :: d :: es => rfl

theorem stage_simpleSuspend (he : e.isSimpleSuspend inAsync = true) (hint : Option String) :
    whole (e.stage inAsync (answering host) p.scope hint) =
      e.eval (answering host) p.scope hint := by
  have hvalue (x : RunOn Dialogue Value) : whole (do return pure (← x)) = x := by simp
  have hbare {d : Expr} (hd : SuspendsBare d) : whole (d.stage inAsync (answering host) p.scope hint) =
      d.eval (answering host) p.scope hint := by
    obtain ⟨kind, heval, hstage⟩ := hd.answers p host inAsync
    rw [hstage, heval]
    exact hvalue _
  have hwrap {wrap : Expr → Expr} (hw : Suspends inAsync wrap) {d : Expr}
      (hd : (!d.hasSuspend inAsync) = true) :
      whole ((wrap d).stage inAsync (answering host) p.scope hint) =
        (wrap d).eval (answering host) p.scope hint := by
    obtain ⟨kind, heval, hstage⟩ := hw.answers p host
    rw [hstage, heval, stage_plain (by simpa using hd), whole_pure]
    exact hvalue _
  unfold Expr.isSimpleSuspend at he
  split at he
  · exact hbare .yield
  · exact hbare .yieldStar
  · exact hwrap .yield he
  · exact hwrap .yieldStar he
  · obtain ⟨hasync, he⟩ := Bool.and_eq_true_iff.1 he
    exact hwrap (.await hasync) he
  · cases he

theorem stage_simpleEffect (he : e.isSimpleEffect inAsync = true) :
    whole (e.stage inAsync (answering host) p.scope none) = e.eval (answering host) p.scope none := by
  unfold Expr.isSimpleEffect at he
  split at he
  · rename_i x value
    rw [Expr.stage.eq_def]
    split
    · exact whole_pure _
    · exact (assignName_stages .set x _).trans (congrArg _ (stage_simpleSuspend he (some x)))
  · exact stage_simpleSuspend he none

theorem effects_settle (hh : Hoists inAsync n (.expr e h) m)
    (hserved : (Hoisting.expr e h).Served p) (horderly : e.isOrderly inAsync = true)
    (ih : (Hoisting.expr e h).Means p host inAsync) :
    p.Settles host (whole (e.stage inAsync (answering host) p.scope none)) h.effects
      fun _ _ => True := by
  have hlowers := ih.1 horderly none nofun
  unfold Hoisted.effects
  split
  · rename_i hinert
    have hclean (x : String) (hx : x ∈ e.uses) : isSlotName x = false :=
      hserved.clean x (List.mem_append_left _ hx)
    obtain ⟨k, -, hf⟩ := hh.fills (clean_of_uses hclean)
    have hholds := hlowers.inert hinert fun y hy => hserved.names y (hf.inert_uses hinert y hy)
    exact fun s s' hs => (hholds s s' hs).mono fun _ _ _ _ _ => trivial
  · exact hlowers.effect

/-- A sequence leaves its last part in the place where it stood. -/
theorem sequence_means (hs : listHasSuspend inAsync es = true)
    (hh : Hoists inAsync n (.expr (.seq es) h) m) (ih : (Hoisting.items es h).Means p host inAsync) :
    (Hoisting.expr (.seq es) h).Means p host inAsync := by
  refine ⟨fun horderly hint hname => ?_, nofun⟩
  have hstage : (Expr.seq es).stage inAsync (answering host) p.scope hint =
      stageSeq inAsync (answering host) p.scope es := by
    have hs : (Expr.seq es).hasSuspend inAsync = true := hs
    rw [Expr.stage.eq_def, hs]
    rfl
  have heval : h.rest.eval (answering host) p.scope hint =
      h.rest.eval (answering host) p.scope none := by
    cases hint with
    | none => rfl
    | some name =>
      refine eval_hint _ _ ?_ _
      have hname := hname rfl
      have hs : (Expr.seq es).hasSuspend inAsync = true := hs
      simp only [Expr.mayTakeName, hs, Bool.not_true, Bool.false_or, bne_iff_ne] at hname
      obtain ⟨x, -, hrest⟩ | hlook := hh.rest_look
      · rw [hrest]
        exact nofun
      · rwa [hlook]
  rw [hstage, heval]
  exact ih horderly

theorem item_means (hs : es ≠ []) (ih : (Hoisting.effects [e] first).Means p host inAsync)
    {y : RunOn Dialogue (RunOn Dialogue Value)}
    (hy : areOrderly inAsync es = true →
      p.Lowers host y h.before (h.rest.eval (answering host) p.scope none))
    (hstage : y = if listHasSuspend inAsync es then stageSeq inAsync (answering host) p.scope es
      else pure (evalSeq (answering host) p.scope .undefined es)) :
    (Hoisting.items (e :: es) (h.after first)).Means p host inAsync := by
  intro horderly
  obtain ⟨he, hes⟩ := Bool.and_eq_true_iff.1 horderly
  have hfirst := ih (by simpa [areOrderly] using he)
  have hboth := hfirst.then_lowers (hy hes)
  match es with
  | d :: es =>
    rw [stageSeq, ← hstage]
    simpa [stageEffects, Hoisted.after] using hboth

end Sequences

section Main

variable {p : Private} {host : Host} {inAsync : Bool} {n k m : SlotNumber}

theorem listSlots_sublist {es ds : List Expr} (h : es.Sublist ds) :
    (listSlots es).Sublist (listSlots ds) := by
  induction h with
  | slnil => exact .refl _
  | cons e _ ih => exact ih.trans (List.sublist_append_right _ _)
  | cons_cons e _ ih => exact (List.Sublist.refl _).append ih

theorem listUses_head (e : Expr) (es : List Expr) : listUses [e] ⊆ listUses (e :: es) := by
  simp [listUses]

theorem listUses_tail (e : Expr) (es : List Expr) : listUses es ⊆ listUses (e :: es) :=
  List.subset_append_right _ _

theorem Hoisting.Served.mono {w w' : Hoisting} (h : w.Served p)
    (hsource : listUses w'.source ⊆ listUses w.source) (hbefore : w'.before.Sublist w.before) :
    w'.Served p where
  clean x hx := h.clean x (hsource hx)
  names x hx := h.names x ((listSlots_sublist hbefore).subset hx)
  nodup := h.nodup.sublist (listSlots_sublist hbefore)

theorem before_settle {h s : Hoisted} {later : Bool} (hr : (h.settle later).run n = .ok (s, m)) :
    h.before.Sublist s.before := by
  cases later with
  | false =>
    obtain ⟨rfl, -⟩ := (run_settle_false ..).1 hr
    exact .refl _
  | true =>
    simp only [Hoisted.settle, if_true, run_bind_ok, run_pure_ok] at hr
    obtain ⟨t, i, -, rfl, -⟩ := hr
    exact List.sublist_append_left _ _

theorem before_effects (h : Hoisted) : h.before.Sublist h.effects := by
  unfold Hoisted.effects
  split
  · exact .refl _
  · exact List.sublist_append_left _ _

theorem noOperand_means : (Hoisting.operands [] [] []).Means p host inAsync := by
  have hnone : p.Lowers host (stageEach inAsync (answering host) p.scope []) []
      (evalEach (answering host) p.scope []) := by
    rw [stageEach]
    exact .ofFollows (Private.Unseen.pure _).follows
  refine ⟨fun t t' ht _ => ?_, fun _ => hnone⟩
  rw [stageOperands.eq_def]
  cases ht with
  | done h => exact .ofFollows h
  | value => exact .ofFollows (Private.Unseen.pure _).follows
  | args hk => exact hnone.wrap hk

theorem plain_means (hb : p.Blind host) {e : Expr} (he : e.hasSuspend inAsync = false)
    (hclean : ∀ x ∈ e.uses, isSlotName x = false) :
    (Hoisting.expr e ⟨[], e⟩).Means p host inAsync := by
  refine ⟨fun _ hint _ => ?_, fun d hd _ => ?_⟩
  · rw [stage_plain he]
    exact .ofFollows (hb.eval hclean p.scope hint)
  · subst hd
    refine ⟨d, rfl, ?_⟩
    have he : d.hasSuspend inAsync = false := he
    have hclean : ∀ x ∈ d.uses, isSlotName x = false := hclean
    rw [stage_plain he]
    exact .ofFollows (hb.eval hclean p.scope none)

/-- Hoisting keeps what code means. -/
theorem Hoists.means {w : Hoisting} (h : Hoists inAsync n w m) (hb : p.Blind host)
    (hserved : w.Served p) : w.Means p host inAsync := by
  induction h with
  | plain he => exact plain_means hb he fun x hx => hserved.clean x (List.mem_append_left _ hx)
  | bare he => exact bare_means he (hserved.names _ (by simp [Hoisting.before]))
  | suspend hw _ ih =>
    refine suspend_means hw (hserved.names _ (by simp [Hoisting.before])) (ih (hserved.mono ?_ ?_))
    · cases hw <;> exact fun _ => id
    · exact List.sublist_append_left _ _
  | @composite n m e before rest hs hc hh ih =>
    refine composite_means hb hs hc hh hserved (ih (hserved.mono (fun x hx => ?_) (.refl _)))
    exact List.mem_append_left _ (operands_uses e x hx)
  | assign hv ht hspill _ ih =>
    refine assign_means hb hv ht hspill hserved (ih (hserved.mono ?_ (List.sublist_append_right _ _)))
    simp [Hoisting.source, listUses, Expr.uses]
  | compound hop hv ht hspill hold _ ih =>
    refine compound_means hb hop hv ht hspill hold hserved
      (ih (hserved.mono ?_ (List.sublist_append_right _ _)))
    simp [Hoisting.source, listUses, Expr.uses]
  | sequence hs hh ih =>
    refine sequence_means hs (.sequence hs hh) (ih (hserved.mono ?_ (.refl _)))
    simp [Hoisting.source, listUses, Expr.uses]
  | noOperand => exact noOperand_means
  | operand hh hsettle hrest ih ih' =>
    have hfirst := ih (hserved.mono (listUses_head _ _)
      ((before_settle hsettle).trans (List.sublist_append_left _ _)))
    have hlater := ih' (hserved.mono (listUses_tail _ _) (List.sublist_append_right _ _))
    exact ⟨fun _ _ ht => operand_lowers hb hh hsettle hrest hserved hfirst hlater ht,
      argument_lowers hb hh hsettle hrest hserved hfirst hlater⟩
  | noEffect => exact fun _ s s' hs => .pure hs trivial
  | innerEffects hh hrest ih ih' =>
    intro horderly
    obtain ⟨hinner, hes⟩ := Bool.and_eq_true_iff.1 horderly
    have hfirst := ih (hserved.mono (List.subset_append_left _ _) (List.sublist_append_left _ _)) hinner
    have hlater := ih' (hserved.mono (listUses_tail _ _) (List.sublist_append_right _ _)) hes
    rw [stageEffects, stage_seq_effects]
    exact hfirst.bind fun _ => hlater
  | @simpleEffect n m e es rest hs hh ih =>
    intro horderly
    obtain ⟨-, hes⟩ := Bool.and_eq_true_iff.1 horderly
    have hclean (x : String) (hx : x ∈ e.uses) : isSlotName x = false :=
      hserved.clean x (List.mem_append_left _ hx)
    have hfirst : p.Settles host (e.eval (answering host) p.scope none) [e] fun _ _ => True :=
      fun s s' hs => .effect (hb.eval hclean p.scope none s s' hs)
    have hlater := ih (hserved.mono (listUses_tail _ _) (List.sublist_cons_self _ _)) hes
    rw [stageEffects, stage_simpleEffect hs]
    exact hfirst.bind fun _ => hlater
  | @effect n k m e es rest h hh hrest ih ih' =>
    intro horderly
    obtain ⟨he, hes⟩ := Bool.and_eq_true_iff.1 horderly
    have hserved' : (Hoisting.expr e h).Served p := hserved.mono (listUses_head _ _)
      ((before_effects _).trans (List.sublist_append_left _ _))
    have hlater := ih' (hserved.mono (listUses_tail _ _) (List.sublist_append_right _ _)) hes
    rw [stageEffects]
    exact (effects_settle hh hserved' he (ih hserved')).bind fun _ => hlater
  | lastItem hh ih =>
    intro horderly
    rw [stageSeq]
    exact (ih (hserved.mono (fun _ => id) (.refl _))).1 (by simpa [areOrderly] using horderly) none (by rintro ⟨⟩)
  | item hfirst hs hh ih ih' =>
    refine item_means ?_ (ih (hserved.mono (listUses_head _ _) (List.sublist_append_left _ _)))
      (ih' (hserved.mono (listUses_tail _ _) (List.sublist_append_right _ _))) (by rw [hs]; rfl)
    rintro rfl
    cases hs
  | @lastEffect n m e es first hfirst hne hs ih =>
    have hclean (x : String) (hx : x ∈ listUses es) : isSlotName x = false :=
      hserved.clean x (List.mem_append_right _ hx)
    have hlast : p.Lowers host (pure (evalSeq (answering host) p.scope .undefined es)) []
        ((Expr.ofItems es).eval (answering host) p.scope none) := by
      rw [eval_ofItems hne]
      exact .ofFollows (hb.evalSeq hclean p.scope .undefined)
    have hmeans := item_means hne (ih (hserved.mono (listUses_head _ _) (.refl _)))
      (h := ⟨[], .ofItems es⟩) (fun _ => hlast) (by simp [hs])
    simpa [Hoisted.after] using hmeans

end Main

/-- What lowering leaves of an expression: the effects first, then the rest. -/
def Hoisted.eval {σ : Type} [HasWorld σ] (host : HostOn σ) (scope : ScopeId) (h : Hoisted) :
    RunOn σ Value := do
  evalAll host scope h.before
  h.rest.eval host scope none

theorem evalAll_discreet (host : Host) (p : Private) (scope : ScopeId) (es : List Expr)
    (s : Dialogue) : evalAll (answering (host.discreet p)) scope es s = .exhausted ∨
      evalAll (answering (host.discreet p)) scope es s = evalAll (answering host) scope es s := by
  induction es generalizing s with
  | nil => exact .inr rfl
  | cons e es ih => exact approximates.bind (e.eval_discreet host p scope none) (fun _ => ih) s

theorem Hoisted.eval_discreet (host : Host) (p : Private) (scope : ScopeId) (h : Hoisted)
    (s : Dialogue) :
    h.eval (answering (host.discreet p)) scope s = .exhausted ∨
      h.eval (answering (host.discreet p)) scope s = h.eval (answering host) scope s :=
  approximates.bind (evalAll_discreet host p scope h.before)
    (fun _ => h.rest.eval_discreet host p scope none) s

section Result

variable {inAsync : Bool} {n m : SlotNumber} {e : Expr} {h : Hoisted} {p : Private}

theorem Hoists.served {w : Hoisting} (hh : Hoists inAsync n w m)
    (hclean : ∀ x ∈ listUses w.source, isSlotName x = false)
    (hcount : (listSlots w.before).length ≤ 2 ^ 64) (hnames : ∀ x ∈ listSlots w.before, x ∈ p.names) :
    w.Served p where
  clean := hclean
  names := hnames
  nodup := by
    obtain ⟨k, -, hf⟩ := hh.fills (clean_of_listUses hclean)
    have hslots : listSlots w.before = drawn n k := hf.slots
    rw [hslots, drawn, List.length_map, List.length_range] at hcount
    exact hslots ▸ nodup_drawn n hcount

/-- Lowering keeps what an orderly expression means, calls and suspensions included, but that a method
whose arguments suspend is looked up when it is called: the expression is evaluated in two stages, the
first of which goes past the last suspension. Without such a method call this is the evaluation of the
expression. The host gives up on a call for which the slots make a difference. -/
theorem hoist_means (host : Host) (hr : (e.hoist inAsync).run n = .ok (h, m))
    (hclean : ∀ x ∈ e.uses, isSlotName x = false) (hcount : (listSlots h.before).length ≤ 2 ^ 64)
    (horderly : e.isOrderly inAsync = true) (hnames : ∀ x ∈ listSlots h.before, x ∈ p.names)
    {w : World} (hw : p.Open w.scopes) (script : List Reply) :
    let staged := whole (e.stage inAsync (answering (host.discreet p)) p.scope none) (.start w script)
    staged ≠ .exhausted →
      p.Agrees staged (h.eval (answering host) p.scope (.start w script)) ∧
      (e.looksUpLate inAsync = false →
        staged = e.eval (answering host) p.scope none (.start w script)) := by
  intro staged hstaged
  have hb : p.Blind (host.discreet p) := discreet_blind host p
  have hh := e.hoists inAsync n m h hr
  have hserved := hh.served (by simpa [Hoisting.source, listUses] using hclean) hcount hnames
  have hmeans := hh.means hb hserved
  have hstart : p.Alike (.start w script) (.start w script) := ⟨.refl hw, .nil, rfl, rfl⟩
  have hagrees : p.Agrees staged (h.eval (answering (host.discreet p)) p.scope (.start w script)) :=
    (hmeans.1 horderly none nofun).agrees hstart
  refine ⟨?_, fun hlate => ?_⟩
  · obtain hnone | heq := h.eval_discreet host p p.scope (.start w script)
    · rw [hnone] at hagrees
      exact absurd hagrees.eq_exhausted hstaged
    · rwa [heq] at hagrees
  · have hwhole : staged = e.eval (answering (host.discreet p)) p.scope none (.start w script) :=
      congrFun (e.stage_whole answering_await none hlate) _
    obtain hnone | heq := e.eval_discreet host p p.scope none (.start w script)
    · exact absurd (hwhole.trans hnone) hstaged
    · exact hwhole.trans heq

end Result

def World.slotted (k : Nat) : World :=
  { World.blank with
    scopes := (drawn 0 k).foldl (fun s name => s.declare World.global name .var) World.blank.scopes }

def Private.first (k : Nat) : Private where
  scope := World.global
  chain := [World.global]
  names := drawn 0 k
  slots _ hx := isSlotName_drawn hx

def Outcome.eventCount {α : Type} : Outcome Dialogue α → Option Nat
  | .done _ s | .abrupt _ s => some s.events.length
  | .exhausted => none

theorem Private.Agrees.eventCount {α : Type} {p : Private} {r r' : Outcome Dialogue α}
    (h : p.Agrees r r') : r.eventCount = r'.eventCount := by
  cases h with
  | done ht | abrupt ht | notFunction _ _ ht | notConstructor _ _ ht =>
    exact congrArg some ht.events.length_eq
  | exhausted => rfl

/-- A world with so many slots where `f` is the identity function. -/
def World.calling (k : Nat) : World :=
  let identity : Closure := ⟨[.ident "x"], [.ret (some (.ident "x"))], World.global, true, .plain⟩
  let w := World.slotted k
  { w with
    heap := ⟨#[⟨none, .empty, .function (.closure identity)⟩]⟩
    scopes := w.scopes.bind World.global "f" ⟨.obj 0, .const, true⟩ }

theorem calling_open : (Private.first 3).Open (World.calling 3).scopes where
  allocated := by decide +kernel
  chain := by decide +kernel
  bound := by decide +kernel

/-- An operand before a suspension waits in a slot, and a function is called after it. -/
theorem hoist_means_call :
    let e := Expr.binary .add .this (.call (.ident "f") [.yield none])
    let h : Hoisted := ⟨[.assign .set (.ident (slotName 0)) .this,
      .assign .set (.ident (slotName 1)) (.ident "f"),
      .assign .set (.ident (slotName 2)) (.yield none)],
      .binary .add (.ident (slotName 0)) (.call (.ident (slotName 1)) [.ident (slotName 2)])⟩
    let start := Dialogue.start (World.calling 3) [⟨.next, .num 2⟩]
    (e.hoist false).run 0 = .ok (h, 3) ∧
    (e.eval (answering (Host.withFuel 8)) World.global none start).eventCount = some 2 ∧
    (Private.first 3).Agrees (e.eval (answering (Host.withFuel 8)) World.global none start)
      (h.eval (answering (Host.withFuel 8)) World.global start) := by
  intro e h start
  have hr : (e.hoist false).run 0 = .ok (h, 3) := rfl
  have hlate : e.looksUpLate false = false := rfl
  have hquiet : (e.eval (answering (.quiet 8)) World.global none start).eventCount = some 2 := by
    decide +kernel
  have hends : e.eval (answering (.quiet 8)) World.global none start ≠ .exhausted := fun hnone => by
    rw [hnone] at hquiet
    cases hquiet
  have hdiscreet := e.eval_quiet (Private.first 3) hends
  have hmeans := hoist_means (p := Private.first 3) (Host.withFuel 8) hr (by decide) (by decide)
    (by decide) (by decide) calling_open [⟨.next, .num 2⟩] (by
      rw [e.stage_whole answering_await none hlate]
      exact fun hnone => hends (hdiscreet.symm.trans hnone))
  rw [hmeans.2 hlate] at hmeans
  refine ⟨hr, ?_, hmeans.1⟩
  decide +kernel

/-- A method of `null` is an error at once; lowered, the call suspends first. -/
theorem hoist_looks_up_late :
    let e := Expr.call (.dot .null "m") [.yield none]
    let h : Hoisted := ⟨[.assign .set (.ident (slotName 0)) (.yield none)],
      .call (.dot .null "m") [.ident (slotName 0)]⟩
    let start := Dialogue.start (World.slotted 2) [⟨.next, .undefined⟩]
    (e.hoist false).run 0 = .ok (h, 1) ∧
    ¬(Private.first 2).Agrees (e.eval (answering (Host.withFuel 8)) World.global none start)
      (h.eval (answering (Host.withFuel 8)) World.global start) := by
  intro e h start
  refine ⟨rfl, fun hagrees => ?_⟩
  have hcounts : ¬(e.eval (answering (Host.withFuel 8)) World.global none start).eventCount =
      (h.eval (answering (Host.withFuel 8)) World.global start).eventCount := by decide +kernel
  exact hcounts hagrees.eventCount

end Resumable
