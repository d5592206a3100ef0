import Resumable.Proofs.Refinement.Iteration

/-!
Labels and protected regions in plans. A labeled statement takes the `break` that names it, a handler
takes what the block throws, and a finally block runs before any other completion goes on.
-/

set_option autoImplicit false

namespace Resumable

open Taped (lift emit)

def catching (labels : List String) (x : RunOn Taped Value) : RunOn Taped Value := do
  match ← x.attempt with
  | .error (.brk (some l)) =>
    if labels.contains l then return .undefined else Run.abrupt (.brk (some l))
  | r => Run.ofCompletion r

section Labels

variable (labels : List String) (x : RunOn Taped Value)

theorem catching_nil : catching [] x = x := by
  funext s
  simp only [catching, bind, RunOn.bind, RunOn.attempt]
  cases x s with
  | abrupt c s' =>
    cases c with
    | brk l => cases l <;> rfl
    | cont | ret | throw | fatal => rfl
  | done | exhausted => rfl

theorem catching_labeled (host : HostOn Taped) (scope : ScopeId) (label : String) (s : Stmt) :
    catching labels ((Stmt.labeled label s).exec host scope labels) =
      catching (labels ++ [label]) (s.exec host scope (labels ++ [label])) := by
  funext t
  simp only [catching, Stmt.exec, bind, RunOn.bind, RunOn.attempt]
  cases s.exec host scope (labels ++ [label]) t with
  | abrupt c s' =>
    cases c with
    | brk l =>
      cases l with
      | none => rfl
      | some l =>
        by_cases hl : l = label
        · simp [hl, pure, RunOn.pure, Run.ofCompletion]
        · simp [hl, Run.abrupt]
    | cont | ret | throw | fatal => rfl
  | done | exhausted => rfl

end Labels

section Enclosing

variable {plan : Plan} {host : Host} {around : List Breakable} {g : Instance} {a b : Play}
  {labels : List String}

theorem Follows.catching {x : RunOn Taped Value}
    (h : Follows host g (·.Passes labels g.loops) a x fun _ => b) :
    Follows.Leading host g a (catching labels x) fun _ => b := by
  refine h.attempt (fun v => .here v) fun c hc => ?_
  match c with
  | .brk (some l) =>
    have hl : labels.contains l = false := hc.2
    dsimp only
    rw [hl]
    exact .abrupt hc.1
  | .brk none | .cont _ | .ret _ | .throw _ | .fatal _ => exact .abrupt hc.1

theorem enclosed_follows (hg : g.Ready plan around) {base next : Nat} {x : RunOn Taped Value}
    (hexit : plan.get? base = some (.exitLoop next))
    (hx : Follows.Leading host (g.inLoop labels .block none next) a x
      fun _ => playing host ((g.inLoop labels .block none next).goto base)) :
    Follows.Leading host g a (catching labels x) fun _ => playing host (g.goto next) := by
  have hk := hg.inLoop labels .block none next nofun
  have hpass : ∀ (c : Abrupt) (next' : Value → Play),
      c.Leads (g.inLoop labels .block none next).loops → c.meantFor ⟨labels, .block⟩ = false →
      Follows.Leading host g (escape host (g.inLoop labels .block none next) c) (Run.abrupt c)
        next' := by
    intro c next' hc hm
    obtain ⟨hleads, heq⟩ := escape_skip hg host hc hm
    rw [heq]
    exact .abrupt hleads
  have hbreak : ∀ label, Breakable.isMeant label false ⟨labels, .block⟩ = true →
      escape host (g.inLoop labels .block none next) (.brk label) = playing host (g.goto next) :=
    fun label h => escape_break
      (l := ⟨labels, .block, none, next, g.scopes.length, g.frames.length⟩)
      ((accepts_eq_isMeant _ _ _).trans h) rfl rfl [] g.ip
  refine hx.attempt (fun v => (Follows.here v).lead (hk.steps hexit rfl)) fun c hc => ?_
  match c with
  | .brk (some l) =>
    dsimp only
    split
    · rename_i hl
      rw [hbreak (some l) hl]
      exact .here _
    · rename_i hl
      exact hpass _ _ hc (by simpa [Abrupt.meantFor, Breakable.isMeant] using hl)
  | .cont (some l) =>
    refine hpass _ _ hc ?_
    -- a block cannot be continued
    refine Bool.eq_false_iff.2 fun hl => ?_
    have hl : l ∈ labels := by simpa [Abrupt.meantFor, Breakable.isMeant] using hl
    simp [Abrupt.Leads, Abrupt.signal?, Instance.inLoop, jumpAmong, LoopScope.accepts, hl] at hc
  | .brk none | .cont none | .ret _ | .throw _ | .fatal _ => exact hpass _ _ hc rfl

end Enclosing

def Instance.inRegion (g : Instance) (onThrow onExit : Option Nat) (phase : Phase) : Instance :=
  g.pushFrame (.region onThrow onExit phase)

section Regions

variable {plan : Plan} {host : Host} {around : List Breakable} {g : Instance}
  (hg : g.Ready plan around)

include hg

theorem Instance.Ready.inRegion (onThrow onExit : Option Nat) (phase : Phase) :
    (g.inRegion onThrow onExit phase).Ready plan around := hg.pushFrame _

theorem signal_frames {c : Abrupt} {signal : Signal} (h : c.signal? g.loops = some signal) :
    ∀ j, signal = .jump j → j.frames ≤ g.frames.length := by
  rintro j rfl
  exact (signal_bounds hg.nested h).2.1

variable {onThrow onExit : Option Nat} {phase : Phase} {c : Abrupt}

/-- A region in which nothing is left to run lets a completion pass. -/
theorem escape_pass (hc : c.Leads g.loops) (hpass : ∀ signal, c.signal? g.loops = some signal →
      (FrameKind.region onThrow onExit phase).receive signal = .pass) :
    escape host (g.inRegion onThrow onExit phase) c = escape host g c := by
  obtain ⟨e, rfl⟩ | ⟨signal, h⟩ := leads_cases hc
  · simp only [escape_fatal]
  · rw [escape_signal h, escape_signal (g := g.inRegion onThrow onExit phase) h]
    exact unwind_pass (signal_frames hg h) (hpass signal h)

theorem escape_finalize {signal : Signal} {target : Nat} (h : c.signal? g.loops = some signal)
    (hr : (FrameKind.region onThrow onExit phase).receive signal = .finalize target) :
    escape host (g.inRegion onThrow onExit phase) c =
      playing host ((g.inRegion onThrow onExit (.finalizer (some signal))).goto target) := by
  rw [escape_signal (g := g.inRegion onThrow onExit phase) h]
  exact unwind_finalize (signal_frames hg h) hr

omit hg in
theorem escape_handle {target : Nat} (v : Value) :
    escape host (g.inRegion (some target) onExit .body) (.throw v) =
      playing host { (g.inRegion (some target) onExit .handler).goto target with
        caught := some v } := by
  have hj : ∀ j, Signal.throw v = .jump j → j.frames ≤ g.frames.length := nofun
  exact unwind_handle hj rfl

end Regions

def Reception.isHandle : Reception → Bool
  | .handle _ _ => true
  | _ => false

/-- What follows the end of a block or handler: `settle` says what its completion comes to. -/
structure Settles (host : Host) (plan : Plan) (g : Instance) (onThrow onExit : Option Nat)
    (next : Nat) (settle : Except Abrupt Value → RunOn Taped Value) : Prop where
  normal : ∀ phase exit v, phase.stage ≠ .finalizer →
    plan.get? exit = some (.exitTry next false) →
    Follows.Leading host g (playing host ((g.inRegion onThrow onExit phase).goto exit))
      (settle (.ok v)) fun _ => playing host (g.goto next)
  abrupt : ∀ (phase : Phase) (c : Abrupt), phase.stage ≠ .finalizer → c.Leads g.loops →
    (∀ signal, c.signal? g.loops = some signal →
      ((FrameKind.region onThrow onExit phase).receive signal).isHandle = false) →
    Follows.Leading host g (escape host (g.inRegion onThrow onExit phase) c)
      (settle (.error c)) fun _ => playing host (g.goto next)

section Settling

variable {plan : Plan} {host : Host} {around : List Breakable} {g : Instance}
  (hg : g.Ready plan around) {onThrow : Option Nat} {next : Nat}

include hg

theorem settles_ofCompletion : Settles host plan g onThrow none next Run.ofCompletion where
  normal phase exit v hphase hexit := by
    refine (Follows.here v).lead ((hg.inRegion onThrow none phase).steps hexit ?_)
    cases phase <;> rfl
  abrupt phase c hphase hc hr := by
    rw [escape_pass hg hc fun signal hs => ?_]
    · exact .abrupt hc
    · have hr := hr signal hs
      cases phase <;> cases onThrow <;> cases signal <;> first | rfl | cases hr

theorem settles_finalized {target base : Nat} {x : RunOn Taped Value}
    (hend : plan.get? base = some (.endFinally next))
    (hx : ∀ pending, Follows.Leading host (g.inRegion onThrow (some target) (.finalizer pending))
      (playing host ((g.inRegion onThrow (some target) (.finalizer pending)).goto target)) x
      fun _ => playing host ((g.inRegion onThrow (some target) (.finalizer pending)).goto base)) :
    Settles host plan g onThrow (some target) next (finalized · x) := by
  -- completions of the finally block itself just go on
  have hout : ∀ pending, Follows.Leading host g
      (playing host ((g.inRegion onThrow (some target) (.finalizer pending)).goto target)) x
      fun _ => playing host ((g.inRegion onThrow (some target) (.finalizer pending)).goto base) :=
    fun pending => (hx pending).level fun c hc =>
      ⟨hc, escape_pass hg hc fun signal _ => by cases onThrow <;> rfl⟩
  refine ⟨fun phase exit v hphase hexit => ?_, fun phase c hphase hc hr => ?_⟩
  · have hfinally : ((g.inRegion onThrow (some target) phase).goto exit).dispatch host
        (.exitTry next false) =
        return .goOn ((g.inRegion onThrow (some target) (.finalizer none)).goto target) := by
      cases phase with
      | body | handler => rfl
      | finalizer => exact absurd rfl hphase
    refine Follows.lead ?_ ((hg.inRegion onThrow (some target) phase).steps hexit hfinally)
    refine (hout none).bind fun _ => (Follows.here v).lead ?_
    exact (hg.inRegion onThrow (some target) (.finalizer none)).steps hend rfl
  · obtain ⟨e, rfl⟩ | ⟨signal, hs⟩ := leads_cases hc
    · rw [escape_fatal, ← escape_fatal host g]
      exact .abrupt hc
    · have hreceive : (FrameKind.region onThrow (some target) phase).receive signal =
          .finalize target := by
        have hr := hr signal hs
        cases phase with
        | finalizer => exact absurd rfl hphase
        | body => cases onThrow <;> cases signal <;> first | rfl | cases hr
        | handler => cases onThrow <;> rfl
      have hfin : finalized (.error c) x = x >>= fun _ => Run.abrupt c := by
        cases c with
        | fatal => cases hs
        | _ => rfl
      have hgoOn : onward host
          (((g.inRegion onThrow (some target) (.finalizer (some signal))).goto base).dispatch host
            (.endFinally next)) = escape host g c := by
        rw [escape_signal hs]
        exact unwindThrough_alike g.frames (fun _ _ _ _ => rfl) fun _ _ _ _ => rfl
      rw [escape_finalize hg hs hreceive, hfin]
      refine (hout (some signal)).bind fun _ => .step ((hg.inRegion _ _ _).instr_goto hend) ?_
      rw [hgoOn]
      exact .abrupt hc

end Settling

theorem Instance.Ready.bindCatch_caught {plan : Plan} {around : List Breakable} {g : Instance}
    (hg : g.Ready plan around) (host : Host) (target : Nat) (param : Option Pattern) (entry : Nat)
    (v : Value) :
    ({ g.goto target with caught := some v } : Instance).bindCatch host param entry =
      Run.edit (Edit.newScope g.scope) >>= fun inner =>
        match param with
        | none => return .goOn ((g.pushScope inner).goto entry)
        | some p => ((g.pushScope inner).goto target).after host (p.bind host inner (some .let) v)
            fun _ => return .goOn ((g.pushScope inner).goto entry) := by
  have hcaught := hg.caught
  cases g
  cases hcaught
  cases param <;> rfl

/-- What follows an exception in the block: it goes on, or the handler takes it. -/
def Handles (host : Host) (plan : Plan) (g : Instance) (onThrow onExit : Option Nat) (next : Nat)
    (handler : Value → RunOn Taped Value) : Prop :=
  match onThrow with
  | none => handler = Run.throwValue
  | some target => ∃ leave, plan.get? leave = some (.exitTry next false) ∧
      ∀ v, Follows.Leading host (g.inRegion (some target) onExit .handler)
        (playing host { (g.inRegion (some target) onExit .handler).goto target with
          caught := some v }) (handler v)
        fun _ => playing host ((g.inRegion (some target) onExit .handler).goto leave)

section Protection

variable {plan : Plan} {host : Host} {around : List Breakable} {g : Instance}
  (hg : g.Ready plan around) {onThrow onExit : Option Nat} {next : Nat}

include hg

theorem handler_follows (hh : host.Proper) (hplain : HoldsNone false plan.code)
    {param : Option Pattern} {target base entry : Nat}
    (hbind : plan.get? target = some (.bindCatch param entry))
    (hpop : plan.get? (base + 1) = some (.popScope base)) {body : ScopeId → RunOn Taped Value}
    (hb : ∀ inner, Follows.Leading host (g.pushScope inner)
      (playing host ((g.pushScope inner).goto entry)) (body inner)
      fun _ => playing host ((g.pushScope inner).goto (base + 1))) (v : Value) :
    Follows.Leading host g (playing host { g.goto target with caught := some v })
      (enterCatch (scripted host) g.scope param v >>= body)
      fun _ => playing host (g.goto base) := by
  have hleave : ∀ inner, Follows.Leading host g
      (playing host ((g.pushScope inner).goto entry)) (body inner)
      fun _ => playing host (g.goto base) := fun inner =>
    ((hb inner).leaveScope hg).landing fun _ => (hg.pushScope inner).steps hpop rfl
  have hdispatch := hg.bindCatch_caught host target param entry v
  have hi : ({ g.goto target with caught := some v } : Instance).instr? =
      some (.bindCatch param entry) := hg.instr_goto hbind
  refine .step hi ?_
  rw [Instance.dispatch, hdispatch, enterCatch, bind_assoc]
  refine .edit fun inner => ?_
  cases param with
  | none => exact hleave inner
  | some p =>
    have hp : p.hasSuspend false = false := holdsNone_get hplain hbind
    dsimp only
    rw [p.bind_scripted hh inner (some .let) v hp, bind_assoc]
    refine .after (fun _ => hleave inner) fun w c w' hc => ?_
    have hthrows : (p.bind host inner (some .let) v).OnlyThrows :=
      (p.bind_related hh.related (fun _ => trivial) inner (some .let) v fun _ => hh.suspends).2
    have hc := isJump_of_leavesCalls (hthrows w c w' hc)
    exact ⟨leads_of_not_jump hc, (hg.escape_over [inner] [] host hc target).2⟩

theorem protect_follows {settle : Except Abrupt Value → RunOn Taped Value}
    {handler : Value → RunOn Taped Value} {x : RunOn Taped Value} {enter entry exit : Nat}
    (hs : Settles host plan g onThrow onExit next settle)
    (hh : Handles host plan g onThrow onExit next handler)
    (henter : plan.get? enter = some (.enterTry onThrow onExit entry))
    (hexit : plan.get? exit = some (.exitTry next false))
    (hx : Follows.Leading host (g.inRegion onThrow onExit .body)
      (playing host ((g.inRegion onThrow onExit .body).goto entry)) x
      fun _ => playing host ((g.inRegion onThrow onExit .body).goto exit)) :
    Follows.Leading host g (playing host (g.goto enter)) (handled x handler >>= settle)
      fun _ => playing host (g.goto next) := by
  refine Follows.lead ?_ (hg.steps henter rfl)
  unfold handled
  rw [bind_assoc]
  refine hx.attempt (fun v => hs.normal .body exit v nofun hexit) fun c hc => ?_
  cases c with
  | throw v =>
    cases onThrow with
    | none =>
      cases hh
      exact hs.abrupt .body (.throw v) nofun hc fun signal h => by
        cases h
        cases onExit <;> rfl
    | some target =>
      obtain ⟨leave, hleave, hh⟩ := hh
      rw [escape_handle]
      refine (hh v).attempt (fun v => hs.normal .handler leave v nofun hleave) fun c hc => ?_
      refine hs.abrupt .handler c nofun hc fun signal _ => ?_
      cases onExit <;> rfl
  | ret | brk | cont | fatal =>
    refine hs.abrupt .body _ nofun hc fun signal h => ?_
    cases signal with
    | throw => simp [Abrupt.signal?] at h
    | ret | jump => cases onThrow <;> cases onExit <;> rfl

end Protection

end Resumable
