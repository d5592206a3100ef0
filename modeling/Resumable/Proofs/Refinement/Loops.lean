import Resumable.Proofs.Refinement.Effects

/-!
Scopes, blocks and loops in plans: each template follows the evaluation of its statement, given that
the code inside follows that of the parts.
-/

set_option autoImplicit false

namespace Resumable

open Taped (lift emit)

def Instance.inLoop (g : Instance) (labels : List String) (kind : LoopKind)
    (onContinue : Option Nat) (onBreak : Nat) : Instance :=
  { g with
    loops := ⟨labels, kind, onContinue, onBreak, g.scopes.length, g.frames.length⟩ :: g.loops }

namespace Instance.Ready

variable {plan : Plan} {around : List Breakable} {g : Instance}

theorem pushScope (hg : g.Ready plan around) (scope : ScopeId) :
    (g.pushScope scope).Ready plan around := by
  obtain ⟨hframes, hloops⟩ := hg.nested
  refine ⟨hg.plan_eq, hg.executing, hg.delegation, hg.awaiting, hg.caught, hg.loops, hg.continues,
    ⟨fun f hf => ?_, fun l hl => ?_⟩⟩
  · have := hframes f hf
    simp only [Instance.pushScope, List.length_cons]
    omega
  · have := hloops l hl
    simp only [Instance.pushScope, List.length_cons]
    omega

theorem pushFrame (hg : g.Ready plan around) (kind : FrameKind) :
    (g.pushFrame kind).Ready plan around := by
  obtain ⟨hframes, hloops⟩ := hg.nested
  refine ⟨hg.plan_eq, hg.executing, hg.delegation, hg.awaiting, hg.caught, hg.loops, hg.continues,
    ⟨fun f hf => ?_, fun l hl => ?_⟩⟩
  · simp only [Instance.pushFrame, List.mem_cons] at hf ⊢
    obtain rfl | hf := hf
    · exact ⟨Nat.le_refl _, Nat.le_refl _⟩
    · exact hframes f hf
  · have := hloops l hl
    simp only [Instance.pushFrame, List.length_cons]
    omega

theorem inLoop (hg : g.Ready plan around) (labels : List String) (kind : LoopKind)
    (onContinue : Option Nat) (onBreak : Nat) (hk : kind = .loop → onContinue.isSome = true) :
    (g.inLoop labels kind onContinue onBreak).Ready plan (⟨labels, kind⟩ :: around) := by
  obtain ⟨hframes, hloops⟩ := hg.nested
  refine ⟨hg.plan_eq, hg.executing, hg.delegation, hg.awaiting, hg.caught, ?_, fun l hl => ?_,
    ⟨fun f hf => ?_, fun l hl => ?_⟩⟩
  · simp only [Instance.inLoop, List.map_cons, hg.loops]
    rfl
  · simp only [Instance.inLoop, List.mem_cons] at hl
    obtain rfl | hl := hl
    · exact hk
    · exact hg.continues l hl
  · have := hframes f hf
    simp only [Instance.inLoop, List.length_cons]
    omega
  · simp only [Instance.inLoop, List.mem_cons] at hl ⊢
    obtain rfl | hl := hl
    · exact ⟨Nat.le_refl _, Nat.le_refl _⟩
    · exact hloops l hl

theorem leads (hg : g.Ready plan around) {c : Abrupt} (hc : c.LeadsIn around) :
    c.Leads g.loops :=
  leads_of_leadsIn hg.continues (by rw [hg.loops]; exact hc)

end Instance.Ready

abbrev Follows.Leading {α : Type} (host : Host) (g : Instance) (a : Play) (x : RunOn Taped α)
    (next : α → Play) : Prop :=
  Follows host g (·.Leads g.loops) a x next

section Scopes

variable {α : Type} {plan : Plan} {host : Host} {around : List Breakable} {g : Instance}
  (hg : g.Ready plan around)

include hg

theorem Instance.Ready.instr_goto {ip : Nat} {i : Instr} (h : plan.get? ip = some i) :
    (g.goto ip).instr? = some i := hg.instr [] [] h

theorem Instance.Ready.steps {ip : Nat} {i : Instr} {g' : Instance} (h : plan.get? ip = some i)
    (hd : (g.goto ip).dispatch host i = return .goOn g') (s : Taped) :
    (playing host (g.goto ip)).Leads s (playing host g') s := by
  refine ⟨1, fun m => ?_⟩
  rw [playing, Nat.add_comm, driven_goOn host m _ (hg.instr_goto h), hd]
  rfl

/-- The scope on top makes no difference to a completion. -/
theorem Follows.Leading.leaveScope {scope : ScopeId} {a : Play} {x : RunOn Taped α}
    {next : α → Play} (h : Follows.Leading host (g.pushScope scope) a x next) :
    Follows.Leading host g a x next := by
  refine h.level fun c hc => ⟨hc, ?_⟩
  exact escape_over hg.nested hc [scope] [] g.ip nofun

theorem block_follows {base next entry : Nat} {body : List Stmt} {push : Nat}
    (hpop : plan.get? base = some (.popScope next))
    (hpush : plan.get? push = some (.pushScope (declaredFunctions body) entry))
    (hb : ∀ inner, Follows.Leading host (g.pushScope inner)
      (playing host ((g.pushScope inner).goto entry))
      (execStmts (scripted host) inner .undefined body)
      fun _ => playing host ((g.pushScope inner).goto base)) :
    Follows.Leading host g (playing host (g.goto push))
      (do let inner ← enterBlock g.scope body
          execStmts (scripted host) inner .undefined body)
      fun _ => playing host (g.goto next) := by
  have henter : (enterBlock g.scope body >>= fun inner =>
      execStmts (scripted host) inner .undefined body) =
      (Run.edit (Edit.newScope g.scope) : RunOn Taped ScopeId) >>= fun inner =>
        lift (instantiate inner (declaredFunctions body)) >>= fun _ =>
          execStmts (scripted host) inner .undefined body := by
    simp only [enterBlock, bind_assoc, pure_bind, instantiate_lifted]
    rfl
  rw [henter]
  refine .step (hg.instr_goto hpush) (.edit fun inner => ?_)
  refine .after (fun _ => ?_) fun w c w' hc => ?_
  · refine ((hb inner).leaveScope hg).landing fun _ s => ?_
    exact (hg.pushScope inner).steps hpop rfl s
  · have hc := isJump_of_leavesCalls
      ((instantiate_related onlyThrows.toEvalRelation inner _ fun _ _ => trivial).2 w c w' hc)
    exact ⟨leads_of_not_jump hc, (hg.escape_over [inner] [] host hc push).2⟩

end Scopes

/-- Completions that a loop with these labels passes on to where they lead. -/
def Abrupt.Passes (labels : List String) (loops : List LoopScope) (c : Abrupt) : Prop :=
  c.Leads loops ∧ c.meantFor ⟨labels, .loop⟩ = false

theorem passes_of_not_jump {labels : List String} {loops : List LoopScope} {c : Abrupt}
    (h : c.isJump = false) : c.Passes labels loops := by
  refine ⟨leads_of_not_jump h, ?_⟩
  cases c with
  | ret | throw | fatal => rfl
  | brk | cont => cases h

section Loops

variable {plan : Plan} {host : Host} {around : List Breakable} {g : Instance}
  (hg : g.Ready plan around)

include hg

theorem escape_skip (host : Host) {labels : List String} {kind : LoopKind} {onContinue : Option Nat}
    {onBreak : Nat} {c : Abrupt}
    (hc : c.Leads (g.inLoop labels kind onContinue onBreak).loops)
    (hm : c.meantFor ⟨labels, kind⟩ = false) :
    c.Leads g.loops ∧
      escape host (g.inLoop labels kind onContinue onBreak) c = escape host g c := by
  let l : LoopScope := ⟨labels, kind, onContinue, onBreak, g.scopes.length, g.frames.length⟩
  have hleads : c.Leads g.loops := (leads_skip (l := l) hm).1 hc
  refine ⟨hleads, escape_over hg.nested hleads [] [l] g.ip fun l' hl => ?_⟩
  cases List.mem_singleton.1 hl
  exact hm

theorem loopBody_follows {labels : List String} {again past : Nat} {a : Play}
    {x : RunOn Taped Value}
    (hx : Follows.Leading host (g.inLoop labels .loop (some again) past) a x
      fun _ => playing host ((g.inLoop labels .loop (some again) past).goto again)) :
    Follows host g (·.Passes labels g.loops) a (loopBody labels x) fun go => playing host
      (if go then (g.inLoop labels .loop (some again) past).goto again else g.goto past) := by
  have hbreak : ∀ label, Breakable.isMeant label false ⟨labels, .loop⟩ = true →
      escape host (g.inLoop labels .loop (some again) past) (.brk label) =
        playing host (g.goto past) := fun label h =>
    escape_break (l := ⟨labels, .loop, some again, past, g.scopes.length, g.frames.length⟩)
      ((accepts_eq_isMeant _ _ _).trans h) rfl rfl [] g.ip
  have hcontinue : ∀ label, Breakable.isMeant label true ⟨labels, .loop⟩ = true →
      escape host (g.inLoop labels .loop (some again) past) (.cont label) =
        playing host ((g.inLoop labels .loop (some again) past).goto again) := fun label h =>
    escape_continue (l := ⟨labels, .loop, some again, past, g.scopes.length, g.frames.length⟩)
      ((accepts_eq_isMeant _ _ _).trans h) rfl rfl rfl [] g.ip
  have hpass : ∀ (c : Abrupt) (next : Bool → Play),
      c.Leads (g.inLoop labels .loop (some again) past).loops →
      c.meantFor ⟨labels, .loop⟩ = false → Follows host g (·.Passes labels g.loops)
        (escape host (g.inLoop labels .loop (some again) past) c) (Run.abrupt c) next := by
    intro c next hc hm
    obtain ⟨hleads, heq⟩ := escape_skip hg host hc hm
    rw [heq]
    exact .abrupt ⟨hleads, hm⟩
  refine hx.attempt (fun _ => Follows.pure (v := true)) fun c hc => ?_
  match c with
  | .cont none =>
    rw [hcontinue none rfl]
    exact Follows.pure (v := true)
  | .brk none =>
    rw [hbreak none rfl]
    exact Follows.pure (v := false)
  | .cont (some l) =>
    dsimp only
    split
    · rename_i hl
      rw [hcontinue (some l) hl]
      exact Follows.pure (v := true)
    · rename_i hl
      exact hpass _ _ hc (by simpa [Abrupt.meantFor, Breakable.isMeant] using hl)
  | .brk (some l) =>
    dsimp only
    split
    · rename_i hl
      rw [hbreak (some l) hl]
      exact Follows.pure (v := false)
    · rename_i hl
      exact hpass _ _ hc (by simpa [Abrupt.meantFor, Breakable.isMeant] using hl)
  | .ret _ | .throw _ | .fatal _ => exact hpass _ _ hc rfl

variable {labels : List String} {base next entry : Nat} {test body : RunOn Taped Value}

theorem whileLoop_follows (hexit : plan.get? base = some (.exitLoop next))
    (ht : Follows host g (·.isJump = false)
      (playing host ((g.inLoop labels .loop (some (base + 1)) next).goto (base + 1))) test
      fun v => playing host ((g.inLoop labels .loop (some (base + 1)) next).goto
        (if v.truthy then entry else base)))
    (hb : Follows.Leading host (g.inLoop labels .loop (some (base + 1)) next)
      (playing host ((g.inLoop labels .loop (some (base + 1)) next).goto entry)) body
      fun _ => playing host ((g.inLoop labels .loop (some (base + 1)) next).goto (base + 1)))
    (n : Nat) :
    Follows host g (·.Passes labels g.loops)
      (playing host ((g.inLoop labels .loop (some (base + 1)) next).goto (base + 1)))
      (whileLoop labels test body n) fun _ => playing host (g.goto next) := by
  have hk := hg.inLoop labels .loop (some (base + 1)) next fun _ => rfl
  induction n with
  | zero => exact .exhausted
  | succ n ih =>
    refine (ht.mono fun _ => passes_of_not_jump).bind fun v => ?_
    cases v.truthy with
    | true =>
      refine (loopBody_follows hg hb).bind fun go => ?_
      cases go with
      | true => exact ih
      | false => exact .here ()
    | false => exact (Follows.here ()).lead (hk.steps hexit rfl)

theorem doLoop_follows (hexit : plan.get? base = some (.exitLoop next))
    (ht : Follows host g (·.isJump = false)
      (playing host ((g.inLoop labels .loop (some (base + 1)) next).goto (base + 1))) test
      fun v => playing host ((g.inLoop labels .loop (some (base + 1)) next).goto
        (if v.truthy then entry else base)))
    (hb : Follows.Leading host (g.inLoop labels .loop (some (base + 1)) next)
      (playing host ((g.inLoop labels .loop (some (base + 1)) next).goto entry)) body
      fun _ => playing host ((g.inLoop labels .loop (some (base + 1)) next).goto (base + 1)))
    (n : Nat) :
    Follows host g (·.Passes labels g.loops)
      (playing host ((g.inLoop labels .loop (some (base + 1)) next).goto entry))
      (doLoop labels test body n) fun _ => playing host (g.goto next) := by
  have hk := hg.inLoop labels .loop (some (base + 1)) next fun _ => rfl
  induction n with
  | zero => exact .exhausted
  | succ n ih =>
    refine (loopBody_follows hg hb).bind fun go => ?_
    cases go with
    | true =>
      refine (ht.mono fun _ => passes_of_not_jump).bind fun v => ?_
      cases v.truthy with
      | true => exact ih
      | false => exact (Follows.here ()).lead (hk.steps hexit rfl)
    | false => exact .here ()

end Loops

/-- The instance in a loop with a head, which may have a scope of its own for its bindings. -/
def Instance.inHead (g : Instance) (ownScope : Bool) (scope : ScopeId) : Instance :=
  if ownScope then g.pushScope scope else g

section Heads

variable {plan : Plan} {host : Host} {around : List Breakable} {g : Instance}
  (hg : g.Ready plan around)

include hg

theorem Instance.Ready.inHead (ownScope : Bool) (scope : ScopeId) :
    (g.inHead ownScope scope).Ready plan around := by
  cases ownScope with
  | true => exact hg.pushScope scope
  | false => exact hg

theorem escape_inHead (host : Host) {c : Abrupt} (ownScope : Bool) (scope : ScopeId)
    (hc : c.Leads g.loops) :
    c.Leads (g.inHead ownScope scope).loops ∧
      escape host (g.inHead ownScope scope) c = escape host g c := by
  cases ownScope with
  | true => exact ⟨hc, escape_over hg.nested hc [scope] [] g.ip nofun⟩
  | false => exact ⟨hc, rfl⟩

variable {labels : List String} {ownScope : Bool} {exit after again entry update : Nat}
  {test : ScopeId → RunOn Taped Bool} {next body : ScopeId → RunOn Taped Value} {b : Play}

theorem headLoop_follows (hexit : plan.get? exit = some (.exitLoop after))
    (hcopy : if ownScope then plan.get? again = some (.copyScope update) else again = update)
    (ht : ∀ scope, (ownScope = false → scope = g.scope) → Follows host g (·.isJump = false)
      (playing host (((g.inHead ownScope scope).inLoop labels .loop (some again) after).goto
        (exit + 1))) (test scope)
      fun go => playing host (((g.inHead ownScope scope).inLoop labels .loop (some again)
        after).goto (if go then entry else exit)))
    (hb : ∀ scope, (ownScope = false → scope = g.scope) → Follows.Leading host
      ((g.inHead ownScope scope).inLoop labels .loop (some again) after)
      (playing host (((g.inHead ownScope scope).inLoop labels .loop (some again) after).goto entry))
      (body scope)
      fun _ => playing host (((g.inHead ownScope scope).inLoop labels .loop (some again)
        after).goto again))
    (hu : ∀ scope, (ownScope = false → scope = g.scope) → Follows host g (·.isJump = false)
      (playing host (((g.inHead ownScope scope).inLoop labels .loop (some again) after).goto
        update)) (next scope)
      fun _ => playing host (((g.inHead ownScope scope).inLoop labels .loop (some again)
        after).goto (exit + 1)))
    (hafter : ∀ scope s, (playing host ((g.inHead ownScope scope).goto after)).Leads s b s)
    (n : Nat) (scope : ScopeId) (hscope : ownScope = false → scope = g.scope) :
    Follows host g (·.Passes labels g.loops)
      (playing host (((g.inHead ownScope scope).inLoop labels .loop (some again) after).goto
        (exit + 1)))
      (headLoop labels ownScope test next body n scope) fun _ => b := by
  induction n generalizing scope with
  | zero => exact .exhausted
  | succ n ih =>
    have hhead := hg.inHead ownScope scope
    have hk := hhead.inLoop labels .loop (some again) after fun _ => rfl
    refine ((ht scope hscope).mono fun _ => passes_of_not_jump).bind fun go => ?_
    cases go with
    | false => exact (Follows.here ()).lead fun s => (hk.steps hexit rfl s).trans (hafter scope s)
    | true =>
      have hturn := loopBody_follows hhead (hb scope hscope)
      have hturn : Follows host g (·.Passes labels g.loops) _ _ _ := hturn.level fun c hc => by
        have hleads : c.Leads g.loops := by
          cases ownScope <;> exact hc.1
        exact ⟨⟨hleads, hc.2⟩, (escape_inHead hg host ownScope scope hleads).2⟩
      refine hturn.bind fun go => ?_
      cases go with
      | false => exact (Follows.here ()).lead (hafter scope)
      | true =>
        cases ownScope with
        | false =>
          cases hcopy
          exact ((hu scope hscope).mono fun _ => passes_of_not_jump).bind fun _ => ih scope hscope
        | true =>
          refine .step (hk.instr_goto hcopy) (.edit fun copy => ?_)
          exact ((hu copy nofun).mono fun _ => passes_of_not_jump).bind fun _ => ih copy nofun

end Heads

end Resumable
