import Resumable.Proofs.Refinement.Loops

/-!
Loops over iterators in plans. The iterator is a frame around the loop: it is closed where the
evaluation closes it, and a failing step leaves it open.
-/

set_option autoImplicit false

namespace Resumable

open Taped (lift emit)

section Patterns

variable {σ : Type} [HasWorld σ] (host : HostOn σ) (scope : ScopeId)

mutual

theorem Pattern.bind_var : (p : Pattern) → (v : Value) →
    p.bind host scope (some .var) v = p.bind host scope none v
  | .ident _, _ => rfl
  | .withDefault p e, v => by
    have hp := funext p.bind_var
    simp only [Pattern.bind, hp]
  | .array items, v => by
    have hi := fun r => bindItems_var r items false
    simp only [Pattern.bind, hi]
  | .object fields, v => by
    have hf := bindFields_var v fields
    simp only [Pattern.bind, hf]
  | .rest p, v => by
    have hp := p.bind_var v
    simp only [Pattern.bind, hp]

theorem bindItems_var (r : IteratorRecord) : (items : List (Option Item)) → (ended : Bool) →
    bindItems host scope (some .var) r items ended = bindItems host scope none r items ended
  | [], _ => rfl
  | none :: items, ended => by
    have hi := funext (bindItems_var r items)
    simp only [bindItems, hi]
  | some (.one p) :: items, ended => by
    have hp := funext p.bind_var
    have hi := funext (bindItems_var r items)
    simp only [bindItems, hp, hi]
  | some (.rest p) :: items, ended => by
    have hp := funext p.bind_var
    have hi := funext (bindItems_var r items)
    simp only [bindItems, hp, hi]

theorem bindFields_var (v : Value) : (fields : List Binder) →
    bindFields host scope (some .var) v fields = bindFields host scope none v fields
  | [] => rfl
  | .shorthand name :: fields => by
    have hf := bindFields_var v fields
    simp only [bindFields, hf]
    rfl
  | .keyed k p :: fields => by
    have hp := funext p.bind_var
    have hf := bindFields_var v fields
    simp only [bindFields, hp, hf]

end

end Patterns

theorem ForTarget.bind_scripted {host : Host} (hh : host.Proper) (scope : ScopeId)
    (target : ForTarget) (v : Value) (h : target.pattern.hasSuspend false = false) :
    target.bind (scripted host) scope scope v =
      lift (target.pattern.bind host scope target.kind? v) := by
  rw [← Pattern.bind_scripted hh scope _ v h]
  match target with
  | .declare .var p => exact p.bind_var (scripted host) scope v
  | .declare .let p | .declare .const p | .assign p => rfl

theorem turn_follows {plan : Plan} {host : Host} {around : List Breakable} {k : Instance}
    {target : ForTarget} {entry exit ip : Nat} (hk : k.Ready plan around) (hh : host.Proper)
    (hplain : HoldsNone false plan.code)
    (hmove : plan.get? ip = some (.moveNext target.kind? target.pattern entry exit false))
    (hpop : plan.get? (ip + 1) = some (.popScope ip)) {body : ScopeId → RunOn Taped Value}
    (hb : ∀ inner, Follows.Leading host (k.pushScope inner)
      (playing host ((k.pushScope inner).goto entry)) (body inner)
      fun _ => playing host ((k.pushScope inner).goto (ip + 1)))
    (v : Value) :
    Follows.Leading host k (onward host ((k.goto ip).bindElement host v))
      (iterationTurn (scripted host) k.scope target false body v)
      fun _ => playing host (k.goto ip) := by
  have hpattern : target.pattern.hasSuspend false = false := holdsNone_get hplain hmove
  have hturn : iterationTurn (scripted host) k.scope target false body v =
      (Run.edit (Edit.newScope k.scope) : RunOn Taped ScopeId) >>= fun inner =>
        lift (target.pattern.bind host inner target.kind? v) >>= fun _ => body inner := by
    refine congrArg _ (funext fun inner => ?_)
    rw [← target.bind_scripted hh inner v hpattern]
    rfl
  rw [hturn, Instance.bindElement, hk.instr_goto hmove]
  refine .edit fun inner => .after (fun _ => ?_) fun w c w' hc => ?_
  · refine ((hb inner).leaveScope hk).landing fun _ s => ?_
    exact (hk.pushScope inner).steps hpop rfl s
  · have hthrows : (target.pattern.bind host inner target.kind? v).OnlyThrows :=
      (Pattern.bind_related hh.related (fun _ => trivial) inner target.kind? target.pattern v
        fun _ => hh.suspends).2
    have hc := isJump_of_leavesCalls (hthrows w c w' hc)
    exact ⟨leads_of_not_jump hc, (hk.escape_over [inner] [] host hc ip).2⟩

section Iterators

variable {plan : Plan} {host : Host} {around : List Breakable} {g : Instance}
  (hg : g.Ready plan around) (hh : host.Proper) (r : IteratorRecord)

theorem closeIterator_scripted (hh : host.Proper) (iterator : Value) (throwing : Bool) :
    closeIterator (scripted host) iterator throwing = lift (closeIterator host iterator throwing) :=
  closeIterator_related (scripted_related hh) iterator throwing

theorem step_scripted (hh : host.Proper) :
    r.step (scripted host) = lift (r.callNext host []) >>= fun result =>
      Run.heap >>= fun h =>
        match malformed? h result with
        | some e => Run.fatal e
        | none => if (h.property result "done").truthy then pure none
          else pure (some (h.property result "value")) := by
  rewrite [IteratorRecord.step, ← callNext_related (scripted_related hh) r []]
  rfl

include hg hh

/-- A completion that leaves the frame of an iterator closes it first. -/
theorem iterator_escape {α : Type} {P : Abrupt → Prop} {c : Abrupt} {signal : Signal}
    {next : α → Play} (hP : ∀ c : Abrupt, c.isJump = false → P c) (hc : P c)
    (hsignal : c.signal? g.loops = some signal) :
    Follows host g P (escape host (g.pushFrame (.iterator r)) c)
      (do closeIterator (scripted host) r.iterator signal.isThrow
          Run.abrupt c) next := by
  have hclose : (closeIterator host r.iterator signal.isThrow).OnlyThrows :=
    (closeIterator_related hh.related r.iterator signal.isThrow).2
  have hreceive : (FrameKind.iterator r).receive signal = .close r.iterator := by
    cases signal <;> rfl
  have hframes : ∀ j, signal = .jump j → j.frames ≤ g.frames.length := by
    rintro j rfl
    exact (signal_bounds hg.nested hsignal).2.1
  -- the closing ends normally, with an exception or with a fatal error
  have hunwind : (g.pushFrame (.iterator r)).unwind host signal =
      g.after host (closeIterator host r.iterator signal.isThrow)
        fun _ => g.unwind host signal := by
    rw [unwind_close hframes hreceive]
    funext w
    simp only [Instance.after, bind, RunOn.bind, RunOn.attempt]
    cases hw : closeIterator host r.iterator signal.isThrow w with
    | done | exhausted => rfl
    | abrupt c' w' =>
      have hc' := hclose _ _ _ hw
      cases c' with
      | throw | fatal => rfl
      | ret | brk | cont => cases hc'
  rw [escape_signal (g := g.pushFrame (.iterator r)) hsignal, hunwind, closeIterator_scripted hh]
  refine .after (fun _ => ?_) fun w c' w' hc' => ?_
  · rw [← escape_signal hsignal]
    exact .abrupt hc
  · exact ⟨hP c' (isJump_of_leavesCalls (hclose w c' w' hc')), rfl⟩

variable {labels : List String} {base next close entry : Nat} {target : ForTarget}

theorem step_follows (hr : r.isAsync = false)
    (hmove : plan.get? (base + 2) =
      some (.moveNext target.kind? target.pattern entry (base + 1) false)) :
    Follows host g (·.isJump = false)
      (playing host (((g.pushFrame (.iterator r)).inLoop labels .loop (some (base + 2))
        close).goto (base + 2)))
      (r.step (scripted host))
      fun
        | none => playing host (((g.pushFrame (.iterator r)).inLoop labels .loop
            (some (base + 2)) close).goto (base + 1))
        | some v => onward host ((((g.pushFrame (.iterator r)).inLoop labels .loop
            (some (base + 2)) close).goto (base + 2)).bindElement host v) := by
  have hk := (hg.pushFrame (.iterator r)).inLoop labels .loop (some (base + 2)) close fun _ => rfl
  generalize hkdef : (g.pushFrame (.iterator r)).inLoop labels .loop (some (base + 2)) close = k at *
  have hiter : (k.goto (base + 2)).iterator? = some r := by
    rw [← hkdef]
    rfl
  have hinstr := hk.instr_goto hmove
  have hstep := step_scripted r hh
  have hdispatch : (k.goto (base + 2)).dispatch host
      (.moveNext target.kind? target.pattern entry (base + 1) false) =
      (k.goto (base + 2)).popFrame.after host (r.callNext host [])
        ((k.goto (base + 2)).iteratorResult host) := by
    funext w
    simp only [Instance.dispatch, Instance.moveNext, hiter, Instance.after, bind, RunOn.bind,
      RunOn.attempt]
    cases r.callNext host [] w <;> rfl
  rw [hstep]
  refine .step hinstr ?_
  rw [hdispatch]
  refine .after (fun result => .read fun h => ?_) fun w c w' hc => ?_
  · cases malformed? h result with
    | some e =>
      have hfail : onward host (return .stop (k.goto (base + 2)) (.failed e)) =
          escape host g (.fatal e) := by
        rw [escape_fatal]
        funext n
        exact driven_failed host n _ e
      exact hfail ▸ Follows.abrupt rfl
    | none =>
      have hawaits : (k.goto (base + 2)).awaitsElements = false := by
        simp [Instance.awaitsElements, hiter, hr]
      dsimp only
      split
      · rw [hinstr]
        exact Follows.pure (v := none)
      · rw [hawaits]
        exact Follows.pure (v := some (h.property result "value"))
  · have hthrows : (r.callNext host []).OnlyThrows := (callNext_related hh.related r []).2
    have hc := isJump_of_leavesCalls (hthrows w c w' hc)
    have hpop : (k.goto (base + 2)).popFrame = g.over []
        [⟨labels, .loop, some (base + 2), close, g.scopes.length, g.frames.length + 1⟩]
        (base + 2) := by
      rw [← hkdef]
      rfl
    rw [hpop]
    exact hg.escape_over _ _ host hc _

theorem iterationBody_follows {a : Play} {x : RunOn Taped Value}
    (hclose : plan.get? close = some (.exitTry next true))
    (hx : Follows.Leading host
      ((g.pushFrame (.iterator r)).inLoop labels .loop (some (base + 2)) close) a x
      fun _ => playing host (((g.pushFrame (.iterator r)).inLoop labels .loop (some (base + 2))
        close).goto (base + 2))) :
    Follows host g (·.Passes labels g.loops) a (iterationBody (scripted host) labels r x)
      fun go => playing host (if go then ((g.pushFrame (.iterator r)).inLoop labels .loop
        (some (base + 2)) close).goto (base + 2) else g.goto next) := by
  have hi := hg.pushFrame (.iterator r)
  have hescape : ∀ (c : Abrupt) (signal : Signal) (next : Bool → Play),
      c.Passes labels g.loops → c.signal? g.loops = some signal →
      Follows host g (·.Passes labels g.loops) (escape host (g.pushFrame (.iterator r)) c)
        (do closeIterator (scripted host) r.iterator signal.isThrow
            Run.abrupt c) next :=
    fun c signal next hc hs => iterator_escape hg hh r (fun _ => passes_of_not_jump) hc hs
  refine (loopBody_follows hi hx).attempt (fun go => ?_) fun c hc => ?_
  · cases go with
    | true => exact Follows.pure (v := true)
    | false =>
      refine .step (hi.instr_goto hclose) ?_
      dsimp only
      rw [closeIterator_scripted hh]
      refine Follows.after (o := g.goto next) (fun _ => Follows.pure (v := false)) fun w c w' hc => ?_
      have hc := isJump_of_leavesCalls
        ((closeIterator_related hh.related r.iterator false).2 w c w' hc)
      exact ⟨passes_of_not_jump hc, (hg.escape_over [] [] host hc next).2⟩
  · match c with
    | .fatal e =>
      rw [escape_fatal, ← escape_fatal host g]
      exact .abrupt hc
    | .throw v => exact hescape _ _ _ hc rfl
    | .ret v => exact hescape _ _ _ hc rfl
    | .brk label | .cont label =>
      obtain ⟨e, h⟩ | ⟨signal, hs⟩ := leads_cases hc.1
      · cases h
      · obtain ⟨j, -, rfl⟩ := Option.map_eq_some_iff.1 hs
        exact hescape _ _ _ hc hs

theorem iterationLoop_follows (hr : r.isAsync = false) {body : Value → RunOn Taped Value}
    (hend : plan.get? base = some (.exitTry next false))
    (hexit : plan.get? (base + 1) = some (.exitLoop base))
    (hmove : plan.get? (base + 2) =
      some (.moveNext target.kind? target.pattern entry (base + 1) false))
    (hclose : plan.get? close = some (.exitTry next true))
    (hb : ∀ v, Follows.Leading host
      ((g.pushFrame (.iterator r)).inLoop labels .loop (some (base + 2)) close)
      (onward host ((((g.pushFrame (.iterator r)).inLoop labels .loop (some (base + 2))
        close).goto (base + 2)).bindElement host v)) (body v)
      fun _ => playing host (((g.pushFrame (.iterator r)).inLoop labels .loop (some (base + 2))
        close).goto (base + 2)))
    (n : Nat) :
    Follows host g (·.Passes labels g.loops)
      (playing host (((g.pushFrame (.iterator r)).inLoop labels .loop (some (base + 2))
        close).goto (base + 2)))
      (iterationLoop (scripted host) labels r body n) fun _ => playing host (g.goto next) := by
  have hi := hg.pushFrame (.iterator r)
  have hk := hi.inLoop labels .loop (some (base + 2)) close fun _ => rfl
  induction n with
  | zero => exact .exhausted
  | succ n ih =>
    refine ((step_follows hg hh r hr hmove).mono fun _ => passes_of_not_jump).bind fun v? => ?_
    cases v? with
    | none =>
      exact (Follows.here ()).lead fun s => (hk.steps hexit rfl s).trans (hi.steps hend rfl s)
    | some v =>
      refine (iterationBody_follows hg hh r hclose (hb v)).bind fun go => ?_
      cases go with
      | true => exact ih
      | false => exact .here ()

end Iterators

theorem openIterator_isSync (host : Host) (v : Value) (overKeys : Bool) :
    RunOn.Gives (·.isAsync = false) (Instance.openIterator host v false overKeys) := by
  cases overKeys with
  | true => exact .bind fun _ => .bind fun _ => .bind fun _ => .bind fun _ => .pure rfl
  | false =>
    refine .bind fun m => ?_
    cases m with
    | none => exact .bind fun _ => .bind fun _ _ _ _ h => by cases h
    | some m =>
      refine .bind fun iterator => ?_
      dsimp only
      split
      · exact .bind fun _ => .bind fun _ => .pure rfl
      · exact .bind fun _ => .pure rfl

theorem openIterator_onlyThrows {host : Host} (hh : host.Proper) (v : Value) (overKeys : Bool) :
    (Instance.openIterator host v false overKeys).OnlyThrows := by
  cases overKeys with
  | true => exact (overKeys_related onlyThrows.toEvalRelation v).2
  | false => exact (ofValue_related hh.related v).2

theorem iteration_follows {plan : Plan} {host : Host} {around : List Breakable} {g : Instance}
    (hg : g.Ready plan around) (hh : host.Proper) (hplain : HoldsNone false plan.code)
    {labels : List String} {base next : Nat} {target : ForTarget} {subject : Expr}
    {overKeys : Bool} {b : Fragment}
    (hl : Lies plan.get? base
      (Fragment.iteration base next labels target subject false overKeys b).code)
    {x : ScopeId → RunOn Taped Value}
    (hb : ∀ r inner, Follows.Leading host
      (((g.pushFrame (.iterator r)).inLoop labels .loop (some (base + 2))
        (base + 4 + b.size)).pushScope inner)
      (playing host ((((g.pushFrame (.iterator r)).inLoop labels .loop (some (base + 2))
        (base + 4 + b.size)).pushScope inner).goto b.entry)) (x inner)
      fun _ => playing host ((((g.pushFrame (.iterator r)).inLoop labels .loop (some (base + 2))
        (base + 4 + b.size)).pushScope inner).goto (base + 3)))
    (n : Nat) :
    Follows host g (·.Passes labels g.loops)
      (playing host (g.goto (base + 4 + b.size + 2)))
      (do let r ← lift (do
            Instance.openIterator host (← subject.eval host g.scope none) false overKeys)
          iterationLoop (scripted host) labels r
            (iterationTurn (scripted host) g.scope target false x) n)
      fun _ => playing host (g.goto next) := by
  simp only [Fragment.iteration, lies_cons, lies_append, List.cons_append, Fragment.length_code]
    at hl
  obtain ⟨hend, hexit, hmove, hpop, -, hclose, henter, hopen, -⟩ := hl
  refine .step (hg.instr_goto hopen) ?_
  refine Follows.after_of (.bind fun v => openIterator_isSync host v overKeys) (fun r hr => ?_)
    fun w c w' hc => ?_
  · have hi := hg.pushFrame (.iterator r)
    have hk := hi.inLoop labels .loop (some (base + 2)) (base + 4 + b.size) fun _ => rfl
    have hloop := iterationLoop_follows hg hh r hr hend hexit hmove hclose
      (turn_follows hk hh hplain hmove hpop (hb r)) n
    exact hloop.lead (hi.steps henter rfl)
  · have hthrows := (eval_onlyThrows hh g.scope none subject).bind fun v =>
      openIterator_onlyThrows hh v overKeys
    have hc := isJump_of_leavesCalls (hthrows w c w' hc)
    exact ⟨passes_of_not_jump hc, (hg.escape_over [] [] host hc _).2⟩

end Resumable
