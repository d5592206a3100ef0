import Resumable.Proofs.Machine.Holding
import Resumable.Proofs.Plan.Valid
import Resumable.Realm

/-!
The positions that an instance holds: where it stands, and those that its frames, its loops and the
jumps pending in finally blocks keep for later. The check of a plan looks at the targets of single
instructions only, whoever wrote them. Main statement: `validate_suffices`: that is enough for every
position to stay inside the plan, in every run.
-/

set_option autoImplicit false

namespace Resumable

open RunOn (Gives)
open Instance (outermost)

def Signal.positions : Signal → List Nat
  | .jump j => [j.target]
  | .ret _ | .throw _ => []

/-- Where a frame in this phase goes on when it is done. -/
def Phase.positions : Phase → List Nat
  | .finalizer (some signal) => signal.positions
  | .body | .handler | .finalizer none => []

def FrameKind.positions : FrameKind → List Nat
  | .region onThrow onExit phase => onThrow.toList ++ onExit.toList ++ phase.positions
  | .iterator _ => []

def LoopScope.positions (s : LoopScope) : List Nat := s.onBreak :: s.onContinue.toList

def Instance.positions (g : Instance) : List Nat :=
  g.ip :: (g.frames.flatMap (·.kind.positions) ++ g.loops.flatMap LoopScope.positions)

/-- Whether an instance of a plan holds no position outside of it. -/
structure Instance.Within (plan : Plan) (g : Instance) : Prop where
  plan_eq : g.plan = plan
  ip_lt : g.ip < plan.length
  frames_lt : ∀ f ∈ g.frames, ∀ t ∈ f.kind.positions, t < plan.length
  loops_lt : ∀ s ∈ g.loops, ∀ t ∈ s.positions, t < plan.length

theorem outermost_subset {α : Type} (n : Nat) (stack : List α) : outermost n stack ⊆ stack :=
  List.drop_subset _ _

theorem enter_positions (kind : FrameKind) (phase : Phase) :
    (kind.enter phase).positions ⊆ kind.positions ++ phase.positions := by
  intro t ht
  cases kind with
  | iterator => cases ht
  | region onThrow onExit old =>
    simp only [FrameKind.enter, FrameKind.positions, List.mem_append] at ht ⊢
    exact ht.imp_left .inl

theorem receive_positions {kind : FrameKind} {signal : Signal} {target : Nat}
    (h : (∃ v, kind.receive signal = .handle target v) ∨ kind.receive signal = .finalize target) :
    target ∈ kind.positions := by
  obtain ⟨t, e, v, rfl, hr⟩ | ⟨t, e, p, rfl, -, hr⟩ | ⟨t, e, p, rfl, hr⟩ | ⟨r, rfl, hr⟩ :=
    receive_cases kind signal
  all_goals
    rw [hr] at h
    simp_all [FrameKind.positions]

theorem jumpAmong_positions {label : Option String} {isContinue : Bool} {loops : List LoopScope}
    {j : Jump} (h : jumpAmong label isContinue loops = some j) :
    ∃ s ∈ loops, j.target ∈ s.positions := by
  induction loops with
  | nil => cases h
  | cons s outer ih =>
    rw [jumpAmong] at h
    split at h
    · refine ⟨s, List.mem_cons_self, ?_⟩
      split at h
      · obtain ⟨target, htarget, rfl⟩ := Option.map_eq_some_iff.1 h
        simp [LoopScope.positions, htarget]
      · cases h
        exact List.mem_cons_self
    · obtain ⟨s', hs', ht⟩ := ih h
      exact ⟨s', List.mem_cons_of_mem s hs', ht⟩

/-- Whether all positions that a frame holds have a property. -/
def Frame.HoldsAt (P : Nat → Prop) (f : Frame) : Prop := ∀ t ∈ f.kind.positions, P t

/-- Whether all positions that loops hold have a property. -/
def LoopsAt (P : Nat → Prop) (loops : List LoopScope) : Prop :=
  ∀ s ∈ loops, ∀ t ∈ s.positions, P t

section Positions

variable {P : Nat → Prop} {f : Frame} {loops : List LoopScope}

theorem LoopsAt.subset {loops' : List LoopScope} (h : LoopsAt P loops) (hs : loops' ⊆ loops) :
    LoopsAt P loops' := fun s hl => h s (hs hl)

theorem Frame.HoldsAt.takes {target : Nat} (h : f.HoldsAt P) (ht : f.Takes target) : P target :=
  h target (ht.elim fun _ => receive_positions)

theorem Frame.HoldsAt.enter {phase : Phase} (h : f.HoldsAt P) (hp : ∀ t ∈ phase.positions, P t) :
    Frame.HoldsAt P { f with kind := f.kind.enter phase } :=
  fun t ht => (List.mem_append.1 (enter_positions _ _ ht)).elim (h t) (hp t)

theorem Frame.HoldsAt.finalizer {s : Option Signal} (h : f.HoldsAt P)
    (hs : ∀ j, s = some (.jump j) → P j.target) :
    Frame.HoldsAt P { f with kind := f.kind.enter (.finalizer s) } := by
  refine h.enter fun t ht => ?_
  rcases s with _ | _ | _ | j
  · cases ht
  · cases ht
  · cases ht
  · rw [List.mem_singleton.1 ht]
    exact hs j rfl

theorem Frame.HoldsAt.pending {j : Jump} (h : f.HoldsAt P) (hp : f.pending? = some (.jump j)) :
    P j.target := by
  rw [Frame.pending?] at hp
  split at hp
  · rename_i pending hkind
    refine h _ ?_
    rw [hkind, hp]
    exact List.mem_append_right _ (List.mem_singleton_self _)
  · cases hp

theorem LoopsAt.leap {label : Option String} {isContinue : Bool} {j : Jump} (h : LoopsAt P loops)
    (hj : jumpAmong label isContinue loops = some j) : P j.target := by
  obtain ⟨s, hs, ht⟩ := jumpAmong_positions hj
  exact h s hs _ ht

end Positions

def Holding.within (plan : Plan) : Holding where
  plan := plan
  around p := p.ip < plan.length ∧ LoopsAt (· < plan.length) p.loops
  stands p := p.ip < plan.length ∧ LoopsAt (· < plan.length) p.loops
  frame f := f.HoldsAt (· < plan.length)
  jump j := j.target < plan.length
  leaps := True
  around_of_stands := id
  cut hp _ := ⟨hp.1, hp.2.subset (outermost_subset _ _)⟩
  enter hp hf ht := ⟨hf.takes ht, hp.2.subset (outermost_subset _ _)⟩
  land hp hj := ⟨hj, hp.2.subset (outermost_subset _ _)⟩
  phase := Frame.HoldsAt.finalizer
  handler hf := hf.enter nofun
  leap _ hp hj := hp.2.leap hj

theorem within_iff {plan : Plan} {g : Instance} : g.Within plan ↔ g.Holds (.within plan) :=
  ⟨fun h => ⟨h.plan_eq, ⟨h.ip_lt, h.loops_lt⟩, h.frames_lt⟩,
    fun h => ⟨h.plan_eq, h.stands.1, h.frames, h.stands.2⟩⟩

section Steps

variable {plan : Plan} {g g' : Instance} (host : Host)

theorem Instance.Within.same (hg : g.Within plan)
    (h : (g'.plan, g'.ip, g'.frames, g'.loops) = (g.plan, g.ip, g.frames, g.loops)) :
    g'.Within plan := by
  simp only [Prod.mk.injEq] at h
  obtain ⟨hplan, hip, hframes, hloops⟩ := h
  exact ⟨hplan.trans hg.plan_eq, hip ▸ hg.ip_lt, hframes ▸ hg.frames_lt, hloops ▸ hg.loops_lt⟩

theorem Turn.Keeps.within {t : Turn} (h : t.Keeps (.within plan)) : t.subject.Within plan :=
  within_iff.2 ⟨h.bears.plan_eq, h.bears.around, h.bears.frames⟩

section Closed

variable (hp : plan.Closed)

include hp

theorem Plan.Closed.get?_targets {ip : Nat} {i : Instr} (h : plan.get? ip = some i) :
    ∀ t ∈ i.targets, t < plan.length :=
  hp.targets_lt i (List.mem_of_getElem? h)

variable (hg : g.Holds (.within plan))

include hg

theorem Instance.Holds.within_goto {i : Instr} (hi : g.instr? = some i) {t : Nat}
    (ht : t ∈ i.targets) : Holding.stands (.within plan) (g.place.goto t) := by
  rw [Instance.instr?, hg.plan_eq] at hi
  exact ⟨hp.get?_targets hi t ht, hg.stands.2⟩

theorem Instance.Holds.within_onward : g.Onward (.within plan) where
  store slot next hi := hg.within_goto hp hi (by simp)
  suspend i next slot past hi _ hn hstore := by
    refine ⟨hg.within_goto hp hi hn, ?_, hg.stands.2⟩
    rw [hg.plan_eq] at hstore
    exact hp.get?_targets hstore past (by simp)

omit hp in
theorem pushScope_within (scope : ScopeId) : (g.pushScope scope).Holds (.within plan) :=
  ⟨hg.plan_eq, hg.stands, hg.frames⟩

theorem bindElement_within (v : Value) :
    Gives (Turn.Keeps (.within plan)) (g.bindElement host v) := by
  unfold Instance.bindElement
  split
  · rename_i body _ _ hi
    have hbody := hg.within_goto hp hi (t := body) (by simp)
    refine .bind fun scope => ?_
    have hpush := pushScope_within hg scope
    exact after_holds hpush.bears (.inl trivial) fun _ => .pure (goOn_keeps (hpush.goto hbody))
  · exact .pure (goOn_keeps hg)

theorem iteratorResult_within (result : Value) :
    Gives (Turn.Keeps (.within plan)) (g.iteratorResult host result) := by
  refine .bind fun h => ?_
  cases malformed? h result with
  | some e => exact .pure (pause_keeps hg)
  | none =>
    dsimp only
    split
    · split
      · rename_i exit _ hi
        exact .pure (goOn_keeps (hg.goto (hg.within_goto hp hi (by simp))))
      · exact .pure (goOn_keeps hg)
    · split
      · exact .pure (pause_keeps (hg.same rfl))
      · exact bindElement_within host hp hg _

theorem moveNext_within (isAsync : Bool) :
    Gives (Turn.Keeps (.within plan)) (g.moveNext host isAsync) := by
  unfold Instance.moveNext
  cases g.iterator? with
  | none => exact .bind fun e => unwind_holds hg.bears (by simp)
  | some record =>
    refine attempt_holds (.inl trivial) (fun result => ?_) fun c hc =>
      complete_holds hg.bears.popFrame hc
    dsimp only
    split
    · exact .pure (pause_keeps (hg.same rfl))
    · exact iteratorResult_within host hp hg result

/-- The targets of an instruction are all that it adds to the positions of an instance. -/
theorem dispatch_within {i : Instr} (hi : g.instr? = some i) :
    Gives (Turn.Keeps (.within plan)) (g.dispatch host i) := by
  have hgo {t : Nat} (ht : t ∈ i.targets) : (g.goto t).Holds (.within plan) :=
    hg.goto (hg.within_goto hp hi ht)
  have ht {t : Nat} (ht : t ∈ i.targets) : t < plan.length := (hg.within_goto hp hi ht).1
  cases i with
  | evaluate s next =>
    exact after_holds hg.bears (.inl trivial) fun _ => .pure (goOn_keeps (hgo (by simp)))
  | branch c onTrue onFalse =>
    refine after_holds hg.bears (.inl trivial) fun v => .pure (goOn_keeps (hgo ?_))
    split <;> simp
  | yield operand next | await operand next =>
    exact after_holds hg.bears (.inl trivial) fun _ =>
      .pure (pause_keeps ((hgo (t := next) (by simp)).same rfl))
  | yieldStar =>
    exact after_holds hg.bears (.inl trivial) fun _ =>
      startDelegation_holds hg (.inl trivial) (hg.within_onward hp) _
  | store => exact storeResume_holds hg (hg.within_onward hp) _
  | jump target => exact .pure (goOn_keeps (hgo (by simp)))
  | enterTry onThrow onExit next =>
    refine .pure (goOn_keeps ⟨hg.plan_eq, (hgo (by simp)).stands,
      List.forall_mem_cons.2 ⟨fun t h => ht ?_, hg.frames⟩⟩)
    have h : onThrow = some t ∨ onExit = some t := by
      simpa [FrameKind.positions, Phase.positions] using h
    simp [h]
  | exitTry next close =>
    exact exitTry_holds hg trivial (hgo (by simp)).stands
      (fun f hf target ht => ⟨(hg.frames f hf).takes ht, hg.stands.2⟩) close
  | bindCatch param next =>
    refine .bind fun scope => ?_
    have hcaught : Instance.Holds (.within plan) { g.pushScope scope with caught := none } :=
      ⟨hg.plan_eq, hg.stands, hg.frames⟩
    have hnext := hgo (t := next) (by simp)
    cases param with
    | none => exact .pure (goOn_keeps (hcaught.goto hnext.stands))
    | some p =>
      exact after_holds hcaught.bears (.inl trivial) fun _ =>
        .pure (goOn_keeps (hcaught.goto hnext.stands))
  | endFinally next =>
    exact endFinally_holds hg (hgo (by simp)).stands fun f hf j hj =>
      (hg.frames f hf).pending hj
  | pushScope functions next =>
    have hnext := hgo (t := next) (by simp)
    exact .bind fun scope => after_holds (pushScope_within hg scope).bears (.inl trivial) fun _ =>
      .pure (goOn_keeps ((pushScope_within hg scope).goto hnext.stands))
  | popScope next =>
    have hpop : g.popScope.Holds (.within plan) := ⟨hg.plan_eq, hg.stands, hg.frames⟩
    exact .pure (goOn_keeps (hpop.goto (hgo (by simp)).stands))
  | copyScope next =>
    refine .bind fun scope => .pure (goOn_keeps ?_)
    have hnext := hgo (t := next) (by simp)
    rw [Instance.replaceScope]
    split <;> exact ⟨hg.plan_eq, hnext.stands, hg.frames⟩
  | enterLoop labels kind onContinue onBreak next =>
    refine .pure (goOn_keeps ⟨hg.plan_eq, ⟨ht (t := next) (by simp),
      List.forall_mem_cons.2 ⟨fun t h => ht ?_, hg.stands.2⟩⟩, hg.frames⟩)
    exact List.mem_cons_of_mem next h
  | exitLoop next =>
    exact .pure (goOn_keeps ⟨hg.plan_eq, ⟨ht (t := next) (by simp),
      hg.stands.2.subset (List.tail_sublist _).subset⟩, hg.frames⟩)
  | brk | cont => exact jump_holds trivial hg.bears _ _
  | openIterator e isAsync overKeys next =>
    exact after_holds hg.bears (.inl trivial) fun record =>
      .pure (goOn_keeps ⟨hg.plan_eq, (hgo (by simp)).stands,
        List.forall_mem_cons.2 ⟨(by rintro _ ⟨⟩), hg.frames⟩⟩)
  | moveNext => exact moveNext_within host hp hg _
  | ret | throw =>
    exact after_holds hg.bears (.inl trivial) fun _ => unwind_holds hg.bears (by simp)

theorem settled_within (awaiting : Option AwaitKind) (s : Settlement) :
    Gives (Turn.Keeps (.within plan)) (g.settled host awaiting s) := by
  have ho := hg.within_onward hp
  cases s with
  | fulfilled v =>
    match awaiting with
    | some .delegate => exact delegateResult_holds hg ho v
    | some .result => exact iteratorResult_within host hp hg v
    | some .element => exact bindElement_within host hp hg v
    | some .value | none => exact storeResume_holds hg ho v
  | rejected v =>
    match awaiting with
    | some .delegate => exact passOn_holds hg (.inl trivial) ho _ v
    | some .result => exact unwind_holds hg.bears.popFrame (by simp)
    | some .element | some .value | none => exact unwind_holds hg.bears (by simp)

theorem resumed_within (a : Action) : Gives (Turn.Keeps (.within plan)) (g.resumed host a) := by
  have hfree : Instance.Holds (.within plan) { g with awaiting := none } := hg.same rfl
  have ho := hfree.within_onward hp
  cases a with
  | settled s => exact settled_within host hp hfree _ s
  | delegateDone v => exact delegateDone_holds hfree ho v
  | delegateThrew v =>
    have hdone : Instance.Holds (.within plan)
        (Instance.endDelegation { g with awaiting := none }) := hg.same rfl
    exact unwind_holds hdone.bears (by simp)
  | next v => exact passOn_holds hfree (.inl trivial) ho .next v
  | throw v | ret v =>
    unfold Instance.resumed
    dsimp only
    split
    · exact passOn_holds hfree (.inl trivial) ho _ v
    · exact unwind_holds hfree.bears (by simp)

end Closed

end Steps

def Turn.rest : Turn → Instance
  | .goOn g => g
  | .pause g p => g.settle p

/-- Whether an instance finds an instruction where it stands, and behind a suspend instruction the
store of what it is resumed with. -/
def Instance.Fetches (g : Instance) : Prop :=
  ∃ i, g.instr? = some i ∧ (i.isSuspend = true →
    ∃ next slot past, i.targets = [next] ∧ g.plan.get? next = some (.store slot past))

section Runs

variable {plan : Plan} {host : Host} {base : ScopeId} {isAsync : Bool} {g : Instance} {t : Turn}

theorem Instance.Within.positions (hg : g.Within plan) : ∀ t ∈ g.positions, t < plan.length := by
  intro t ht
  simp only [Instance.positions, List.mem_cons, List.mem_append, List.mem_flatMap] at ht
  obtain rfl | ⟨f, hf, ht⟩ | ⟨s, hs, ht⟩ := ht
  · exact hg.ip_lt
  · exact hg.frames_lt f hf t ht
  · exact hg.loops_lt s hs t ht

theorem Instance.Within.fetches (hp : plan.Closed) (hg : g.Within plan) : g.Fetches := by
  obtain ⟨i, hi⟩ : ∃ i, plan.get? g.ip = some i := ⟨_, List.getElem?_eq_getElem hg.ip_lt⟩
  rw [Instance.Fetches, Instance.instr?, hg.plan_eq]
  exact ⟨i, hi, hp.stores i (List.mem_of_getElem? hi)⟩

theorem Turn.rest_within (h : t.subject.Within plan) : t.rest.Within plan := by
  cases t with
  | goOn g => exact h
  | pause g p =>
    have hfinish : g.finish.Within plan :=
      ⟨h.plan_eq, h.ip_lt, List.forall_mem_nil _, List.forall_mem_nil _⟩
    match p with
    | .delegate _ _ | .stop (.yielded _) | .stop (.awaiting _) => exact h.same rfl
    | .stop (.returned _) | .stop (.threw _) | .stop (.failed _) => exact hfinish

theorem Instance.MayBecome.within {g' : Instance} (h : g.MayBecome g') (hg : g.Within plan) :
    g'.Within plan :=
  hg.same (by rw [h.plan_eq, h.ip_eq, h.frames_eq, h.loops_eq])

theorem Reached.within (hp : plan.Closed) (h : Reached host (.running plan base isAsync) t) :
    t.subject.Within plan := by
  induction h with
  | start a =>
    have hstart : (Instance.running plan base isAsync).Within plan :=
      ⟨rfl, hp.entry_lt, List.forall_mem_nil _, List.forall_mem_nil _⟩
    cases a <;> exact hstart
  | dispatch _ hi hd ih => exact (dispatch_within host hp (within_iff.1 ih) hi _ _ _ hd).within
  | resume _ _ hg hr ih =>
    exact (resumed_within host hp (within_iff.1 (hg.within ih)) _ _ _ _ hr).within

end Runs

/-- In every run of a plan that passes the check, whoever made it, an instance only holds positions
of its plan, and finds an instruction wherever it looks for one. -/
theorem validate_suffices {plan : Plan} (h : plan.validate = .ok ()) (host : Host) (base : ScopeId)
    (isAsync : Bool) {t : Turn} (ht : Reached host (.running plan base isAsync) t) :
    ∀ g ∈ [t.subject, t.rest],
      g.plan = plan ∧ (∀ position ∈ g.positions, position < plan.length) ∧ g.Fetches := by
  have hp := validate_iff_closed.1 h
  have hsubject := ht.within hp
  have hend {g : Instance} (hg : g.Within plan) :
      g.plan = plan ∧ (∀ position ∈ g.positions, position < plan.length) ∧ g.Fetches :=
    ⟨hg.plan_eq, hg.positions, hg.fetches hp⟩
  have hrest := t.rest_within hsubject
  exact List.forall_mem_cons.2 ⟨hend hsubject, List.forall_mem_singleton.2 (hend hrest)⟩

/-- A `break` that waits for the end of a finally block, in a plan written by hand. -/
theorem validate_suffices_pending :
    let plan : Plan := ⟨[.ret none, .enterLoop [] .loop (some 2) 0 2, .enterTry none (some 4) 3,
      .brk none, .endFinally 0], 1, []⟩
    ∃ g : Instance, Reached (.withFuel 8) (.running plan 0 false) (.goOn g) ∧
      g.positions = [4, 4, 0, 0, 2] ∧ ∀ position ∈ g.positions, position < plan.length := by
  intro plan
  have hstart : Reached (.withFuel 8) (.running plan 0 false) _ := .start (.next .undefined)
  have hloop := hstart.dispatch (i := .enterLoop [] .loop (some 2) 0 2) (w := .blank) rfl rfl
  have htry := hloop.dispatch (i := .enterTry none (some 4) 3) (w := .blank) rfl rfl
  have hbrk := htry.dispatch (i := .brk none) (w := .blank) rfl rfl
  exact ⟨_, hbrk, rfl, (validate_suffices rfl _ _ _ hbrk _ List.mem_cons_self).2.1⟩

end Resumable
