import Resumable.Proofs.Lifecycle.Growth
import Resumable.Proofs.Machine.Bounds
import Resumable.Proofs.Plan.Colours

/-!
What one step does to the scopes and the loops of an instance. Each scope stands in the next one out; a
step opens one scope at most, and only the ends of turns lead to where a loop is between two turns. Main
statements: `dispatch_becomes`, `resumed_becomes`.
-/

set_option autoImplicit false

namespace Resumable

open RunOn (Gives)
open Instance (outermost)

namespace Scopes

/-- Whether each scope of a stack stands in the next one, and the last one in the base. -/
def Nest (s : Scopes) (base : ScopeId) : List ScopeId → Prop
  | [] => base < s.all.size
  | a :: rest => s.Under a (rest.headD base) ∧ s.Nest base rest

namespace Nest

variable {s t : Scopes} {base a : ScopeId} {stack stack' : List ScopeId}

theorem later (h : s.Nest base stack) (he : s.Extends t) : t.Nest base stack := by
  induction stack with
  | nil => exact Nat.lt_of_lt_of_le h he.size_le
  | cons a rest ih => exact ⟨h.1.later he, ih h.2⟩

theorem suffix (h : s.Nest base stack) (hs : stack' <:+ stack) : s.Nest base stack' := by
  induction stack with
  | nil =>
    rw [List.suffix_nil.1 hs]
    exact h
  | cons a rest ih =>
    obtain rfl | hs := List.suffix_cons_iff.1 hs
    · exact h
    · exact ih h.2 hs

theorem head_lt (h : s.Nest base stack) : stack.headD base < s.all.size := by
  cases stack with
  | nil => exact h
  | cons a rest => exact h.1.exists_lt

theorem mem_chain (h : s.Nest base stack) (ha : a ∈ stack) : a ∈ s.chain (stack.headD base) := by
  induction stack with
  | nil => cases ha
  | cons b rest ih =>
    obtain rfl | ha := List.mem_cons.1 ha
    · exact s.mem_chain_self a
    · exact h.1.mem_chain (ih h.2 ha)

end Nest

end Scopes

theorem length_outermost_le {α : Type} (n : Nat) (stack : List α) :
    (outermost n stack).length ≤ n := by
  simp only [outermost, List.length_drop]
  omega

/-- Whether a position is not between two turns of a loop. -/
def Colours.Idle (C : Colours) (k : Nat) : Prop := ∀ start, C k ≠ some (.between start)

theorem idle_of_none {C : Colours} {k : Nat} (h : C k = none) : C.Idle k := fun start => by simp [h]

/-- An instruction leads between two turns of a loop only from there, unless it is the copy of the
bindings or enters the loop. -/
theorem Instr.Respects.target {plan : Plan} {C : Colours} {ip a : Nat} {i : Instr}
    (h : i.Respects plan C ip) (hcopy : ∀ next, i ≠ .copyScope next)
    (henter : ∀ labels kind onContinue onBreak next,
      i ≠ .enterLoop labels kind onContinue onBreak next) (ha : a ∈ i.targets) :
    C.Idle a ∨ C a = C ip := by
  cases i with
  | copyScope next => exact absurd rfl (hcopy next)
  | enterLoop => exact absurd rfl (henter _ _ _ _ _)
  | moveNext kind pattern body exit isAsync =>
    obtain ⟨-, hbody, hexit⟩ := h
    obtain rfl | rfl : a = body ∨ a = exit := by simpa using ha
    · exact .inl (idle_of_none hbody)
    · exact .inl fun start => by simp [hexit]
  | exitLoop next =>
    rw [List.mem_singleton.1 ha]
    obtain ⟨hip | hip, hnext⟩ := h <;> exact .inl fun start => by simp [hnext, hip]
  | exitTry next close =>
    rw [List.mem_singleton.1 ha]
    exact .inl (idle_of_none h.2.1)
  | jump target =>
    rw [List.mem_singleton.1 ha]
    exact .inl (idle_of_none h.2)
  | yield operand next | yieldStar operand next | await operand next | store slot next =>
    rw [List.mem_singleton.1 ha]
    exact .inr h.2
  | evaluate s next =>
    cases s with
    | expr e =>
      rw [List.mem_singleton.1 ha]
      exact .inr h.2
    | _ => exact .inl (idle_of_none (h.2 a ha))
  | _ => exact .inl (idle_of_none (h.2 a ha))

/-- Whether a place has lost something at most of what another one has around it. -/
structure Place.Left (C : Colours) (q p : Place) : Prop where
  base_eq : p.base = q.base
  scopes : p.scopes <:+ q.scopes
  loops : p.loops <:+ q.loops
  idle : LoopsAt C.Idle p.loops

namespace Place.Left

variable {C : Colours} {q p : Place}

theorem cut (h : q.Left C p) (scopes loops : Nat) : q.Left C (p.cut scopes loops) :=
  ⟨h.base_eq, (List.drop_suffix _ _).trans h.scopes, (List.drop_suffix _ _).trans h.loops,
    h.idle.subset (outermost_subset _ _)⟩

theorem goto (h : q.Left C p) (ip : Nat) : q.Left C (p.goto ip) :=
  ⟨h.base_eq, h.scopes, h.loops, h.idle⟩

end Place.Left

/-- That nothing is held that is not held at a place, and that nothing but going on from one position to
the next leads between two turns of a loop. -/
def Holding.left (plan : Plan) (C : Colours) (q : Place) : Holding where
  plan := plan
  around := q.Left C
  stands p := q.Left C p ∧ (C.Idle p.ip ∨ p.loops = q.loops ∧ p.scopes = q.scopes ∧ C p.ip = C q.ip)
  frame f := f.HoldsAt C.Idle
  jump j := C.Idle j.target
  leaps := True
  around_of_stands h := h.1
  cut hp _ := hp.cut _ _
  enter hp hf ht := ⟨(hp.cut _ _).goto _, .inl (hf.takes ht)⟩
  land hp hj := ⟨(hp.cut _ _).goto _, .inl hj⟩
  phase := Frame.HoldsAt.finalizer
  handler hf := hf.enter nofun
  leap _ hp hj := hp.idle.leap hj

/-- Whether the frames and loops of an instance do not lead between two turns of a loop. -/
structure Instance.Tidy (plan : Plan) (C : Colours) (g : Instance) : Prop where
  plan_eq : g.plan = plan
  frames : ∀ f ∈ g.frames, f.HoldsAt C.Idle
  loops : LoopsAt C.Idle g.loops

/-- Whether what an instance does in a world keeps what it held there, inside of one more scope at
most. -/
def Instance.Becomes (plan : Plan) (C : Colours) (g : Instance) (w : World) (x : Run Turn) : Prop :=
  ∀ t w', x w = .done t w' → ∃ scopes, w'.scopes.Nest g.base scopes ∧
    (scopes = g.scopes ∨ ∃ a, scopes = a :: g.scopes) ∧ t.Keeps (.left plan C { g.place with scopes })

theorem newScope_apply (parent : ScopeId) (w : World) :
    (Run.edit (Edit.newScope parent) : Run ScopeId) w =
      .done (w.scopes.alloc ⟨.empty, some parent⟩).1
        { w with scopes := (w.scopes.alloc ⟨.empty, some parent⟩).2 } := rfl

section Steps

variable {plan : Plan} {C : Colours} {host : Host} {g : Instance} {w w' : World} {t : Turn}

theorem Instance.Tidy.holds (h : g.Tidy plan C) : g.Holds (.left plan C g.place) :=
  ⟨h.plan_eq, ⟨⟨rfl, List.suffix_rfl, List.suffix_rfl, h.loops⟩, .inr ⟨rfl, rfl, rfl⟩⟩, h.frames⟩

theorem Instance.Tidy.same {g' : Instance} (h : g.Tidy plan C)
    (he : (g'.plan, g'.frames, g'.loops) = (g.plan, g.frames, g.loops)) : g'.Tidy plan C := by
  simp only [Prod.mk.injEq] at he
  obtain ⟨hplan, hframes, hloops⟩ := he
  exact ⟨hplan.trans h.plan_eq, hframes ▸ h.frames, hloops ▸ h.loops⟩

theorem Instance.Tidy.pushScope (h : g.Tidy plan C) (scope : ScopeId) :
    (g.pushScope scope).Tidy plan C := ⟨h.plan_eq, h.frames, h.loops⟩

section Closed

variable (hC : C.Paint plan) (hg : g.Tidy plan C)

include hC hg

theorem Instance.Tidy.stands {i : Instr} (hi : g.instr? = some i)
    (hcopy : ∀ next, i ≠ .copyScope next) (henter : ∀ labels kind onContinue onBreak next,
      i ≠ .enterLoop labels kind onContinue onBreak next) {a : Nat} (ha : a ∈ i.targets) :
    Holding.stands (.left plan C g.place) (g.place.goto a) := by
  rw [Instance.instr?, hg.plan_eq] at hi
  exact ⟨hg.holds.stands.1.goto a, ((hC.respects _ _ hi).target hcopy henter ha).imp_right
    fun h => ⟨rfl, rfl, h⟩⟩

theorem Instance.Tidy.onward : g.Onward (.left plan C g.place) where
  store slot next hi := hg.stands hC hi (by simp) (by simp) (by simp)
  suspend i next slot past hi hs hn hstore := by
    have hnext : C next = C g.ip := by
      rw [Instance.instr?, hg.plan_eq] at hi
      have h := hC.respects _ _ hi
      cases i with
      | yield | yieldStar | await =>
        rw [List.mem_singleton.1 hn]
        exact h.2
      | _ => cases hs
    have hpast : C past = C next := by
      rw [hg.plan_eq] at hstore
      exact (hC.respects _ _ hstore).2
    exact ⟨⟨hg.holds.stands.1.goto next, .inr ⟨rfl, rfl, hnext⟩⟩,
      ⟨hg.holds.stands.1.goto past, .inr ⟨rfl, rfl, hpast.trans hnext⟩⟩⟩

end Closed

section Dispatch

variable (hC : C.Paint plan) (hh : host.Grows) (hg : g.Tidy plan C)
  (hn : w.scopes.Nest g.base g.scopes)

include hn

theorem becomes_of_gives {x : Run Turn} (hx : x.Grows) (hk : Gives (Turn.Keeps (.left plan C g.place)) x) :
    g.Becomes plan C w x :=
  fun _ _ h => ⟨g.scopes, hn.later (hx.done h).scopes, .inl rfl, hk _ _ _ h⟩

theorem becomes_of_bind {α : Type} {x : Run α} {f : α → Run Turn} (hx : x.Grows)
    (hf : ∀ a w', w'.scopes.Nest g.base g.scopes → g.Becomes plan C w' (f a)) :
    g.Becomes plan C w (x >>= f) := fun _ _ h => by
  obtain ⟨a, w₁, hl, h⟩ := hx.done_bind h
  exact hf a w₁ (hn.later hl.scopes) _ _ h

theorem becomes_of_newScope {f : ScopeId → Run Turn} (hf : ∀ scope, (f scope).Grows)
    (hk : ∀ scope, Gives (Turn.Keeps (.left plan C (g.pushScope scope).place)) (f scope)) :
    g.Becomes plan C w (Run.edit (Edit.newScope g.scope) >>= f) := fun t w' h => by
  simp only [bind, RunOn.bind, newScope_apply] at h
  have hnest : Scopes.Nest (w.scopes.alloc ⟨.empty, some g.scope⟩).2 g.base
      ((w.scopes.alloc ⟨.empty, some g.scope⟩).1 :: g.scopes) :=
    ⟨.alloc hn.head_lt, hn.later (.alloc _)⟩
  exact ⟨_, hnest.later ((hf _).done h).scopes, .inr ⟨_, rfl⟩, hk _ _ _ _ h⟩

include hC hh hg

theorem bindElement_becomes (v : Value) : g.Becomes plan C w (g.bindElement host v) := by
  unfold Instance.bindElement
  split
  · rename_i kind pattern body exit isAsync hi
    refine becomes_of_newScope hn (fun scope => (after_related hh.suits _
      (bind_suited hh.suits scope kind pattern v) fun _ => growing.pure _).2) fun scope => ?_
    have hin := (hg.pushScope scope).holds
    exact after_holds hin.bears (.inl trivial) fun _ => .pure (goOn_keeps (hin.goto
      ((hg.pushScope scope).stands hC hi (by simp) (by simp) (by simp))))
  · exact becomes_of_gives hn (.pure _) (.pure (goOn_keeps hg.holds))

theorem iteratorResult_becomes (result : Value) :
    g.Becomes plan C w (g.iteratorResult host result) := by
  refine becomes_of_bind hn (.read _) fun heap w' hn => ?_
  cases malformed? heap result with
  | some e => exact becomes_of_gives hn (.pure _) (.pure (final_keeps hg.holds.bears rfl))
  | none =>
    dsimp only
    split
    · split
      · rename_i hi
        exact becomes_of_gives hn (.pure _) (.pure (goOn_keeps (hg.holds.goto
          (hg.stands hC hi (by simp) (by simp) (by simp)))))
      · exact becomes_of_gives hn (.pure _) (.pure (goOn_keeps hg.holds))
    · split
      · exact becomes_of_gives hn (.pure _) (.pure (pause_keeps (hg.holds.same rfl)))
      · exact bindElement_becomes hC hh hg hn _

theorem moveNext_becomes (isAsync : Bool) : g.Becomes plan C w (g.moveNext host isAsync) := by
  unfold Instance.moveNext
  cases g.iterator? with
  | none =>
    exact becomes_of_gives hn (.bind (.edit (newError_grows _ _)) fun _ =>
      (unwind_related hh.suits g _).2) (.bind fun _ => unwind_holds hg.holds.bears (by simp))
  | some record =>
    refine becomes_of_bind hn (callNext_related hh.suits.calls record []).2.attempt fun r w' hn => ?_
    cases r with
    | error c =>
      exact becomes_of_gives hn (complete_related hh.suits _ c).2
        (complete_holds hg.holds.bears.popFrame (.inl trivial))
    | ok result =>
      dsimp only
      split
      · exact becomes_of_gives hn (.pure _) (.pure (pause_keeps (hg.holds.same rfl)))
      · exact iteratorResult_becomes hC hh hg hn result

theorem bindCatch_becomes {param : Option Pattern} {next : Nat}
    (hi : g.instr? = some (.bindCatch param next)) :
    g.Becomes plan C w (g.bindCatch host param next) := by
  refine becomes_of_newScope hn (fun scope => ?_) fun scope => ?_
  · cases param with
    | none => exact .pure _
    | some p =>
      exact (after_related hh.suits _ (bind_suited hh.suits scope _ p _) fun _ => growing.pure _).2
  · have hin := (hg.pushScope scope).holds
    have hin : Instance.Holds (.left plan C (g.pushScope scope).place)
        { g.pushScope scope with caught := none } := hin.same rfl
    have hnext := hin.goto ((hg.pushScope scope).stands hC (a := next) hi (by simp) (by simp)
      (by simp))
    cases param with
    | none => exact .pure (goOn_keeps hnext)
    | some p => exact after_holds hin.bears (.inl trivial) fun _ => .pure (goOn_keeps hnext)

theorem enterScope_becomes {functions : List FunctionDecl} {next : Nat}
    (hi : g.instr? = some (.pushScope functions next)) :
    g.Becomes plan C w (g.enterScope host functions next) := by
  refine becomes_of_newScope hn (fun scope => (after_related hh.suits _ (instantiate_related
    growing.toEvalRelation scope functions fun _ _ => trivial) fun _ => growing.pure _).2)
    fun scope => ?_
  have hin := (hg.pushScope scope).holds
  exact after_holds hin.bears (.inl trivial) fun _ => .pure (goOn_keeps (hin.goto
    ((hg.pushScope scope).stands hC hi (by simp) (by simp) (by simp))))

/-- A step that neither copies the bindings of a loop nor enters one. -/
theorem dispatch_becomes {i : Instr} (hi : g.instr? = some i) (hcopy : ∀ next, i ≠ .copyScope next)
    (henter : ∀ labels kind onContinue onBreak next,
      i ≠ .enterLoop labels kind onContinue onBreak next) :
    g.Becomes plan C w (g.dispatch host i) := by
  have hgoto {a : Nat} (ha : a ∈ i.targets) : (g.goto a).Holds (.left plan C g.place) :=
    hg.holds.goto (hg.stands hC hi hcopy henter ha)
  have hgives (hk : Gives (Turn.Keeps (.left plan C g.place)) (g.dispatch host i)) :
      g.Becomes plan C w (g.dispatch host i) :=
    becomes_of_gives hn (dispatch_related hh.suits g i).2 hk
  have hrespects : i.Respects plan C g.ip := by
    rw [Instance.instr?, hg.plan_eq] at hi
    exact hC.respects _ _ hi
  have hbears := hg.holds.bears
  cases i with
  | evaluate s next =>
    exact hgives (after_holds hbears (.inl trivial) fun _ =>
      .pure (goOn_keeps (hgoto (by simp))))
  | yield operand next =>
    exact hgives (after_holds hbears (.inl trivial) fun _ =>
      .pure (pause_keeps (hgoto (by simp))))
  | await operand next =>
    exact hgives (after_holds hbears (.inl trivial) fun _ =>
      .pure (pause_keeps ((hgoto (a := next) (by simp)).same rfl)))
  | yieldStar operand next =>
    exact hgives (after_holds hbears (.inl trivial) fun _ =>
      startDelegation_holds hg.holds (.inl trivial) (hg.onward hC) _)
  | store => exact hgives (storeResume_holds hg.holds (hg.onward hC) _)
  | jump => exact hgives (.pure (goOn_keeps (hgoto (by simp))))
  | branch condition onTrue onFalse =>
    refine hgives (after_holds hbears (.inl trivial) fun v => .pure (goOn_keeps (hgoto ?_)))
    split <;> simp
  | enterTry onThrow onExit next =>
    refine hgives (.pure (goOn_keeps ⟨hg.plan_eq, (hgoto (by simp)).stands,
      List.forall_mem_cons.2 ⟨fun t ht => ?_, hg.frames⟩⟩))
    refine idle_of_none (hrespects.2 t ?_)
    simpa [FrameKind.positions, Phase.positions, or_assoc] using Or.inr ht
  | exitTry next close =>
    exact hgives (exitTry_holds hg.holds trivial (hgoto (by simp)).stands
      (fun f hf target ht => ⟨hg.holds.stands.1.goto target, .inl ((hg.frames f hf).takes ht)⟩) close)
  | bindCatch => exact bindCatch_becomes hC hh hg hn hi
  | endFinally next =>
    exact hgives (endFinally_holds hg.holds (hgoto (by simp)).stands
      fun f hf _ hj => (hg.frames f hf).pending hj)
  | pushScope => exact enterScope_becomes hC hh hg hn hi
  | popScope next =>
    exact hgives (.pure (goOn_keeps ⟨hg.plan_eq, ⟨⟨rfl, List.tail_suffix _, List.suffix_rfl,
      hg.loops⟩, .inl (idle_of_none (hrespects.2 next (by simp)))⟩, hg.frames⟩))
  | copyScope next => exact absurd rfl (hcopy next)
  | enterLoop => exact absurd rfl (henter _ _ _ _ _)
  | exitLoop next =>
    have hidle : C.Idle next := by
      obtain ⟨hip | hip, hnext⟩ := hrespects <;> exact fun start => by simp [hnext, hip]
    exact hgives (.pure (goOn_keeps ⟨hg.plan_eq, ⟨⟨rfl, List.suffix_rfl, List.tail_suffix _,
      fun s hs => hg.loops s (List.mem_of_mem_tail hs)⟩, .inl hidle⟩, hg.frames⟩))
  | brk | cont => exact hgives (jump_holds trivial hbears _ _)
  | openIterator iterable isAsync overKeys next =>
    exact hgives (after_holds hbears (.inl trivial) fun record => .pure (goOn_keeps
      ⟨hg.plan_eq, (hgoto (by simp)).stands,
        List.forall_mem_cons.2 ⟨fun _ ht => absurd ht List.not_mem_nil, hg.frames⟩⟩))
  | moveNext => exact moveNext_becomes hC hh hg hn _
  | ret | throw => exact hgives (after_holds hbears (.inl trivial) fun _ => unwind_holds hbears (by simp))

theorem settled_becomes (awaiting : Option AwaitKind) (s : Settlement) :
    g.Becomes plan C w (g.settled host awaiting s) := by
  have hgives (hk : Gives (Turn.Keeps (.left plan C g.place)) (g.settled host awaiting s)) :
      g.Becomes plan C w (g.settled host awaiting s) :=
    becomes_of_gives hn (settled_related hh.suits g awaiting s).2 hk
  have hbears := hg.holds.bears
  cases s with
  | fulfilled v =>
    rcases awaiting with _ | kind
    · exact hgives (storeResume_holds hg.holds (hg.onward hC) v)
    · cases kind with
      | delegate => exact hgives (delegateResult_holds hg.holds (hg.onward hC) v)
      | result => exact iteratorResult_becomes hC hh hg hn v
      | element => exact bindElement_becomes hC hh hg hn v
      | value => exact hgives (storeResume_holds hg.holds (hg.onward hC) v)
  | rejected v =>
    rcases awaiting with _ | kind
    · exact hgives (unwind_holds hbears (by simp))
    · cases kind with
      | delegate => exact hgives (passOn_holds hg.holds (.inl trivial) (hg.onward hC) _ v)
      | result => exact hgives (unwind_holds hbears.popFrame (by simp))
      | element | value => exact hgives (unwind_holds hbears (by simp))

/-- A resumption. -/
theorem resumed_becomes (a : Action) : g.Becomes plan C w (g.resumed host a) := by
  have hclear : Instance.Tidy plan C { g with awaiting := none } := hg.same rfl
  have hgives (hk : Gives (Turn.Keeps (.left plan C g.place)) (g.resumed host a)) :
      g.Becomes plan C w (g.resumed host a) :=
    becomes_of_gives hn (resumed_related hh.suits g a).2 hk
  have hheld : Instance.Holds (.left plan C g.place) { g with awaiting := none } := hg.holds.same rfl
  have honward : Instance.Onward (.left plan C g.place) { g with awaiting := none } :=
    ⟨(hg.onward hC).store, (hg.onward hC).suspend⟩
  cases a with
  | settled s => exact settled_becomes hC hh hclear hn g.awaiting s
  | delegateDone v => exact hgives (delegateDone_holds hheld honward v)
  | delegateThrew v =>
    have hdone : Instance.Holds (.left plan C g.place)
        (Instance.endDelegation { g with awaiting := none }) := hg.holds.same rfl
    exact hgives (unwind_holds hdone.bears (by simp))
  | next v => exact hgives (passOn_holds hheld (.inl trivial) honward _ v)
  | throw v | ret v =>
    refine hgives ?_
    unfold Instance.resumed
    dsimp only
    split
    · exact passOn_holds hheld (.inl trivial) honward _ v
    · exact unwind_holds hheld.bears (by simp)

end Dispatch

end Steps

/-- That of the loops of a place none is left, or no more is done than to go on between two turns of the
innermost one. -/
def Holding.between (plan : Plan) (C : Colours) (M : StackMap) (q : Place) : Holding where
  plan := plan
  around _ := True
  stands p := p.loops.length < q.loops.length ∨
    p.loops = q.loops ∧ C p.ip = C q.ip ∧ M p.ip = M q.ip
  frame f := f.loops < q.loops.length
  jump _ := False
  leaps := False
  around_of_stands _ := trivial
  cut _ _ := trivial
  enter _ hf _ := .inl (Nat.lt_of_le_of_lt (length_outermost_le _ _) hf)
  land _ hj := hj.elim
  phase hf _ := hf
  handler hf := hf
  leap hl := hl.elim

section Between

variable {plan : Plan} {C : Colours} {M : StackMap} {host : Host} {g : Instance} {start : Nat}

/-- Whether an instance is between two turns of its innermost loop, with no frames inside of that. -/
structure Instance.Between (plan : Plan) (C : Colours) (start : Nat) (g : Instance) : Prop where
  plan_eq : g.plan = plan
  colour : C g.ip = some (.between start)
  frames : ∀ f ∈ g.frames, f.loops < g.loops.length

variable (hC : C.Paint plan) (hM : M.Maps plan) (hh : host.Proper) (hg : g.Between plan C start)

include hg

theorem Instance.Between.holds : g.Holds (.between plan C M g.place) :=
  ⟨hg.plan_eq, .inr ⟨rfl, rfl, rfl⟩, hg.frames⟩

theorem Instance.Between.same {g' : Instance}
    (h : (g'.plan, g'.ip, g'.frames, g'.loops) = (g.plan, g.ip, g.frames, g.loops)) :
    g'.Between plan C start := by
  simp only [Prod.mk.injEq] at h
  obtain ⟨hplan, hip, hframes, hloops⟩ := h
  exact ⟨hplan.trans hg.plan_eq, hip ▸ hg.colour, by rw [hframes, hloops]; exact hg.frames⟩

include hC

theorem Instance.Between.respects {i : Instr} (hi : g.instr? = some i) : i.Respects plan C g.ip := by
  rw [Instance.instr?, hg.plan_eq] at hi
  exact hC.respects _ _ hi

theorem Instance.Between.not_moveNext {kind : Option VarKind} {pattern : Pattern} {body exit : Nat}
    {isAsync : Bool} : g.instr? ≠ some (.moveNext kind pattern body exit isAsync) := fun hi => by
  have h := hg.respects hC hi
  simp [Instr.Respects, hg.colour] at h

theorem bindElement_between (v : Value) :
    Gives (Turn.Keeps (.between plan C M g.place)) (g.bindElement host v) := by
  unfold Instance.bindElement
  split
  · exact absurd ‹_› (hg.not_moveNext hC)
  · exact .pure (goOn_keeps hg.holds)

theorem iteratorResult_between (result : Value) :
    Gives (Turn.Keeps (.between plan C M g.place)) (g.iteratorResult host result) := by
  refine .bind fun heap => ?_
  cases malformed? heap result with
  | some e => exact .pure (final_keeps hg.holds.bears rfl)
  | none =>
    dsimp only
    split
    · split
      · exact absurd ‹_› (hg.not_moveNext hC)
      · exact .pure (goOn_keeps hg.holds)
    · split
      · exact .pure (pause_keeps (hg.holds.same rfl))
      · exact bindElement_between hC hg _

include hM

theorem Instance.Between.onward : g.Onward (.between plan C M g.place) where
  store slot next hi := by
    have hnext := (hg.respects hC hi).2
    rw [Instance.instr?, hg.plan_eq] at hi
    exact .inr ⟨rfl, hnext, hM.fits _ _ hi⟩
  suspend i next slot past hi hs hn hstore := by
    have hnext : C next = C g.ip ∧ M next = M g.ip := by
      have h := hg.respects hC hi
      rw [Instance.instr?, hg.plan_eq] at hi
      have hfits := hM.fits _ _ hi
      cases i with
      | yield | yieldStar | await =>
        rw [List.mem_singleton.1 hn]
        exact ⟨h.2, hfits⟩
      | _ => cases hs
    rw [hg.plan_eq] at hstore
    exact ⟨.inr ⟨rfl, hnext⟩, .inr ⟨rfl, (hC.respects _ _ hstore).2.trans hnext.1,
      (hM.fits _ _ hstore : M past = M next).trans hnext.2⟩⟩

include hh

/-- A step between two turns that does not begin the next one. -/
theorem dispatch_between {i : Instr} (hi : g.instr? = some i) (hj : ∀ target, i ≠ .jump target) :
    Gives (Turn.Keeps (.between plan C M g.place)) (g.dispatch host i) := by
  have hbears : g.Bears (.between plan C M g.place) := hg.holds.bears
  have heval (e : Expr) : (e.eval host g.scope none).OnlyThrows :=
    (e.eval_related_of_all hh.related (fun _ => trivial) g.scope none fun _ => hh.suspends).2
  have hoption (e : Option Expr) : (evalOption host g.scope e).OnlyThrows :=
    (evalOption_related hh.related (fun _ => trivial) g.scope e fun _ => hh.suspends).2
  have hrespects := hg.respects hC hi
  have hfits : i.Fits M g.ip := by
    rw [Instance.instr?, hg.plan_eq] at hi
    exact hM.fits _ _ hi
  have hgoto {next : Nat} (hnext : C next = C g.ip) (hctx : M next = M g.ip) :
      (g.goto next).Holds (.between plan C M g.place) :=
    hg.holds.goto (.inr ⟨rfl, hnext, hctx⟩)
  cases i with
  | evaluate s next =>
    cases s with
    | expr e =>
      exact after_holds hbears (.inr (heval e)) fun _ => .pure (goOn_keeps (hgoto hrespects.2 hfits))
    | _ => simp [Instr.Respects, hg.colour] at hrespects
  | yield operand next =>
    exact after_holds hbears (.inr (hoption operand)) fun _ =>
      .pure (pause_keeps (hgoto hrespects.2 hfits))
  | await operand next =>
    exact after_holds hbears (.inr (heval operand)) fun _ =>
      .pure (pause_keeps ((hgoto hrespects.2 hfits).same rfl))
  | yieldStar operand next =>
    exact after_holds hbears (.inr (heval operand)) fun _ =>
      startDelegation_holds hg.holds (.inr hh) (hg.onward hC hM) _
  | store => exact storeResume_holds hg.holds (hg.onward hC hM) _
  | jump target => exact absurd rfl (hj target)
  | _ => simp [Instr.Respects, hg.colour] at hrespects

theorem resumed_between (a : Action) :
    Gives (Turn.Keeps (.between plan C M g.place)) (g.resumed host a) := by
  have hclear : Instance.Between plan C start { g with awaiting := none } := hg.same rfl
  have hheld : Instance.Holds (.between plan C M g.place) { g with awaiting := none } :=
    hclear.holds
  have honward : Instance.Onward (.between plan C M g.place) { g with awaiting := none } :=
    hclear.onward hC hM
  cases a with
  | settled s =>
    unfold Instance.resumed Instance.settled
    cases s with
    | fulfilled v =>
      dsimp only
      split
      · exact delegateResult_holds hheld honward v
      · exact iteratorResult_between hC hclear v
      · exact bindElement_between hC hclear v
      · exact storeResume_holds hheld honward v
      · exact storeResume_holds hheld honward v
    | rejected v =>
      dsimp only
      split
      · exact passOn_holds hheld (.inr hh) honward _ v
      · exact unwind_holds hheld.bears.popFrame (by simp)
      · exact unwind_holds hheld.bears (by simp)
      · exact unwind_holds hheld.bears (by simp)
      · exact unwind_holds hheld.bears (by simp)
  | delegateDone v => exact delegateDone_holds hheld honward v
  | delegateThrew v =>
    have hdone : Instance.Holds (.between plan C M g.place)
        (Instance.endDelegation { g with awaiting := none }) := hheld.same rfl
    exact unwind_holds hdone.bears (by simp)
  | next v => exact passOn_holds hheld (.inr hh) honward _ v
  | throw v | ret v =>
    unfold Instance.resumed
    dsimp only
    split
    · exact passOn_holds hheld (.inr hh) honward _ v
    · exact unwind_holds hheld.bears (by simp)

end Between

end Resumable
