import Resumable.Proofs.Polling.Waiting

/-!
A host that calls generators while they wait. Main statement: `polls_leave_no_trace`.
-/

set_option autoImplicit false

namespace Resumable

namespace Session

/-- What a host asks for. -/
inductive Ask where
  | program (program : List Stmt)
  | jobs
  | call (generator : Value) (m : Method) (v : Value)

inductive Answer where
  | completed (r : Except Abrupt Value)
  | drained
  | stopped (s : Stop)

def Ask.run : Ask → Run Answer
  | .program p => do return .completed (← runProgram p)
  | .jobs => do
    drainJobs
    return .drained
  | .call generator m v => do return .stopped (← resumeGenerator generator (.ofMethod m v))

/-- What a host does: it asks for something, or looks whether the settlement of a promise has arrived
at a generator. -/
inductive Event where
  | ask (a : Ask)
  | poll (generator v promise : Value)

def Event.isAsk : Event → Bool
  | .ask _ => true
  | .poll _ _ _ => false

def perform : List Event → Run (List Answer)
  | [] => return []
  | .ask a :: es => do
    let r ← a.run
    return r :: (← perform es)
  | .poll generator v _ :: es => do
    let s ← resumeGenerator generator (.next v)
    return .stopped s :: (← perform es)

/-- Whether the generators that are polled wait for their promises whenever that happens. -/
def PollsWait : List Event → World → Prop
  | [], _ => True
  | .ask a :: es, w => ∀ r w', a.run w = .done r w' → PollsWait es w'
  | .poll generator v promise :: es, w =>
    (∃ id n, w.heap.generator? generator = some id ∧ w.Waits promise n id ∧ n < fuel) ∧
      ∀ s w', resumeGenerator generator (.next v) w = .done s w' → PollsWait es w'

/-- Whether answers are the same but for those to polls, which are the promises. -/
inductive SameAnswers : List Event → List Answer → List Answer → Prop where
  | nil : SameAnswers [] [] []
  | ask {a : Ask} {es : List Event} {r : Answer} {as bs : List Answer} :
    SameAnswers es as bs → SameAnswers (.ask a :: es) (r :: as) (r :: bs)
  | poll {generator v promise : Value} {es : List Event} {as bs : List Answer} :
    SameAnswers es as bs →
    SameAnswers (.poll generator v promise :: es) (.stopped (.awaiting promise) :: as) bs

/-- Whether the outcomes of a host with polls and of one without are the same but for the polls. -/
inductive SameBut (es : List Event) : Outcome World (List Answer) → Outcome World (List Answer) → Prop
  where
  | done {as bs : List Answer} {w w' : World} : SameAnswers es as bs → w.Resembles w' →
    SameBut es (.done as w) (.done bs w')
  | abrupt {c : Abrupt} {w w' : World} : w.Resembles w' → SameBut es (.abrupt c w) (.abrupt c w')
  | exhausted : SameBut es .exhausted .exhausted

theorem Ask.run_inStep (F E : Set InstanceId) (a : Ask) : InStep F E a.run a.run := by
  cases a with
  | program p => exact .bind (runProgram_inStep F E p) fun _ => .pure _
  | jobs => exact .bind (drainJobs_inStep F E) fun _ => .pure _
  | call generator m v =>
    exact .bind (resumeGenerator_inStep F E generator (Action.isCall_ofMethod m v)) fun _ => .pure _

theorem Ask.hosted {a : Ask} {r : Answer} {w w' : World} (hw : w.Hosted) (h : a.run w = .done r w') :
    w'.Hosted := by
  have hworld {α : Type} {x : Run α} {f : α → Answer}
      (h : (do return f (← x) : Run Answer) w = .done r w') : (x w).world? = some w' := by
    simp only [bind, RunOn.bind] at h
    cases hx : x w with
    | done a w₁ =>
      rw [hx] at h
      cases h
      rfl
    | abrupt | exhausted =>
      rw [hx] at h
      cases h
  cases a with
  | program p => exact .program p hw (hworld h)
  | jobs => exact .jobs hw (hworld (f := fun _ => .drained) h)
  | call generator m v => exact .resume generator _ hw (hworld h)

theorem resumeGenerator_waiting {generator promise : Value} {id : InstanceId} {n : Nat} {w : World}
    (hid : w.heap.generator? generator = some id) (hwait : w.Waits promise n id) (hn : n < fuel)
    (v : Value) :
    ∃ w₁, resumeGenerator generator (.next v) w = .done (.awaiting promise) w₁ ∧ w.Resembles w₁ ∧
      w₁.Waits promise n id ∧
      ∀ host : Host, n < host.fuel → resume host id (.next v) w = .done (.awaiting promise) w₁ := by
  obtain ⟨w₁, hpoll, hlike, hwait₁⟩ := hwait.poll v
  refine ⟨w₁, ?_, hlike, hwait₁, hpoll⟩
  rw [resumeGenerator_apply, hid]
  exact hpoll host hn

/-- From worlds that differ only in calls passed on, a host with polls and one without go on in the
same way. -/
theorem perform_like {es : List Event} {w w' : World} (hw : w.Hosted) (h : w.Resembles w')
    (hes : PollsWait es w) :
    SameBut es (perform es w) (perform (es.filter Event.isAsk) w') := by
  induction es generalizing w w' with
  | nil => exact .done .nil h
  | cons e es ih =>
    cases e with
    | ask a =>
      have hask := a.run_inStep _ _ w w' (hw.alike h)
      simp only [List.filter, Event.isAsk, perform, bind, RunOn.bind]
      generalize hrun : a.run w = x at hask
      generalize a.run w' = y at hask
      cases hask with
      | @done r w₁ w₁' halike _ =>
        have hrest := ih (Ask.hosted hw hrun) halike.resembles (hes r w₁ hrun)
        dsimp only
        generalize perform es w₁ = x at hrest
        generalize perform (es.filter Event.isAsk) w₁' = y at hrest
        cases hrest with
        | done has hlike => exact .done (.ask has) hlike
        | abrupt hlike => exact .abrupt hlike
        | exhausted => exact .exhausted
      | abrupt halike _ => exact .abrupt halike.resembles
      | exhausted => exact .exhausted
    | poll generator v promise =>
      obtain ⟨⟨id, n, hid, hwait, hn⟩, hafter⟩ := hes
      obtain ⟨w₁, hpoll, hlike, -⟩ := resumeGenerator_waiting hid hwait hn v
      have hhosted : w₁.Hosted := .resume generator (.next v) hw (by rw [hpoll]; rfl)
      have hrest := ih hhosted (hlike.symm.trans h) (hafter _ w₁ hpoll)
      simp only [List.filter, Event.isAsk, perform, bind, RunOn.bind, hpoll]
      generalize perform es w₁ = x at hrest
      generalize perform (es.filter Event.isAsk) w' = y at hrest
      cases hrest with
      | done has hlike => exact .done (.poll has) hlike
      | abrupt hlike => exact .abrupt hlike
      | exhausted => exact .exhausted

theorem pollsWait_polls {generator promise : Value} {id : InstanceId} {n : Nat} {w : World}
    (hid : w.heap.generator? generator = some id) (hwait : w.Waits promise n id) (hn : n < fuel)
    {es : List Event} (hes : ∀ w' : World, w.Resembles w' → PollsWait es w') (vs : List Value) :
    PollsWait (vs.map (.poll generator · promise) ++ es) w := by
  induction vs generalizing w with
  | nil => exact hes w (.refl w)
  | cons v vs ih =>
    refine ⟨⟨id, n, hid, hwait, hn⟩, fun s w' hw' => ?_⟩
    obtain ⟨w₁, hpoll, hlike, hwait₁, -⟩ := resumeGenerator_waiting hid hwait hn v
    cases hpoll.symm.trans hw'
    have hheap : w'.heap = w.heap := by rw [← hlike.rest]
    exact ih (hheap ▸ hid) hwait₁ fun w' h => hes w' (hlike.trans h)

end Session

/-- To poll a generator that waits for a promise is to do nothing. The answer is the promise, whatever
the host does, and the world stays as it was but for a call that has been passed on. A host that polls
generators while they wait, as often as it likes, gets the same answers to all that it asks for as one
that does not, and comes to a world that differs only so. -/
theorem polls_leave_no_trace {w : World} (hw : w.Hosted) {generator promise : Value} {id : InstanceId}
    {n : Nat} (hid : w.heap.generator? generator = some id) (hwait : w.Waits promise n id)
    (hn : n < Session.fuel) :
    (∀ v, ∃ w₁, Session.resumeGenerator generator (.next v) w = .done (.awaiting promise) w₁ ∧
      w.Resembles w₁ ∧ w₁.Waits promise n id ∧
      ∀ host : Host, n < host.fuel → resume host id (.next v) w = .done (.awaiting promise) w₁) ∧
    ∀ es, Session.PollsWait es w →
      Session.SameBut es (Session.perform es w) (Session.perform (es.filter Session.Event.isAsk) w) :=
  ⟨Session.resumeGenerator_waiting hid hwait hn,
    fun _ hes => Session.perform_like hw (.refl w) hes⟩

/-- A generator that delegates to one that delegates to an object whose method `next` gives a promise
that never settles. Both have been called once; two polls make no difference to a later exception. -/
theorem polls_leave_no_trace_delegated : ∃ (w : World) (generator promise : Value),
    w.Hosted ∧ (∃ id, w.heap.generator? generator = some id ∧ w.Waits promise 1 id) ∧
      let thrown : Session.Event := .ask (.call generator .throw .null)
      let es : List Session.Event :=
        [.poll generator .null promise, .poll generator (.bool true) promise, thrown]
      Session.SameBut es (Session.perform es w) (Session.perform [thrown] w) := by
  let program : List Stmt :=
    [.declare .var [.mk (.ident "p") (some (.new (.ident "Promise")
        [.function none (.mk 0 .plain [] [])]))],
      .declare .var [.mk (.ident "o") (some (.object
        [.mk (.computed (.dot (.ident "Symbol") "asyncIterator"))
            (.function none (.mk 1 .plain [] [.ret (some .this)])),
          .mk (.ident "next") (.function none (.mk 2 .plain [] [.ret (some (.ident "p"))]))]))],
      .function "inner" (.mk 3 .generator [] [.expr (.yieldStar (some (.ident "o")))]),
      .function "outer" (.mk 4 .generator [] [.expr (.yieldStar (some (.call (.ident "inner") [])))]),
      .declare .var [.mk (.ident "it") (some (.call (.ident "outer") []))],
      .expr (.call (.dot (.ident "it") "next") [])]
  have hrun : ((Session.runProgram program .initial).world?.bind fun w => do
      let id ← w.heap.generator? (← w.value? "it")
      w.awaited? 1 id).isSome = true := by decide +kernel
  obtain ⟨promise, hrun⟩ := Option.isSome_iff_exists.1 hrun
  obtain ⟨w, hw, hrun⟩ := Option.bind_eq_some_iff.1 hrun
  obtain ⟨generator, -, hrun⟩ := Option.bind_eq_some_iff.1 hrun
  obtain ⟨id, hid, hrun⟩ := Option.bind_eq_some_iff.1 hrun
  have hhosted : w.Hosted := .program program .initial hw
  have hwait : w.Waits promise 1 id := w.waits_iff.2 hrun
  have hfuel : 1 < Session.fuel := by decide +kernel
  have hlast (w' : World) : Session.PollsWait [.ask (.call generator .throw .null)] w' :=
    fun _ _ _ => trivial
  exact ⟨w, generator, promise, hhosted, ⟨id, hid, hwait⟩,
    (polls_leave_no_trace hhosted hid hwait hfuel).2 _
      (Session.pollsWait_polls hid hwait hfuel (fun w' _ => hlast w') [.null, .bool true])⟩

end Resumable
