import Resumable.Proofs.Lifecycle.Programs

/-!
Generators that have ended. No promise is waited for by one that has ended, so nothing comes before the
look at its status, and it answers every call alone. Main statement: `completed_absorbs`.
-/

set_option autoImplicit false

namespace Resumable

section Ended

variable {w : World} {id : InstanceId} {g : Instance}

theorem World.Orderly.completed_parked (hw : w.Orderly) (hg : w.instances[id]? = some g)
    (hs : g.status = .completed) : g.parked = none := by
  cases hp : g.parked with
  | none => rfl
  | some p =>
    have hsuspended := hw.parked id g hg (by rw [hp]; rfl)
    cases hs.symm.trans hsuspended

theorem resumeOne_completed {host : Host} (hw : w.Orderly) (hg : w.instances[id]? = some g)
    (hs : g.status = .completed) (a : Action) :
    resumeOne host id a w = .done (.stop (Instance.afterEnd a)) w := by
  have hfound : (liftM (Edit.instance? id) : Run _) w = .done (some g) w :=
    congrArg (fun o => Outcome.done o w) hg
  have hunpark : (liftM (unpark id g a) : Run _) w = .done (.ok (g, a)) w := by
    simp only [unpark, hw.completed_parked hg hs]
    rfl
  simp only [resumeOne, bind, RunOn.bind, hfound, hunpark, hs]
  rfl

/-- An instance that has ended runs nothing, whoever resumes it. -/
theorem resume_completed {host : Host} (hfuel : 0 < host.fuel) (hw : w.Orderly)
    (hg : w.instances[id]? = some g) (hs : g.status = .completed) (a : Action) :
    resume host id a w = .done (Instance.afterEnd a) w := by
  obtain ⟨n, hn⟩ := Nat.exists_eq_add_of_lt hfuel
  rw [resume, hn, Nat.zero_add, resumeChain]
  simp only [bind, RunOn.bind, resumeOne_completed hw hg hs a]
  cases a <;> rfl

theorem resumeGenerator_completed {gen : Value} (hw : w.Orderly)
    (hs : w.status? gen = some .completed) (a : Action) :
    Session.resumeGenerator gen a w = .done (Instance.afterEnd a) w := by
  obtain ⟨id, hid, hstatus⟩ := Option.bind_eq_some_iff.1 hs
  obtain ⟨g, hg, hs⟩ := Option.map_eq_some_iff.1 hstatus
  have hfuel : 0 < Session.host.fuel := Nat.two_pow_pos 60
  rw [Session.resumeGenerator_apply, hid]
  exact resume_completed hfuel hw hg hs a

end Ended

/-- A generator that has ended stays so: whatever it is resumed with, it gives the answer of the call
alone, and nothing in the world changes. -/
theorem completed_absorbs {w : World} (hw : w.Hosted) {gen : Value}
    (hs : w.status? gen = some .completed) (actions : List Action) :
    actions.mapM (Session.resumeGenerator gen) w =
      .done (actions.map fun
        | .ret v => .returned v
        | .throw e | .delegateThrew e => .threw e
        | .next _ | .settled _ | .delegateDone _ => .returned .undefined) w := by
  induction actions with
  | nil => rfl
  | cons a actions ih =>
    have hfirst := resumeGenerator_completed hw.idle.1 hs a
    simp only [List.mapM_cons, bind, RunOn.bind, hfirst, ih]
    cases a <;> rfl

/-- A generator that was run to its end, `function* g() { }`, and is then called in six ways. -/
theorem completed_absorbs_empty : ∃ (w : World) (gen : Value), w.Hosted ∧
    w.status? gen = some .completed ∧
    [.next .null, .throw .null, .ret (.bool true), .settled (.fulfilled .null), .delegateDone .null,
      .delegateThrew .null].mapM (Session.resumeGenerator gen) w =
    .done [.returned .undefined, .threw .null, .returned (.bool true), .returned .undefined,
      .returned .undefined, .threw .null] w := by
  let program : List Stmt :=
    [.function "g" (.mk 0 .generator [] []),
      .declare .var [.mk (.ident "it") (some (.call (.ident "g") []))],
      .expr (.call (.dot (.ident "it") "next") [])]
  have hended : ((Session.runProgram program .initial).world?.bind fun w =>
      (w.value? "it").bind w.status?) = some .completed := by decide +kernel
  obtain ⟨w, hw, hended⟩ := Option.bind_eq_some_iff.1 hended
  obtain ⟨gen, -, hs⟩ := Option.bind_eq_some_iff.1 hended
  have hhosted : w.Hosted := .program program .initial hw
  exact ⟨w, gen, hhosted, hs, completed_absorbs hhosted hs _⟩

end Resumable
