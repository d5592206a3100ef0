import Resumable.Proofs.Lifecycle.Programs
import Resumable.Proofs.Machine.Runs
import Resumable.Proofs.Refinement.Statements

/-!
Plans of structured bodies. Main statement: `buildPlan_refines`: an instance that is resumed with the
replies of a script yields what the evaluation of its body hands over, and ends as that ends.
-/

set_option autoImplicit false

namespace Resumable

open Taped (lift emit)

section Faults

variable {around : List Breakable} {labels : List String}

theorem delegate_of_forms {e : Expr} {b : Bool} (h : SuspendForm.delegate b ∈ e.forms false) :
    e.delegates = true := by
  simp only [Expr.forms, List.mem_map] at h
  obtain ⟨d, hd, hform⟩ := h
  refine List.any_eq_true.2 ⟨d, hd, ?_⟩
  cases d <;> first | rfl | cases hform

theorem optionForms_delegate {e : Option Expr} {b : Bool} (h : e.any Expr.delegates = false) :
    SuspendForm.delegate b ∉ optionForms false e := by
  cases e with
  | none => nofun
  | some e =>
    intro hb
    rw [Option.any_some, delegate_of_forms hb] at h
    cases h

theorem declaratorForms_delegate {ds : List Declarator} {b : Bool}
    (h : ds.any Declarator.delegates = false) :
    SuspendForm.delegate b ∉ ds.flatMap (Declarator.forms false) := by
  simp only [List.any_eq_false, Bool.not_eq_true] at h
  simp only [List.mem_flatMap, not_exists, not_and]
  rintro ⟨p, init⟩ hd
  exact optionForms_delegate (h _ hd)

mutual

theorem Stmt.forms_isStructured {b : Bool} : (s : Stmt) → (around : List Breakable) →
    (labels : List String) → s.isStructured around labels = true →
    SuspendForm.delegate b ∉ s.forms false
  | .empty, _, _, _ | .brk _, _, _, _ | .cont _, _, _, _ | .function _ _, _, _, _ => nofun
  | .expr e, _, _, h | .throw e, _, _, h => by
    intro hb
    rw [Stmt.isStructured, delegate_of_forms hb] at h
    cases h
  | .ret e, _, _, h => optionForms_delegate (by simpa [Stmt.isStructured] using h)
  | .declare _ ds, _, _, h => declaratorForms_delegate (by simpa [Stmt.isStructured] using h)
  | .labeled _ s, around, _, h => s.forms_isStructured around _ h
  | .block body, _, _, h => bodyForms_areStructured body _ h
  | .ifElse t y none, around, labels, h => by
    simp only [Stmt.isStructured, Bool.and_eq_true, Bool.not_eq_true'] at h
    simp only [Stmt.forms, List.mem_append, not_or]
    exact ⟨fun hb => by simp [delegate_of_forms hb] at h, y.forms_isStructured _ _ h.2⟩
  | .ifElse t y (some n), around, labels, h => by
    simp only [Stmt.isStructured, Bool.and_eq_true, Bool.not_eq_true'] at h
    simp only [Stmt.forms, List.mem_append, not_or]
    exact ⟨⟨fun hb => by simp [delegate_of_forms hb] at h, y.forms_isStructured _ _ h.1.2⟩,
      n.forms_isStructured _ _ h.2⟩
  | .whileDo t b, around, labels, h => by
    simp only [Stmt.isStructured, Bool.and_eq_true, Bool.not_eq_true'] at h
    simp only [Stmt.forms, List.mem_append, not_or]
    exact ⟨fun hb => by simp [delegate_of_forms hb] at h, b.forms_isStructured _ _ h.2⟩
  | .doWhile b t, around, labels, h => by
    simp only [Stmt.isStructured, Bool.and_eq_true, Bool.not_eq_true'] at h
    simp only [Stmt.forms, List.mem_append, not_or]
    exact ⟨b.forms_isStructured _ _ h.2, fun hb => by simp [delegate_of_forms hb] at h⟩
  | .forLoop i t u b, around, labels, h => by
    simp only [Stmt.isStructured, Bool.and_eq_true, Bool.not_eq_true'] at h
    obtain ⟨⟨⟨⟨hi, ht⟩, hu⟩, -⟩, hb⟩ := h
    simp only [Stmt.forms, List.mem_append, not_or]
    refine ⟨⟨⟨?_, optionForms_delegate ht⟩, optionForms_delegate hu⟩, b.forms_isStructured _ _ hb⟩
    cases i with
    | absent => nofun
    | declare kind ds => exact declaratorForms_delegate hi
    | expr e =>
      intro hb
      rw [ForInit.delegates, delegate_of_forms hb] at hi
      cases hi
  | .forIn _ e b, around, labels, h | .forOf _ e b false, around, labels, h => by
    simp only [Stmt.isStructured, Bool.and_eq_true, Bool.not_eq_true'] at h
    simp only [Stmt.forms, List.mem_append, not_or]
    exact ⟨fun hb => by simp [delegate_of_forms hb] at h, b.forms_isStructured _ _ h.2⟩
  | .tryCatch b none none, _, _, h => bodyForms_areStructured b _ h
  | .tryCatch b none (some f), around, labels, h => by
    simp only [Stmt.isStructured, Bool.and_eq_true] at h
    simp only [Stmt.forms, List.mem_append, not_or]
    exact ⟨bodyForms_areStructured b _ h.1, bodyForms_areStructured f _ h.2⟩
  | .tryCatch b (some (.mk _ c)) none, around, labels, h => by
    simp only [Stmt.isStructured, Bool.and_eq_true] at h
    simp only [Stmt.forms, List.mem_append, not_or]
    exact ⟨bodyForms_areStructured b _ h.1, bodyForms_areStructured c _ h.2⟩
  | .tryCatch b (some (.mk _ c)) (some f), around, labels, h => by
    simp only [Stmt.isStructured, Bool.and_eq_true] at h
    simp only [Stmt.forms, List.mem_append, not_or]
    exact ⟨⟨bodyForms_areStructured b _ h.1.1, bodyForms_areStructured c _ h.1.2⟩,
      bodyForms_areStructured f _ h.2⟩
  | .forOf _ _ _ true, _, _, h | .switch _ _, _, _, h => by cases h

theorem bodyForms_areStructured {b : Bool} : (ss : List Stmt) → (around : List Breakable) →
    areStructured around ss = true → SuspendForm.delegate b ∉ bodyForms false ss
  | [], _, _ => nofun
  | s :: ss, around, h => by
    simp only [areStructured, Bool.and_eq_true] at h
    simp only [bodyForms, List.mem_append, not_or]
    exact ⟨s.forms_isStructured _ _ h.1, bodyForms_areStructured ss _ h.2⟩

end

theorem mem_of_mem_ite_nil {α : Type} {p : Bool} {x : α} {xs : List α}
    (h : x ∈ if p then [] else xs) : x ∈ xs := by
  cases p with
  | true => cases h
  | false => exact h

mutual

theorem Stmt.jumps_isStructured : (s : Stmt) → (around : List Breakable) →
    (labels : List String) → s.isStructured around labels = true →
    (labels = [] ∨ s.isJump = false) → ∀ j ∈ s.jumps false around labels, j.leads = true
  | .empty, _, _, _, _ | .expr _, _, _, _, _ | .throw _, _, _, _, _ | .ret _, _, _, _, _
  | .declare _ _, _, _, _, _ | .function _ _, _, _, _, _ => nofun
  | .brk label, around, labels, h, hl | .cont label, around, labels, h, hl => by
    obtain rfl | hl := hl
    · intro j hj
      rw [List.mem_singleton.1 hj]
      exact h
    · cases hl
  | .labeled label s, around, labels, h, _ => by
    intro j hj
    cases hs : s.isJump with
    | true =>
      rw [Stmt.jumps, hs] at hj
      cases hj
    | false => exact s.jumps_isStructured around _ h (.inr hs) j (mem_of_mem_ite_nil hj)
  | .block body, around, labels, h, _ => fun j hj =>
    bodyJumps_areStructured body _ h j (mem_of_mem_ite_nil hj)
  | .ifElse t y none, around, labels, h, _ => fun j hj => by
    simp only [Stmt.isStructured, Bool.and_eq_true] at h
    exact y.jumps_isStructured _ _ h.2 (.inl rfl) j (mem_of_mem_ite_nil hj)
  | .ifElse t y (some n), around, labels, h, _ => fun j hj => by
    simp only [Stmt.isStructured, Bool.and_eq_true] at h
    obtain hj | hj := List.mem_append.1 (mem_of_mem_ite_nil hj)
    · exact y.jumps_isStructured _ _ h.1.2 (.inl rfl) j hj
    · exact n.jumps_isStructured _ _ h.2 (.inl rfl) j hj
  | .whileDo t b, around, labels, h, _ | .doWhile b t, around, labels, h, _
  | .forLoop _ t _ b, around, labels, h, _ | .forIn _ t b, around, labels, h, _
  | .forOf _ t b false, around, labels, h, _ => fun j hj => by
    simp only [Stmt.isStructured, Bool.and_eq_true] at h
    exact b.jumps_isStructured _ _ h.2 (.inl rfl) j (mem_of_mem_ite_nil hj)
  | .tryCatch b none none, around, labels, h, _ => fun j hj =>
    bodyJumps_areStructured b _ h j (mem_of_mem_ite_nil hj)
  | .tryCatch b none (some f), around, labels, h, _ => fun j hj => by
    simp only [Stmt.isStructured, Bool.and_eq_true] at h
    obtain hj | hj := List.mem_append.1 (mem_of_mem_ite_nil hj)
    · exact bodyJumps_areStructured b _ h.1 j hj
    · exact bodyJumps_areStructured f _ h.2 j hj
  | .tryCatch b (some (.mk _ c)) none, around, labels, h, _ => fun j hj => by
    simp only [Stmt.isStructured, Bool.and_eq_true] at h
    obtain hj | hj := List.mem_append.1 (mem_of_mem_ite_nil hj)
    · exact bodyJumps_areStructured b _ h.1 j hj
    · exact bodyJumps_areStructured c _ h.2 j hj
  | .tryCatch b (some (.mk _ c)) (some f), around, labels, h, _ => fun j hj => by
    simp only [Stmt.isStructured, Bool.and_eq_true] at h
    obtain hj | hj := List.mem_append.1 (mem_of_mem_ite_nil hj)
    · obtain hj | hj := List.mem_append.1 hj
      · exact bodyJumps_areStructured b _ h.1.1 j hj
      · exact bodyJumps_areStructured c _ h.1.2 j hj
    · exact bodyJumps_areStructured f _ h.2 j hj
  | .forOf _ _ _ true, _, _, h, _ | .switch _ _, _, _, h, _ => by cases h

theorem bodyJumps_areStructured : (ss : List Stmt) → (around : List Breakable) →
    areStructured around ss = true → ∀ j ∈ bodyJumps false around ss, j.leads = true
  | [], _, _ => nofun
  | s :: ss, around, h => fun j hj => by
    simp only [areStructured, Bool.and_eq_true] at h
    obtain hj | hj := List.mem_append.1 hj
    · exact s.jumps_isStructured _ _ h.1 (.inl rfl) j hj
    · exact bodyJumps_areStructured ss _ h.2 j hj

end

end Faults

namespace Instance

/-- Resumes an instance with one action after the other, until it ends or no action is left: what it
has yielded, and how it has ended, if it has. -/
def drive (host : Host) (steps : Nat) : Instance → List Action → Run (List Value × Option Stop)
  | _, [] => return ([], none)
  | g, a :: as => do
    let (g, p) ← g.slice host steps a
    match p with
    | .stop (.yielded v) =>
      let (vs, stop) ← drive host steps (g.settle p) as
      return (v :: vs, stop)
    | .stop s => return ([], some s)
    | .delegate _ _ => Run.exhausted

def driveOn (host : Host) (steps : Nat) (as : List Action) :
    Instance × Pause → Run (List Value × Option Stop)
  | (g, .stop (.yielded v)) => do
    let (vs, stop) ← drive host steps (g.settle (.stop (.yielded v))) as
    return (v :: vs, stop)
  | (_, .stop s) => return ([], some s)
  | (_, .delegate _ _) => Run.exhausted

theorem drive_cons (host : Host) (steps : Nat) (g : Instance) (a : Action) (as : List Action) :
    g.drive host steps (a :: as) = g.slice host steps a >>= driveOn host steps as := by
  rw [drive]
  congr 1
  funext r
  obtain ⟨g, p⟩ := r
  cases p with
  | stop s => cases s <;> rfl
  | delegate => rfl

theorem runOn_succ (host : Host) (m : Nat) {g : Instance} {i : Instr} (hi : g.instr? = some i) :
    runOn host (m + 1) (.goOn g) = g.dispatch host i >>= runOn host m := by
  simp only [runOn, execute, hi]
  congr 1

end Instance

/-- How an instance stops with a completion that leaves its body. -/
def Abrupt.stop? : Abrupt → Option Stop
  | .ret v => some (.returned v)
  | .throw v => some (.threw v)
  | .fatal e => some (.failed e)
  | .brk _ | .cont _ => none

def Taped.ending (s : Taped) (stop : Stop) : Option Stop := if s.stopped then none else some stop

/-- What comes of driving an instance whose body comes to this outcome. -/
def Outcome.asDriven : Outcome Taped Value → Outcome World (List Value × Option Stop)
  | .done _ s => .done (s.emitted, s.ending (.returned .undefined)) s.world
  | .abrupt c s =>
    match c.stop? with
    | some stop => .done (s.emitted, s.ending stop) s.world
    | none => .abrupt c s.world
  | .exhausted => .exhausted

/-- A step that does not complete abruptly is done before what comes after it. -/
theorem lift_bind_ends {α β : Type} {x : Run α} {f : α → RunOn Taped β} {s s' : Taped} {c : Abrupt}
    {P : α → World → Prop} (hx : (x s.world).Yields P) (h : (lift x >>= f) s = .abrupt c s') :
    ∃ a w, x s.world = .done a w ∧ P a w ∧ f a { s with world := w } = .abrupt c s' := by
  simp only [bind, RunOn.bind, lift] at h
  cases hxs : x s.world with
  | done a w =>
    rw [hxs] at h hx
    exact ⟨a, w, rfl, hx, h⟩
  | abrupt c w =>
    rw [hxs] at hx
    exact hx.elim
  | exhausted =>
    rw [hxs] at h
    cases h

theorem run_of_done {α β : Type} {x : Run α} {f : α → Run β} {w w' : World} {a : α}
    (h : x w = .done a w') : (x >>= f) w = f a w' := by
  simp only [bind, RunOn.bind, h]

def unwaiting : Conduct.lax.Fitness where
  fit _ _ p _ _ := p = none
  rests := False
  stable _ h := h
  ended h := h
  received _ h := h
  started _ h := h

/-- A play that comes to its end shows what the instance does when it is resumed with the script. -/
theorem drive_of_driven {host : Host} (hh : host.Steady) (n : Nat) {t : Turn} {s s' : Taped}
    {c : Abrupt} (ht : t.Fits unwaiting s.world) (hs : s.stopped = false)
    (h : driven host n t s = .abrupt c s') :
    ∃ N vs stop, c.stop? = some stop ∧ s'.emitted = s.emitted ++ vs ∧ ∀ m steps, N ≤ m →
      N ≤ steps → (Instance.runOn host m t >>=
        Instance.driveOn host steps (s.script.map Reply.action)) s.world =
          .done (vs, s'.ending stop) s'.world := by
  fun_induction driven host n t generalizing s with
  | case1 n g v | case2 n g v | case3 n g v =>
    cases h
    refine ⟨0, [], _, rfl, (List.append_nil _).symm, fun m steps _ _ => ?_⟩
    rw [Taped.ending, hs]
    rfl
  | case4 | case5 | case6 | case7 | case9 => cases h
  | case8 n g v ih =>
    cases hscript : s.script with
    | nil =>
      simp only [bind, RunOn.bind, emit, hscript] at h
      cases h
      exact ⟨0, [v], _, rfl, rfl, fun m steps _ _ => rfl⟩
    | cons r rest =>
      have hgives := resumed_gives (Conduct.lax_hosts hh.suspend) (F := unwaiting)
        (g := { g with status := .executing }) (s := s.world) trivial ht.1 r.action
      have h : (lift (Instance.resumed host { g with status := .executing } r.action) >>=
          driven host n) { s with emitted := s.emitted ++ [v], script := rest } = .abrupt c s' := by
        simp only [bind, RunOn.bind, emit, hscript] at h
        exact h
      obtain ⟨t, w, hr, ⟨_, -, rfl, ht⟩, h⟩ :=
        lift_bind_ends (s := { s with emitted := s.emitted ++ [v], script := rest }) hgives h
      obtain ⟨N, vs, stop, hstop, hemitted, hdrive⟩ := ih t
        (s := ⟨_, s.emitted ++ [v], rest, s.stopped⟩) ht hs h
      refine ⟨N, v :: vs, stop, hstop, by simp [hemitted], fun m steps _ hle => ?_⟩
      have hslice : (g.settle (.stop (.yielded v))).slice host steps r.action =
          Instance.resumed host { g with status := .executing } r.action >>=
            Instance.runOn host steps := rfl
      have hrest : (g.settle (.stop (.yielded v))).drive host steps
          (r.action :: rest.map Reply.action) s.world = .done (vs, s'.ending stop) s'.world := by
        rw [Instance.drive_cons, hslice, bind_assoc, run_of_done hr]
        exact hdrive steps steps hle hle
      exact run_of_done hrest
  | case10 n g i hi ih =>
    have hgives := dispatch_gives (Conduct.lax_hosts hh.suspend) (F := unwaiting) (s := s.world)
      trivial ht i
    obtain ⟨t, w, hd, ⟨_, -, rfl, ht⟩, h⟩ := lift_bind_ends hgives h
    obtain ⟨N, vs, stop, hstop, hemitted, hdrive⟩ := ih t (s := { s with world := _ }) ht hs h
    refine ⟨N + 1, vs, stop, hstop, hemitted, fun m steps hm hle => ?_⟩
    cases m with
    | zero => cases hm
    | succ m =>
      rw [Instance.runOn_succ host m hi, bind_assoc, run_of_done hd]
      exact hdrive m steps (Nat.le_of_succ_le_succ hm) (Nat.le_of_succ_le hle)

theorem body_follows {params : List Pattern} {body : List Stmt} {slots : List String} {plan : Plan}
    {host : Host} (hh : host.Proper) (hb : buildPlan false params body = .ok plan)
    (hl : lowerBody false body = .ok ⟨body, slots⟩) (hs : areStructured [] body = true)
    (scope : ScopeId) :
    Follows.Leading host (.running plan scope false) (playing host (.running plan scope false))
      (execStmts (scripted host) scope .undefined body)
      fun _ => playing host ((Instance.running plan scope false).goto 0) := by
  have hplain := buildPlan_holdsNone hb
  obtain ⟨lowered, f, hl', hlaid, hcode, hentry⟩ := buildPlan_laid hb
  cases hl.symm.trans hl'
  have hplan : Lies plan.get? 0 plan.code := lies_of_getElem _ _ _ fun k i hk => by
    simpa [Plan.get?] using hk
  rw [hcode] at hplan
  have hready : (Instance.running plan scope false).Ready plan [] :=
    ⟨rfl, rfl, rfl, rfl, rfl, rfl, (by rintro _ ⟨⟩), (by rintro _ ⟨⟩), (by rintro _ ⟨⟩)⟩
  have h := hlaid.follows hh hplain rfl hplan.2 hs _ hready .undefined
  rwa [← hentry] at h

theorem driven_of_follows {host : Host} {plan : Plan} {scope : ScopeId} {x : RunOn Taped Value}
    (hplan : plan.get? 0 = some (.ret none))
    (h : Follows.Leading host (.running plan scope false)
      (playing host (.running plan scope false)) x
      fun _ => playing host ((Instance.running plan scope false).goto 0))
    (s : Taped) (hx : x s ≠ .exhausted) :
    ∃ n c s', driven host n (.goOn (.running plan scope false)) s = .abrupt c s' ∧
      (x s).asDriven = (Outcome.abrupt c s').asDriven := by
  have h := h s
  cases hxs : x s with
  | exhausted => exact absurd hxs hx
  | done v s' =>
    rw [hxs] at h
    obtain ⟨n, h⟩ := h
    have hend : playing host ((Instance.running plan scope false).goto 0) 1 s' =
        .abrupt (.ret .undefined) s' := by
      rw [playing, driven_goOn host 0 ((Instance.running plan scope false).goto 0) hplan]
      rfl
    exact ⟨n + 1, .ret .undefined, s', (h 1).trans hend, rfl⟩
  | abrupt c s' =>
    rw [hxs] at h
    obtain ⟨hc, n, h⟩ := h
    refine ⟨n, c, s', (h 0).trans ?_, rfl⟩
    cases c with
    | ret | throw | fatal => rfl
    | brk | cont => cases hc

/-- An instance that is driven by a script yields what the evaluation of its body against the script
hands over, ends as that ends and leaves the same world. -/
theorem buildPlan_refines {params : List Pattern} {body : List Stmt} {slots : List String}
    (hp : params.any (·.hasSuspend false) = false)
    (hl : lowerBody false body = .ok ⟨body, slots⟩) (hs : areStructured [] body = true) :
    ∃ plan, buildPlan false params body = .ok plan ∧
      ∀ (fuel : Nat) (scope : ScopeId) (w : World) (script : List Reply),
        let outcome := execStmts (scripted (Host.withFuel fuel)) scope .undefined body
          (.start w script)
        outcome ≠ .exhausted → ∃ n, ∀ steps, n ≤ steps →
          (Instance.start plan scope false).drive (Host.withFuel fuel) steps
            (.next .undefined :: script.map Reply.action) w = outcome.asDriven := by
  have hplan : ∃ plan, buildPlan false params body = .ok plan := by
    have hv := buildPlan_verdict hp hl
    cases hb : buildPlan false params body with
    | ok plan => exact ⟨plan, rfl⟩
    | error r =>
      rw [hb] at hv
      obtain ⟨-, j, hj, hleads⟩ | ⟨-, hd⟩ := hv
      · cases hleads.symm.trans (bodyJumps_areStructured body [] hs j hj)
      · exact (bodyForms_areStructured body [] hs hd).elim
  obtain ⟨plan, hb⟩ := hplan
  refine ⟨plan, hb, fun fuel scope w script hx => ?_⟩
  have hh := withFuel_proper fuel
  have hret : plan.get? 0 = some (.ret none) := by
    obtain ⟨_, _, -, -, hcode, -⟩ := buildPlan_laid hb
    rw [Plan.get?, hcode]
    rfl
  obtain ⟨n, c, s', hdriven, hsame⟩ :=
    driven_of_follows hret (body_follows hh hb hl hs scope) (.start w script) hx
  obtain ⟨N, vs, stop, hstop, hemitted, hdrive⟩ :=
    drive_of_driven (withFuel_steady fuel) n (t := .goOn (.running plan scope false))
      ⟨rfl, (by rintro ⟨⟩)⟩ rfl hdriven
  refine ⟨N, fun steps hle => ?_⟩
  rw [hsame, Outcome.asDriven, hstop, Instance.drive_cons]
  have hemitted : s'.emitted = vs := hemitted
  rw [hemitted]
  exact hdrive steps steps hle hle

/-- A `return` into a protected block waits for the finally block, which pauses itself. -/
theorem buildPlan_refines_finally : ∃ plan, buildPlan false []
      [.tryCatch [.expr (.yield none)] none (some [.expr (.yield none)])] = .ok plan ∧
    ∃ w n, ∀ steps, n ≤ steps →
      (Instance.start plan 0 false).drive (Host.withFuel 8) steps
        [.next .undefined, .ret (.bool true), .next .null] .blank =
        .done ([.undefined, .undefined], some (.returned (.bool true))) w := by
  obtain ⟨plan, hplan, h⟩ := @buildPlan_refines []
    [.tryCatch [.expr (.yield none)] none (some [.expr (.yield none)])] [] rfl rfl rfl
  obtain ⟨n, h⟩ := h 8 0 .blank [⟨.ret, .bool true⟩, ⟨.next, .null⟩] nofun
  exact ⟨plan, hplan, _, n, h⟩

end Resumable
