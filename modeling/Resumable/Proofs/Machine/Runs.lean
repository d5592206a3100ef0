import Resumable.Machine.Resume
import Resumable.Proofs.Machine.Discipline

/-!
Whole runs of an instance, from its start through any number of pauses and resumptions. Main
statement: `buildPlan_disciplined`: in every run of a plan that is built, the stacks are at each
instruction what a map of the plan says, so that every instruction finds there what it relies on.
-/

set_option autoImplicit false

namespace Resumable

open RunOn (Gives)

/-- A frame without what only a run can know. -/
inductive FrameShape where
  | region (onThrow onExit : Option Nat) (stage : Stage)
  | iterator
  deriving DecidableEq, Repr

/-- The stacks without what only a run can know: how many scopes there are above that of the
function, the kinds of the frames, and the labels and kinds of the loops. -/
structure Shape where
  scopes : Nat
  frames : List FrameShape
  loops : List Breakable

def Site.frameShape? : Site → Option FrameShape
  | .region _ onThrow onExit stage => some (.region onThrow onExit stage)
  | .iterator _ => some .iterator
  | .scope | .loop _ _ _ _ _ => none

def Context.shape (c : Context) : Shape := ⟨c.scopes, c.filterMap Site.frameShape?, c.breakables⟩

def FrameKind.shape : FrameKind → FrameShape
  | .region onThrow onExit phase => .region onThrow onExit phase.stage
  | .iterator _ => .iterator

def Instance.shape (g : Instance) : Shape :=
  ⟨g.scopes.length, g.frames.map (·.kind.shape), g.loops.map LoopScope.breakable⟩

/-- Whether a frame is the one that an instruction has put there. -/
def FrameKind.IsOf (kind : FrameKind) : Instr → Prop
  | .enterTry onThrow onExit _ => ∃ phase, kind = .region onThrow onExit phase
  | .openIterator _ _ _ _ => ∃ record, kind = .iterator record
  | _ => False

/-- Whether the innermost frame is that of the instruction at `o`, with outside of it what there was
when that instruction was dispatched. -/
def Instance.HasFrameOf (plan : Plan) (M : StackMap) (o : Nat) (g : Instance) : Prop :=
  ∃ f outer i, g.frames = f :: outer ∧ plan.get? o = some i ∧ f.kind.IsOf i ∧
    f.scopes = (M o).scopes ∧ f.loops = (M o).loops ∧ outer.length = (M o).frames

/-- Whether a jump finds, among the loops of the instance, the one that the check of the jump finds
among the constructs around it, and leads to where the loop was entered or to its next turn. -/
def Instance.Resolves (plan : Plan) (M : StackMap) (g : Instance) (label : Option String)
    (isContinue : Bool) : Prop :=
  ∃ (j : Jump) (o : Nat) (inner : List Breakable) (b : Breakable) (onContinue : Option Nat)
    (onBreak next : Nat),
    (∀ inAsync, Surroundings.checkJump ⟨inAsync, (M g.ip).breakables⟩ label isContinue = .ok ()) ∧
    (M g.ip).breakables = inner ++ b :: (M o).breakables ∧
    (∀ c ∈ inner, c.isMeant label isContinue = false) ∧ b.isMeant label isContinue = true ∧
    plan.get? o = some (.enterLoop b.labels b.kind onContinue onBreak next) ∧
    jumpAmong label isContinue g.loops = some j ∧
    j.scopes = (M o).scopes ∧ j.frames = (M o).frames ∧
    if isContinue then onContinue = some j.target ∧ j.loops = (M o).loops + 1
    else onBreak = j.target ∧ j.loops = (M o).loops

/-- What an instruction relies on in the instance that dispatches it. -/
def Instr.Founded (plan : Plan) (M : StackMap) (g : Instance) : Instr → Prop
  | .popScope _ => g.scopes ≠ []
  | .moveNext _ _ _ _ _ => g.iterator?.isSome = true
  | .exitTry _ _ | .endFinally _ => ∃ o, Inside M g.ip o ∧ g.HasFrameOf plan M o
  | .brk label => g.Resolves plan M label false
  | .cont label => g.Resolves plan M label true
  | _ => True

section Foundation

variable {plan : Plan} {M : StackMap} {c : Context} {n : Nat} {fs : List Frame}
  {ls : List LoopScope} {g : Instance}

theorem Stacked.shape (h : Stacked M c n fs ls) : n = c.scopes ∧
    fs.map (·.kind.shape) = c.filterMap Site.frameShape? ∧
    ls.map LoopScope.breakable = c.breakables := by
  induction h with
  | nil => exact ⟨rfl, rfl, rfl⟩
  | scope _ ih =>
    obtain ⟨hn, hf, hl⟩ := ih
    exact ⟨congrArg (· + 1) hn, hf, hl⟩
  | region _ _ ih | iterator _ ih =>
    obtain ⟨hn, hf, hl⟩ := ih
    exact ⟨hn, congrArg (_ :: ·) hf, hl⟩
  | loop _ ih =>
    obtain ⟨hn, hf, hl⟩ := ih
    exact ⟨hn, hf, congrArg (_ :: ·) hl⟩

theorem Instance.At.shape_eq (hg : g.At plan M c) : g.shape = c.shape := by
  obtain ⟨hn, hf, hl⟩ := hg.stacked.shape
  rw [Instance.shape, Context.shape, hn, hf, hl]

theorem checkJump_of_leads {around : Surroundings} {label : Option String} {isContinue : Bool}
    (h : JumpSite.leads ⟨label, isContinue, around.breakables⟩ = true) :
    around.checkJump label isContinue = .ok () := by
  have hv := checkJump_verdict around label isContinue
  cases hc : around.checkJump label isContinue with
  | ok => rfl
  | error r =>
    rw [hc] at hv
    simp only [Verdict, Fault, List.mem_singleton, List.not_mem_nil, and_false, or_false] at hv
    obtain ⟨-, j, rfl, hj⟩ := hv
    rw [h] at hj
    cases hj

theorem Stacked.resolves {label : Option String} {isContinue : Bool} (h : Stacked M c n fs ls)
    (hs : c.Sound plan M) (hleads : JumpSite.leads ⟨label, isContinue, c.breakables⟩ = true) :
    ∃ (j : Jump) (o : Nat) (inner : List Breakable) (b : Breakable) (onContinue : Option Nat)
      (onBreak next : Nat),
      c.breakables = inner ++ b :: (M o).breakables ∧
      (∀ c ∈ inner, c.isMeant label isContinue = false) ∧ b.isMeant label isContinue = true ∧
      plan.get? o = some (.enterLoop b.labels b.kind onContinue onBreak next) ∧
      jumpAmong label isContinue ls = some j ∧
      j.scopes = (M o).scopes ∧ j.frames = (M o).frames ∧
      if isContinue then onContinue = some j.target ∧ j.loops = (M o).loops + 1
      else onBreak = j.target ∧ j.loops = (M o).loops := by
  induction h with
  | nil => cases hleads
  | scope _ ih | region _ _ ih | iterator _ ih => exact ih hs.2 hleads
  | @loop c n fs ls o labels kind onContinue onBreak h ih =>
    obtain ⟨⟨⟨next, hget⟩, hM, -, -, hkind⟩, hs⟩ := hs
    obtain ⟨hn, hf, hl⟩ := h.counts
    rw [Context.breakables_loop] at hleads
    by_cases hmeant : Breakable.isMeant label isContinue ⟨labels, kind⟩ = true
    · have hfound : ∃ j, jumpAmong label isContinue
          (⟨labels, kind, onContinue, onBreak, n, fs.length⟩ :: ls) = some j ∧
          j.scopes = n ∧ j.frames = fs.length ∧
          if isContinue then onContinue = some j.target ∧ j.loops = ls.length + 1
          else onBreak = j.target ∧ j.loops = ls.length := by
        rw [jumpAmong, accepts_eq_isMeant, LoopScope.breakable, if_pos hmeant]
        cases isContinue with
        | false => exact ⟨_, rfl, rfl, rfl, rfl, rfl⟩
        | true =>
          have hloop : kind = .loop := by
            simpa [JumpSite.leads, JumpSite.target?, hmeant] using hleads
          obtain ⟨target, rfl⟩ := Option.isSome_iff_exists.1 (hkind hloop)
          exact ⟨_, rfl, rfl, rfl, rfl, rfl⟩
      obtain ⟨j, hj, hscopes, hframes, hend⟩ := hfound
      rw [hl] at hend
      refine ⟨j, o, [], ⟨labels, kind⟩, onContinue, onBreak, next, ?_, (by rintro _ ⟨⟩), hmeant, hget, hj, ?_⟩
      · rw [hM]
        rfl
      · rw [hM]
        exact ⟨hscopes.trans hn, hframes.trans hf, hend⟩
    · have hleads : JumpSite.leads ⟨label, isContinue, c.breakables⟩ = true := by
        simpa [JumpSite.leads, JumpSite.target?, hmeant] using hleads
      obtain ⟨j, o', inner, b, onContinue', onBreak', next', hb, hinner, hm, hget', hj, h⟩ :=
        ih hs hleads
      refine ⟨j, o', ⟨labels, kind⟩ :: inner, b, onContinue', onBreak', next', ?_, ?_, hm, hget',
        ?_, h⟩
      · rw [Context.breakables_loop, hb]
        rfl
      · simpa [hmeant] using hinner
      · rw [jumpAmong, accepts_eq_isMeant, LoopScope.breakable, if_neg hmeant]
        exact hj

theorem Instance.At.resolves (hM : M.Maps plan) (hg : g.At plan M (M g.ip)) {label : Option String}
    {isContinue : Bool}
    (hleads : JumpSite.leads ⟨label, isContinue, (M g.ip).breakables⟩ = true) :
    g.Resolves plan M label isContinue := by
  obtain ⟨j, o, inner, b, onContinue, onBreak, next, h⟩ :=
    hg.stacked.resolves (hM.sound g.ip) hleads
  exact ⟨j, o, inner, b, onContinue, onBreak, next, fun _ => checkJump_of_leads hleads, h⟩

theorem Instance.At.hasFrameOf (hg : g.At plan M c) {s : Site} {d : Context} {o : Nat}
    (hs : c.Sound plan M) (hc : c = s :: d) (ho : s.frameOrigin? = some o) :
    g.HasFrameOf plan M o := by
  have hst := hg.stacked
  rw [hc] at hst hs
  cases s with
  | scope | loop => cases ho
  | region o' onThrow onExit stage =>
    cases ho
    obtain ⟨⟨⟨next, hget⟩, hM, -⟩, -⟩ := hs
    obtain ⟨phase, outer, hframes, -, -, hst⟩ := hst.of_region
    obtain ⟨hn, hf, hl⟩ := hst.counts
    rw [Instance.HasFrameOf, hM]
    exact ⟨_, outer, _, hframes, hget, ⟨phase, rfl⟩, hn, hl, hf⟩
  | iterator o' =>
    cases ho
    obtain ⟨⟨⟨e, isAsync, overKeys, next, hget⟩, hM⟩, -⟩ := hs
    obtain ⟨record, outer, hframes, hst⟩ := hst.of_iterator
    obtain ⟨hn, hf, hl⟩ := hst.counts
    rw [Instance.HasFrameOf, hM]
    exact ⟨_, outer, _, hframes, hget, ⟨record, rfl⟩, hn, hl, hf⟩

/-- Where the stacks are what the map says, an instruction finds there what it relies on. -/
theorem Instance.At.founded (hM : M.Maps plan) (hg : g.At plan M (M g.ip)) {i : Instr}
    (hi : plan.get? g.ip = some i) : i.Founded plan M g := by
  have hf := hM.fits _ _ hi
  cases i with
  | popScope next =>
    have hst := hg.stacked
    have hip : M g.ip = .scope :: M next := hf
    rw [hip] at hst
    obtain ⟨m, hm, -⟩ := hst.of_scope
    exact List.ne_nil_of_length_eq_add_one hm
  | moveNext =>
    obtain ⟨record, m, n, outer, c, hframes, -⟩ := moveNext_frames hM hg hi
    simp [Instr.Founded, Instance.iterator?, hframes]
  | exitTry next close =>
    obtain ⟨s, o, hip, ho, -, hinside⟩ := hf
    exact ⟨o, hinside, hg.hasFrameOf (hM.sound _) hip ho⟩
  | endFinally next =>
    obtain ⟨o, onThrow, onExit, hip, hinside⟩ := hf
    exact ⟨o, hinside, hg.hasFrameOf (hM.sound _) hip rfl⟩
  | brk label | cont label => exact hg.resolves hM hf
  | _ => trivial

end Foundation

/-- Whether a paused instance may be found like this when it is resumed. Meanwhile it can only have
been marked, parked or freed, and what it delegates to or awaits can have been dropped. -/
structure Instance.MayBecome (g g' : Instance) : Prop where
  plan_eq : g'.plan = g.plan
  ip_eq : g'.ip = g.ip
  scopes_eq : g'.scopes = g.scopes
  frames_eq : g'.frames = g.frames
  loops_eq : g'.loops = g.loops
  awaiting_eq : g'.awaiting = g.awaiting ∨ g'.awaiting = none

theorem Instance.MayBecome.rests {plan : Plan} {M : StackMap} {g g' : Instance} (h : g.MayBecome g')
    (hg : g.Rests plan M) : g'.Rests plan M := by
  refine ⟨h.plan_eq.trans hg.plan_eq, ?_, ?_⟩
  · rw [h.ip_eq, h.scopes_eq, h.frames_eq, h.loops_eq]
    exact hg.stacked
  · intro hr
    obtain ha | ha := h.awaiting_eq
    · rw [h.ip_eq]
      exact hg.result (ha ▸ hr)
    · rw [ha] at hr
      cases hr

/-- The turns of an instance in all its runs: it is started with some action, dispatches its
instructions, and after each pause that is not its end is resumed with some action. The world can be
any at each step, since others run meanwhile. -/
inductive Reached (host : Host) (first : Instance) : Turn → Prop where
  | start (a : Action) : Reached host first (first.started a)
  | dispatch {g : Instance} {i : Instr} {t : Turn} {w w' : World} : Reached host first (.goOn g) →
    g.instr? = some i → g.dispatch host i w = .done t w' → Reached host first t
  | resume {g g' : Instance} {p : Pause} {a : Action} {t : Turn} {w w' : World} :
    Reached host first (.pause g p) → p.isFinal = false → g.MayBecome g' →
    g'.resumed host a w = .done t w' → Reached host first t

section Slices

variable {host : Host} {g g' : Instance} {p : Pause} {w w' : World}

theorem runOn_keeps {P : Turn → World → Prop} (hP : ∀ {g : Instance} {i : Instr} {t : Turn}
      {w w' : World}, P (.goOn g) w → g.instr? = some i → g.dispatch host i w = .done t w' → P t w')
    {steps : Nat} {t : Turn} (h : P t w) (he : Instance.runOn host steps t w = .done (g', p) w') :
    P (.pause g' p) w' := by
  cases t with
  | pause g q =>
    cases he
    exact h
  | goOn g =>
    change g.execute host steps w = .done (g', p) w' at he
    induction steps generalizing g w with
    | zero => cases he
    | succ steps ih =>
      unfold Instance.execute at he
      cases hi : g.instr? with
      | none =>
        rw [hi] at he
        cases he
      | some i =>
        simp only [hi, bind, RunOn.bind] at he
        cases hd : g.dispatch host i w with
        | done t w₁ =>
          rw [hd] at he
          have ht := hP h hi hd
          cases t with
          | goOn g₁ => exact ih g₁ ht he
          | pause g₁ p₁ =>
            cases he
            exact ht
        | abrupt | exhausted =>
          rw [hd] at he
          cases he

theorem slice_resumes {steps : Nat} {a : Action} (hstatus : g.status ≠ .suspendedStart)
    (he : g.slice host steps a w = .done (g', p) w') :
    ∃ t w₁, Instance.resumed host { g with status := .executing } a w = .done t w₁ ∧
      Instance.runOn host steps t w₁ = .done (g', p) w' := by
  have he : (Instance.resumed host { g with status := .executing } a >>=
      Instance.runOn host steps) w = .done (g', p) w' := by
    unfold Instance.slice at he
    cases hs : g.status with
    | suspendedStart => exact absurd hs hstatus
    | suspendedYield | executing | completed =>
      rw [hs] at he
      exact he
  simp only [bind, RunOn.bind] at he
  cases hr : Instance.resumed host { g with status := .executing } a w with
  | done t w₁ =>
    rw [hr] at he
    exact ⟨t, w₁, rfl, he⟩
  | abrupt | exhausted =>
    rw [hr] at he
    cases he

theorem mayBecome_of_settle {q : Pause} {g₁ : Instance} (hq : q.isFinal = false)
    (hg : (g.settle q).MayBecome g₁) : g.MayBecome { g₁ with status := .executing } := by
  match q with
  | .delegate _ _ | .stop (.yielded _) | .stop (.awaiting _) =>
    exact ⟨hg.plan_eq, hg.ip_eq, hg.scopes_eq, hg.frames_eq, hg.loops_eq, hg.awaiting_eq⟩
  | .stop (.returned _) | .stop (.threw _) | .stop (.failed _) => cases hq

end Slices

section Runs

variable {host : Host} {first g g' : Instance} {p : Pause} {w w' : World}

theorem Reached.runOn {steps : Nat} {t : Turn} (h : Reached host first t)
    (he : Instance.runOn host steps t w = .done (g', p) w') : Reached host first (.pause g' p) :=
  runOn_keeps (P := fun t _ => Reached host first t) .dispatch h he

def Instance.running (plan : Plan) (base : ScopeId) (isAsync : Bool) : Instance :=
  { Instance.start plan base isAsync with status := .executing }

theorem Reached.firstSlice {plan : Plan} {base : ScopeId} {isAsync : Bool} {steps : Nat} {a : Action}
    (he : (Instance.start plan base isAsync).slice host steps a w = .done (g', p) w') :
    Reached host (.running plan base isAsync) (.pause g' p) :=
  Reached.runOn (.start a) he

theorem Reached.slice {q : Pause} {steps : Nat} {a : Action} (h : Reached host first (.pause g q))
    (hq : q.isFinal = false) {g₁ : Instance} (hg : (g.settle q).MayBecome g₁)
    (hstatus : g₁.status ≠ .suspendedStart)
    (he : g₁.slice host steps a w = .done (g', p) w') : Reached host first (.pause g' p) := by
  obtain ⟨t, w₁, hr, he⟩ := slice_resumes hstatus he
  exact (h.resume hq (mayBecome_of_settle hq hg) hr).runOn he

theorem Reached.good {plan : Plan} {M : StackMap} {base : ScopeId} {isAsync : Bool} {t : Turn}
    (hM : M.Maps plan) (hh : host.Proper) (h : Reached host (.running plan base isAsync) t) :
    t.Good plan M := by
  induction h with
  | start a =>
    have hstart : (Turn.goOn (.running plan base isAsync)).Good plan M := by
      refine ⟨rfl, rfl, ?_⟩
      simp only [Instance.running, Instance.start, hM.entry]
      exact .nil
    cases a with
    | throw | ret => exact nofun
    | next | settled | delegateDone | delegateThrew => exact hstart
  | dispatch _ hi hd ih =>
    rw [Instance.instr?, ih.plan_eq] at hi
    exact dispatch_good host hM ih hh hi _ _ _ hd
  | resume _ hp hg hr ih => exact resumed_good host hM (hg.rests (ih hp)) _ _ _ _ hr

end Runs

def Turn.isReturned : Turn → Bool
  | .pause _ (.stop (.returned _)) => true
  | .goOn _ | .pause _ _ => false

theorem unwindThrough_not_returned (host : Host) {g : Instance} {signal : Signal}
    (frames : List Frame) (h : ∀ v, signal ≠ .ret v) :
    Gives (fun t => t.isReturned = false) (g.unwindThrough host signal frames) := by
  induction frames generalizing g signal with
  | nil =>
    cases signal with
    | ret v => exact absurd rfl (h v)
    | throw | jump => exact .pure rfl
  | cons f outer ih =>
    unfold Instance.unwindThrough
    cases signal.landing? (outer.length + 1) with
    | some j => exact .pure rfl
    | none =>
      dsimp only
      cases f.kind.receive signal with
      | handle | finalize => exact .pure rfl
      | pass => exact ih h
      | close iterator =>
        refine .bind fun r => ?_
        cases r with
        | ok => exact ih h
        | error c =>
          cases c with
          | throw v => exact ih fun _ => (by rintro ⟨⟩)
          | fatal e => exact .pure rfl
          | ret | brk | cont => exact ih h

/-- Whether all runs of a plan keep to a map. An instruction is dispatched with the stacks that the
map gives for it and finds there what it relies on, and a jump that leaves frames never ends the
instance. -/
structure StackMap.Governs (M : StackMap) (plan : Plan) (host : Host) : Prop where
  shape : ∀ base isAsync g, Reached host (.running plan base isAsync) (.goOn g) →
    g.shape = (M g.ip).shape
  founded : ∀ base isAsync g, Reached host (.running plan base isAsync) (.goOn g) →
    ∀ i, g.instr? = some i → i.Founded plan M g
  jump : ∀ (g : Instance) (j : Jump) (w : World) (t : Turn) (w' : World),
    g.unwind host (.jump j) w = .done t w' → t.isReturned = false

/-- Every plan that is built has a map that governs its runs. -/
theorem buildPlan_disciplined {inAsync : Bool} {params : List Pattern} {body : List Stmt}
    {plan : Plan} (h : buildPlan inAsync params body = .ok plan) :
    ∃ M : StackMap, ∀ host : Host, host.Proper → M.Governs plan host := by
  obtain ⟨M, hM⟩ := buildPlan_mapped h
  refine ⟨M, fun host hh => ⟨fun base isAsync g hg => ?_, fun base isAsync g hg i hi => ?_, ?_⟩⟩
  · exact Instance.At.shape_eq (hg.good hM hh)
  · have hat : g.At plan M (M g.ip) := hg.good hM hh
    rw [Instance.instr?, hat.plan_eq] at hi
    exact hat.founded hM hi
  · exact fun g j => unwindThrough_not_returned host g.frames fun _ => (by rintro ⟨⟩)

/-- A loop with a `continue` out of a finally block, for the host that runs scripts. -/
theorem buildPlan_disciplined_finally : ∃ plan, buildPlan false []
      [.forOf (.declare .const (.ident "x")) (.ident "xs")
        (.tryCatch [.expr (.yield (some (.ident "x")))] none (some [.cont none])) false] = .ok plan ∧
    (Host.withFuel 8).Proper ∧ ∃ M : StackMap, M.Governs plan (Host.withFuel 8) := by
  refine ⟨?plan, ?built, withFuel_proper 8, (buildPlan_disciplined ?built).imp fun M hM => ?_⟩
  case built => rfl
  exact hM _ (withFuel_proper 8)

end Resumable
