import Resumable.Proofs.Machine.Stacks
import Resumable.Proofs.Refinement.Play

/-!
How completions leave scopes, loops and frames. Where they lead depends on what is below them only;
a loop takes the jumps that are meant for it, and a frame what it can handle.
-/

set_option autoImplicit false

namespace Resumable

open Taped (lift)
open Instance (outermost)

/-- Whether no frame and no loop was entered with more on the stacks than there is. -/
structure Instance.Nested (g : Instance) : Prop where
  frames : ∀ f ∈ g.frames, f.scopes ≤ g.scopes.length ∧ f.loops ≤ g.loops.length
  loops : ∀ l ∈ g.loops, l.scopes ≤ g.scopes.length ∧ l.frames ≤ g.frames.length

def Instance.over (g : Instance) (scopes : List ScopeId) (loops : List LoopScope) (ip : Nat) :
    Instance :=
  { g with scopes := scopes ++ g.scopes, loops := loops ++ g.loops, ip }

/-- Whether two instances are the same once they are cut to these depths. -/
def Instance.SameCut (g₁ g : Instance) (scopes loops : Nat) : Prop :=
  ∀ frames ip, ({ g₁.cut scopes loops with frames, ip } : Instance) =
    { g.cut scopes loops with frames, ip }

theorem outermost_append {α : Type} {n : Nat} (xs ys : List α) (h : n ≤ ys.length) :
    outermost n (xs ++ ys) = outermost n ys := by
  induction xs with
  | nil => rfl
  | cons x xs ih =>
    rw [List.cons_append, outermost_cons (by simp; omega), ih]

theorem sameCut_over {g : Instance} {scopes loops : Nat} (hs : scopes ≤ g.scopes.length)
    (hl : loops ≤ g.loops.length) (xs : List ScopeId) (ls : List LoopScope) (ip : Nat) :
    (g.over xs ls ip).SameCut g scopes loops := by
  intro frames ip'
  simp only [Instance.cut, Instance.over, outermost_append _ _ hs, outermost_append _ _ hl]

section Unwinding

variable {host : Host} {g g₁ : Instance} {signal : Signal}

theorem onward_bind {α : Type} (x : Run α) (f : α → Run Turn) :
    onward host (x >>= f) = fun n => lift x >>= fun a => onward host (f a) n := by
  funext n
  simp [onward]

/-- What lies above the depths of the frames and of the jump makes no difference. -/
theorem unwindThrough_alike (frames : List Frame)
    (hf : ∀ f ∈ frames, g₁.SameCut g f.scopes f.loops)
    (hj : ∀ j, signal = .jump j → g₁.SameCut g j.scopes j.loops) :
    onward host (g₁.unwindThrough host signal frames) =
      onward host (g.unwindThrough host signal frames) := by
  induction frames generalizing g₁ g signal with
  | nil =>
    funext n
    cases signal with
    | ret v => simp [Instance.unwindThrough, Instance.leave, onward, Turn.stop]
    | throw v => simp [Instance.unwindThrough, Instance.leave, onward, Turn.stop]
    | jump j => simp only [Instance.unwindThrough, Instance.leave, Instance.land, hj j rfl _ _]
  | cons f outer ih =>
    have hhead := hf f (List.mem_cons_self ..)
    have htail := fun f' hf' => hf f' (List.mem_cons_of_mem _ hf')
    unfold Instance.unwindThrough
    cases hland : signal.landing? (outer.length + 1) with
    | some j =>
      have hsig : signal = .jump j := by
        cases signal with
        | jump k =>
          rw [Signal.landing?, Option.filter_eq_some_iff] at hland
          simpa [Signal.jump?] using hland.1
        | ret | throw => cases hland
      simp only [Instance.land, hj j hsig _ _]
    | none =>
      dsimp only
      cases f.kind.receive signal with
      | handle target v => simp only [Instance.enter, hhead _ _]
      | finalize target => simp only [Instance.enter, hhead _ _]
      | pass => exact ih htail hj
      | close iterator =>
        -- after the cut the two differ at most in their positions
        have hsame : ∀ scopes loops, Instance.SameCut
            { g₁.cut f.scopes f.loops with frames := outer }
            { g.cut f.scopes f.loops with frames := outer } scopes loops := by
          intro scopes loops frames ip
          exact congrArg (fun g : Instance => { g.cut scopes loops with frames, ip }) (hhead outer 0)
        dsimp only
        rw [onward_bind, onward_bind]
        funext n
        congr 1
        funext r
        cases r with
        | ok =>
          exact congrFun (ih (fun _ _ => hsame _ _) fun _ _ => hsame _ _) n
        | error c =>
          cases c with
          | throw v =>
            refine congrFun (ih (fun _ _ => hsame _ _) fun j h => ?_) n
            cases h
          | fatal e => simp [onward, Turn.stop]
          | ret | brk | cont =>
            exact congrFun (ih (fun _ _ => hsame _ _) fun _ _ => hsame _ _) n

end Unwinding

/-- Whether a completion is a jump that means this construct. -/
def Abrupt.meantFor (b : Breakable) : Abrupt → Bool
  | .brk label => b.isMeant label false
  | .cont label => b.isMeant label true
  | .ret _ | .throw _ | .fatal _ => false

section Signals

variable {host : Host} {g : Instance} {c : Abrupt}

theorem signal_skip {l : LoopScope} {ls : List LoopScope} (h : c.meantFor l.breakable = false) :
    c.signal? (l :: ls) = c.signal? ls := by
  cases c with
  | ret | throw | fatal => rfl
  | brk label | cont label =>
    simp only [Abrupt.signal?, jumpAmong, accepts_eq_isMeant]
    rw [if_neg (by simpa [Abrupt.meantFor] using h)]

theorem leads_skip {l : LoopScope} {ls : List LoopScope} (h : c.meantFor l.breakable = false) :
    c.Leads (l :: ls) ↔ c.Leads ls := by
  cases c with
  | fatal => exact Iff.rfl
  | ret | throw | brk | cont => simp only [Abrupt.Leads, signal_skip h]

theorem jumpAmong_bounds {label : Option String} {isContinue : Bool} {ls : List LoopScope}
    {j : Jump} (h : jumpAmong label isContinue ls = some j) :
    j.loops ≤ ls.length ∧ ∃ l ∈ ls, j.scopes = l.scopes ∧ j.frames = l.frames := by
  induction ls with
  | nil => cases h
  | cons l ls ih =>
    rw [jumpAmong] at h
    split at h
    · split at h
      · obtain ⟨t, -, rfl⟩ := Option.map_eq_some_iff.1 h
        exact ⟨by simp, l, by simp, rfl, rfl⟩
      · cases h
        exact ⟨by simp, l, by simp, rfl, rfl⟩
    · obtain ⟨hle, l', hl', h⟩ := ih h
      exact ⟨by simp; omega, l', by simp [hl'], h⟩

theorem signal_bounds (hg : g.Nested) {j : Jump} (h : c.signal? g.loops = some (.jump j)) :
    j.scopes ≤ g.scopes.length ∧ j.frames ≤ g.frames.length ∧ j.loops ≤ g.loops.length := by
  have hjump : ∃ label isContinue, jumpAmong label isContinue g.loops = some j := by
    cases c with
    | brk label | cont label =>
      obtain ⟨j', hj, hjj⟩ := Option.map_eq_some_iff.1 h
      cases hjj
      exact ⟨_, _, hj⟩
    | ret | throw | fatal => cases h
  obtain ⟨label, isContinue, hj⟩ := hjump
  obtain ⟨hloops, l, hl, hs, hf⟩ := jumpAmong_bounds hj
  have := hg.loops l hl
  exact ⟨by omega, by omega, hloops⟩

/-- A completion leads the same way from above scopes and loops that do not take it. -/
theorem escape_over (hg : g.Nested) (hc : c.Leads g.loops) (xs : List ScopeId)
    (ls : List LoopScope) (ip : Nat) (hls : ∀ l ∈ ls, c.meantFor l.breakable = false) :
    escape host (g.over xs ls ip) c = escape host g c := by
  have hsignal : c.signal? (ls ++ g.loops) = c.signal? g.loops := by
    induction ls with
    | nil => rfl
    | cons l ls ih =>
      rw [List.cons_append, signal_skip (hls l (by simp)), ih fun l' hl' => hls l' (by simp [hl'])]
  obtain ⟨e, rfl⟩ | ⟨signal, h⟩ := leads_cases hc
  · simp
  · rw [escape_signal h, escape_signal (g := g.over xs ls ip) (hsignal.trans h)]
    refine unwindThrough_alike g.frames (fun f hf => ?_) fun j hj => ?_
    · have := hg.frames f hf
      exact sameCut_over this.1 this.2 xs ls ip
    · subst hj
      have := signal_bounds hg h
      exact sameCut_over this.1 this.2.2 xs ls ip

theorem jump_lands (xs : List ScopeId) (ls : List LoopScope) (ip target : Nat) :
    onward host ((g.over xs ls ip).unwind host
      (.jump ⟨target, g.loops.length, g.scopes.length, g.frames.length⟩)) =
      playing host (g.goto target) := by
  have hland : (g.over xs ls ip).land
      ⟨target, g.loops.length, g.scopes.length, g.frames.length⟩ g.frames = g.goto target := by
    simp only [Instance.land, sameCut_over (Nat.le_refl _) (Nat.le_refl _) xs ls ip _ _]
    simp [Instance.cut, outermost_self, Instance.goto]
  rw [← onward_goOn, ← hland]
  unfold Instance.unwind
  simp only [Instance.over]
  cases hf : g.frames with
  | nil => rfl
  | cons f outer =>
    unfold Instance.unwindThrough
    simp [Signal.landing?, Signal.jump?, Option.filter_some]

theorem escape_break {l : LoopScope} {label : Option String} (hl : l.accepts label false = true)
    (hs : l.scopes = g.scopes.length) (hf : l.frames = g.frames.length) (xs : List ScopeId)
    (ip : Nat) :
    escape host (g.over xs [l] ip) (.brk label) = playing host (g.goto l.onBreak) := by
  rw [← jump_lands xs [l] ip, ← hs, ← hf]
  simp [escape, Instance.complete, Instance.jump, Instance.over, jumpAmong, hl]

theorem escape_continue {l : LoopScope} {label : Option String} {target : Nat}
    (hl : l.accepts label true = true) (ht : l.onContinue = some target)
    (hs : l.scopes = g.scopes.length) (hf : l.frames = g.frames.length) (xs : List ScopeId)
    (ip : Nat) :
    escape host (g.over xs [l] ip) (.cont label) = playing host (g.over [] [l] target) := by
  have h := @jump_lands host (g.over [] [l] 0) xs [] ip target
  have hgoto : (g.over [] [l] 0).goto target = g.over [] [l] target := rfl
  rw [← hgoto, ← h]
  simp [escape, Instance.complete, Instance.jump, Instance.over, jumpAmong, hl, ht, hs, hf]

end Signals

section Frames

variable {host : Host} {g : Instance} {c : Abrupt} {signal : Signal} {kind : FrameKind}

theorem pushFrame_cut (kind : FrameKind) :
    (g.pushFrame kind).cut g.scopes.length g.loops.length = g.pushFrame kind := by
  simp [Instance.cut, Instance.pushFrame, outermost_self]

section

variable (hj : ∀ j, signal = .jump j → j.frames ≤ g.frames.length)

include hj

theorem no_landing : signal.landing? (g.frames.length + 1) = none := by
  cases signal with
  | jump j =>
    have := hj j rfl
    simp only [Signal.landing?, Signal.jump?, Option.filter_some, decide_eq_true_eq]
    rw [if_neg (by omega)]
  | ret | throw => rfl

theorem unwind_handle {target : Nat} {v : Value} (h : kind.receive signal = .handle target v) :
    onward host ((g.pushFrame kind).unwind host signal) =
      playing host { (g.pushFrame (kind.enter .handler)).goto target with caught := some v } := by
  have hcut := pushFrame_cut (g := g) kind
  simp only [Instance.pushFrame] at hcut
  rw [← onward_goOn]
  simp only [Instance.unwind, Instance.pushFrame, Instance.unwindThrough, no_landing hj, h,
    Instance.enter, hcut]
  rfl

theorem unwind_finalize {target : Nat} (h : kind.receive signal = .finalize target) :
    onward host ((g.pushFrame kind).unwind host signal) =
      playing host ((g.pushFrame (kind.enter (.finalizer (some signal)))).goto target) := by
  have hcut := pushFrame_cut (g := g) kind
  simp only [Instance.pushFrame] at hcut
  rw [← onward_goOn]
  simp only [Instance.unwind, Instance.pushFrame, Instance.unwindThrough, no_landing hj, h,
    Instance.enter, hcut]
  rfl

theorem unwind_pass (h : kind.receive signal = .pass) :
    onward host ((g.pushFrame kind).unwind host signal) = onward host (g.unwind host signal) := by
  have hout : onward host ((g.pushFrame kind).unwindThrough host signal g.frames) =
      onward host (g.unwind host signal) :=
    unwindThrough_alike g.frames (fun _ _ _ _ => rfl) fun _ _ _ _ => rfl
  rw [← hout]
  simp only [Instance.unwind, Instance.pushFrame, Instance.unwindThrough, no_landing hj, h]

theorem unwind_close {iterator : Value} (h : kind.receive signal = .close iterator) :
    (g.pushFrame kind).unwind host signal =
      (closeIterator host iterator signal.isThrow).attempt >>= fun r =>
        match r with
        | .error (.throw v) => g.unwind host (.throw v)
        | .error (.fatal e) => return .stop g (.failed e)
        | _ => g.unwind host signal := by
  rewrite [Instance.unwind, Instance.pushFrame, Instance.unwindThrough, no_landing hj]
  dsimp only
  rewrite [h, ← Instance.pushFrame, pushFrame_cut]
  rfl

end

end Frames

end Resumable
