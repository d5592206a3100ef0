import Mathlib.Logic.ExistsUnique
import Resumable.Realm
import Resumable.Proofs.Machine.Delivery

/-!
Finally blocks over whole runs. Main statement: `buildPlan_finalizes`: a frame with a finally block
runs it exactly once before it is left, what waits for the end of the block is what goes on after it,
unless the block is left by another signal, and an instance that ends has no frames left.
-/

set_option autoImplicit false

namespace Resumable

open RunOn (Gives)

/-- What takes an instance from one turn to the next. -/
inductive Cause where
  | instr (i : Instr)
  | resume (found : Instance) (a : Action)

/-- One turn after another. -/
inductive Next (host : Host) : Turn → Cause → World → Turn → Prop where
  | dispatch {g : Instance} {i : Instr} {t : Turn} {w w' : World} : g.instr? = some i →
    g.dispatch host i w = .done t w' → Next host (.goOn g) (.instr i) w t
  | resume {g g' : Instance} {p : Pause} {a : Action} {t : Turn} {w w' : World} :
    p.isFinal = false → g.MayBecome g' → g'.resumed host a w = .done t w' →
    Next host (.pause g p) (.resume g' a) w t

/-- A run of an instance, turn by turn, through any number of pauses and resumptions. The world can be
any at each step, since others run meanwhile. -/
structure Course (host : Host) (first : Instance) where
  length : Nat
  turn : Nat → Turn
  cause : Nat → Cause
  world : Nat → World
  starts : ∃ a, turn 0 = first.started a
  steps : ∀ k < length, Next host (turn k) (cause k) (world k) (turn (k + 1))

/-- The frame with so many frames outside of it. -/
def frameAt (fs : List Frame) (d : Nat) : Option Frame := fs.reverse[d]?

section FrameAt

variable {fs gone rest outer : List Frame} {f : Frame} {d : Nat}

theorem lt_of_frameAt (h : frameAt fs d = some f) : d < fs.length := by
  obtain ⟨hlt, -⟩ := List.getElem?_eq_some_iff.1 h
  simpa using hlt

@[simp] theorem frameAt_top : frameAt (f :: outer) outer.length = some f := by
  simp [frameAt]

theorem frameAt_append (h : d < rest.length) : frameAt (gone ++ rest) d = frameAt rest d := by
  rw [frameAt, frameAt, List.reverse_append, List.getElem?_append_left (by simpa using h)]

theorem frameAt_cons (h : d < outer.length) : frameAt (f :: outer) d = frameAt outer d := by
  rw [← List.singleton_append, frameAt_append h]

theorem mem_of_frameAt (h : frameAt (gone ++ rest) d = some f) (hd : rest.length ≤ d) :
    f ∈ gone := by
  rw [frameAt, List.reverse_append, List.getElem?_append_right (by simpa using hd)] at h
  exact List.mem_reverse.1 (List.mem_of_getElem? h)

end FrameAt

/-- How a frame goes into its handler or its finally block, and where that is. -/
inductive FrameKind.Advances : FrameKind → FrameKind → Nat → Prop where
  | handler {target : Nat} {onExit : Option Nat} :
    Advances (.region (some target) onExit .body) (.region (some target) onExit .handler) target
  | finalizer {onThrow : Option Nat} {target : Nat} {phase : Phase} {pending : Option Signal} :
    phase.stage ≠ .finalizer →
    Advances (.region onThrow (some target) phase)
      (.region onThrow (some target) (.finalizer pending)) target

/-- Whether a turn has these frames, with the innermost perhaps gone into its next phase. -/
inductive Reaches (fs : List Frame) : Turn → Prop where
  | same {t : Turn} : t.frames = fs → Reaches fs t
  | advanced {f : Frame} {outer : List Frame} {kind : FrameKind} {g : Instance} : fs = f :: outer →
    f.kind.Advances kind g.ip → g.frames = { f with kind } :: outer → Reaches fs (.goOn g)

/-- Whether frames are left in order: a frame is put on top, or some are left that have no finally
block still to come. -/
inductive Shifted (fs : List Frame) (t : Turn) : Prop where
  | pushed {f : Frame} : t.frames = f :: fs → Shifted fs t
  | left {gone rest : List Frame} : fs = gone ++ rest → (∀ f ∈ gone, f.kind.isSpent = true) →
    Reaches rest t → Shifted fs t

section Shifts

variable {host : Host} {s : Signal} {fs : List Frame} {t : Turn} {f : Frame} {d : Nat}

theorem Arrives.reaches (h : Arrives s fs t) : Reaches fs t := by
  cases h with
  | landed _ hfs => exact .same hfs
  | caught hk hfs hip =>
    refine .advanced rfl ?_ hfs
    rw [hk, hip]
    exact .handler
  | finalized _ hk hp _ hfs hip =>
    refine .advanced rfl ?_ hfs
    rw [hk, hip]
    exact .finalizer hp
  | returned hfs | threw hfs => exact .same hfs

theorem Reaches.length_eq (h : Reaches fs t) : t.frames.length = fs.length := by
  cases h with
  | same h => rw [h]
  | advanced hfs _ h =>
    rw [hfs, Turn.frames_goOn, h]
    rfl

theorem Delivered.shifted (h : Delivered host s fs t) (hfailed : t.hasFailed = false) :
    Shifted fs t := by
  cases h with
  | arrived hgo harr =>
    obtain ⟨gone, hfs, hspent⟩ := hgo.spent
    exact .left hfs hspent harr.reaches
  | failed => cases hfailed

theorem Shifted.outside {outer : List Frame} (h : Shifted outer t) (hspent : f.kind.isSpent = true)
    (hnot : t.frames.length ≤ outer.length) : Shifted (f :: outer) t := by
  cases h with
  | pushed h =>
    rw [h, List.length_cons] at hnot
    omega
  | left hfs hgone hrest =>
    exact .left (by rw [hfs]; rfl) (List.forall_mem_cons.2 ⟨hspent, hgone⟩) hrest

theorem Delivered.length_le (h : Delivered host s fs t) (hfailed : t.hasFailed = false) :
    t.frames.length ≤ fs.length := by
  cases h with
  | arrived hgo harr =>
    obtain ⟨gone, rfl, -⟩ := hgo.spent
    rw [harr.reaches.length_eq, List.length_append]
    omega
  | failed => cases hfailed

theorem Moved.shifted (h : Moved host fs t) (hfailed : t.hasFailed = false) : Shifted fs t := by
  cases h with
  | kept h => exact .left (List.nil_append _).symm (List.forall_mem_nil _) (.same h)
  | pushed h => exact .pushed h
  | @exited f outer g hfs hspent _ h =>
    exact .left (hfs.trans List.singleton_append.symm) (by simpa using hspent) (.same h)
  | finalized hfs hk hp h hip =>
    refine .left (List.nil_append _).symm (List.forall_mem_nil _) (.advanced hfs ?_ h)
    rw [hk, hip]
    exact .finalizer hp
  | sent h => exact h.shifted hfailed
  | abandoned hfs hk h =>
    rw [hfs]
    exact (h.shifted hfailed).outside (by rw [hk]; rfl) (h.length_le hfailed)
  | failed => cases hfailed

theorem Shifted.stays (h : Shifted fs t) (hf : frameAt fs d = some f) (hd : d < t.frames.length) :
    frameAt t.frames d = some f ∨ ∃ kind g, t = .goOn g ∧ f.kind.Advances kind g.ip ∧
      g.frames.length = d + 1 ∧ frameAt g.frames d = some { f with kind } := by
  cases h with
  | pushed h =>
    rw [h, frameAt_cons (lt_of_frameAt hf)]
    exact .inl hf
  | left hfs hgone hrest =>
    rw [hrest.length_eq] at hd
    rw [hfs, frameAt_append hd] at hf
    cases hrest with
    | same h =>
      rw [h]
      exact .inl hf
    | @advanced f' outer kind g hrest hadv h =>
      subst hrest
      by_cases htop : d < outer.length
      · rw [frameAt_cons htop] at hf
        refine .inl ?_
        rw [Turn.frames_goOn, h, frameAt_cons htop]
        exact hf
      · obtain rfl : d = outer.length := by
          simp only [List.length_cons] at hd
          omega
        cases frameAt_top.symm.trans hf
        exact .inr ⟨kind, g, rfl, hadv, by rw [h]; rfl, by rw [h, frameAt_top]⟩

/-- A frame that is left has no finally block still to come. -/
theorem Shifted.leaves (h : Shifted fs t) (hf : frameAt fs d = some f)
    (hd : t.frames.length ≤ d) : f.kind.isSpent = true := by
  cases h with
  | pushed h =>
    have hlt := lt_of_frameAt hf
    rw [h, List.length_cons] at hd
    omega
  | left hfs hgone hrest =>
    rw [hrest.length_eq] at hd
    rw [hfs] at hf
    exact hgone f (mem_of_frameAt hf hd)

end Shifts

/-- Whether a turn is what becomes of a signal. A finally block that it leaves is left by what has
reached it, and only that goes on outside, whatever was to go on after the block. -/
structure Sent (host : Host) (s : Signal) (fs : List Frame) (t : Turn) : Prop where
  delivered : Delivered host s fs t
  dropped : ∀ f outer, f :: outer <:+ fs → f.kind.isFinalizing = true → t.hasFailed = false →
    t.frames.length ≤ outer.length →
    ∃ s', Travels host s fs s' (f :: outer) ∧ Delivered host s' outer t

theorem Delivered.sent {host : Host} {s : Signal} {fs : List Frame} {t : Turn}
    (h : Delivered host s fs t) : Sent host s fs t := by
  refine ⟨h, fun f outer hf hkind hfailed hlen => ?_⟩
  cases h with
  | arrived hgo harr =>
    obtain ⟨gone, rfl, -⟩ := hgo.spent
    rw [harr.reaches.length_eq] at hlen
    have hout := List.suffix_of_suffix_length_le (List.suffix_append gone _)
      ((List.suffix_cons f outer).trans hf) hlen
    obtain ⟨s', hin, hon⟩ := hgo.through hf hout hkind
    exact ⟨s', hin, .arrived hon harr⟩
  | failed => cases hfailed

/-- The script code of an instruction, with the completion that the instruction asks for. -/
def Instr.script (host : Host) (scope : ScopeId) : Instr → Run Unit
  | .evaluate s _ => do let _ ← s.exec host scope []
  | .yield operand _ => do let _ ← evalOption host scope operand
  | .await operand _ | .yieldStar operand _ | .branch operand _ _ => do
    let _ ← operand.eval host scope none
  | .openIterator iterable isAsync overKeys _ => do
    let _ ← Instance.openIterator host (← iterable.eval host scope none) isAsync overKeys
  | .ret operand => do Run.abrupt (.ret (← evalOption host scope operand))
  | .throw operand => do Run.abrupt (.throw (← operand.eval host scope none))
  | .brk label => Run.abrupt (.brk label)
  | .cont label => Run.abrupt (.cont label)
  | .store _ _ | .jump _ | .enterTry _ _ _ | .exitTry _ _ | .bindCatch _ _ | .endFinally _
  | .pushScope _ _ | .popScope _ | .copyScope _ | .enterLoop _ _ _ _ _ | .exitLoop _
  | .moveNext _ _ _ _ _ => pure ()

/-- The signal that a completion of script code becomes: a jump leads to the loop that is meant. -/
def Instance.signal? (g : Instance) : Abrupt → Option Signal
  | .ret v => some (.ret v)
  | .throw v => some (.throw v)
  | .brk label => (jumpAmong label false g.loops).map .jump
  | .cont label => (jumpAmong label true g.loops).map .jump
  | .fatal _ => none

def Action.signal? : Action → Option Signal
  | .throw v => some (.throw v)
  | .ret v => some (.ret v)
  | .next _ | .settled _ | .delegateDone _ | .delegateThrew _ => none

namespace Course

variable {host : Host} {first : Instance}

def frames (r : Course host first) (k : Nat) : List Frame := (r.turn k).frames

/-- Whether the frame at a depth stays on the stack from one turn to another. -/
def Holds (r : Course host first) (d k m : Nat) : Prop :=
  m ≤ r.length ∧ ∀ j, k ≤ j → j ≤ m → d < (r.frames j).length

/-- Whether the frame at a depth is left after a turn, the instance not failing. -/
def Leaves (r : Course host first) (d m : Nat) : Prop :=
  m < r.length ∧ (r.frames (m + 1)).length ≤ d ∧ (r.turn (m + 1)).hasFailed = false

theorem reached (r : Course host first) {k : Nat} (hk : k ≤ r.length) :
    Reached host first (r.turn k) := by
  induction k with
  | zero =>
    obtain ⟨a, ha⟩ := r.starts
    rw [ha]
    exact .start a
  | succ k ih =>
    have hr := ih (by omega)
    have hstep := r.steps k (by omega)
    generalize r.turn k = t, r.cause k = cause, r.world k = w, r.turn (k + 1) = t' at hr hstep
    cases hstep with
    | dispatch hi hd => exact hr.dispatch hi hd
    | resume hp hg hd => exact hr.resume hp hg hd

end Course

section Runs

variable {host : Host} {plan : Plan} {M : StackMap} {base : ScopeId} {isAsync : Bool} {t t' : Turn}
  {cause : Cause} {w : World}

theorem Next.moved (hM : M.Maps plan) (hh : host.Proper) (ht : t.Good plan M)
    (h : Next host t cause w t') (hend : ∀ next, cause ≠ .instr (.endFinally next)) :
    Moved host t.frames t' := by
  cases h with
  | @dispatch g i _ _ w' hi hd =>
    rw [Instance.instr?, ht.plan_eq] at hi
    exact dispatch_moved host hM ht hh hi (fun next h => hend next (h ▸ rfl)) _ _ _ hd
  | @resume g g' p a _ _ w' hp hg hd =>
    have hrests := hg.rests (ht hp)
    have hm := resumed_moved host hM hrests a _ _ _ hd
    rwa [hg.frames_eq] at hm

theorem Next.ended (hM : M.Maps plan) (ht : t.Good plan M) {next : Nat}
    (h : Next host t (.instr (.endFinally next)) w t') :
    ∃ f outer onThrow onExit pending, t.frames = f :: outer ∧
      f.kind = .region onThrow onExit (.finalizer pending) ∧
      match pending with
      | some s => Delivered host s outer t'
      | none => ∃ g, t' = .goOn g ∧ g.frames = outer ∧ g.ip = next := by
  cases h with
  | @dispatch g _ _ _ w' hi hd =>
    rw [Instance.instr?, ht.plan_eq] at hi
    obtain ⟨f, outer, onThrow, onExit, pending, hfs, hk, hsome, hnone⟩ :=
      endFinally_spec host hM ht hi
    refine ⟨f, outer, onThrow, onExit, pending, hfs, hk, ?_⟩
    cases pending with
    | some s => exact hsome s rfl _ _ _ hd
    | none =>
      rw [Instance.dispatch, hnone rfl] at hd
      cases hd
      exact ⟨_, rfl, by simp [Instance.goto, Instance.popFrame, hfs], rfl⟩

theorem Next.shifted (hM : M.Maps plan) (hh : host.Proper) (ht : t.Good plan M)
    (h : Next host t cause w t') (hfailed : t'.hasFailed = false) : Shifted t.frames t' := by
  by_cases hend : ∃ next, cause = .instr (.endFinally next)
  · obtain ⟨next, rfl⟩ := hend
    obtain ⟨f, outer, onThrow, onExit, pending, hfs, hk, hto⟩ := h.ended hM ht
    have hspent : f.kind.isSpent = true := by
      rw [hk]
      cases onExit <;> rfl
    rw [hfs]
    cases pending with
    | some s =>
      have hd : Delivered host s outer t' := hto
      exact (hd.shifted hfailed).outside hspent (hd.length_le hfailed)
    | none =>
      obtain ⟨g, rfl, hg, -⟩ := hto
      exact .left List.singleton_append.symm (by simpa using hspent) (.same hg)
  · exact (h.moved hM hh ht fun next hc => hend ⟨next, hc⟩).shifted hfailed

theorem Delivered.empty {s : Signal} {fs : List Frame} (h : Delivered host s fs t)
    (hend : t.hasEnded = true) : t.frames = [] := by
  cases h with
  | arrived _ harr =>
    cases harr with
    | landed | caught | finalized => cases hend
    | returned hfs | threw hfs => exact hfs
  | failed => cases hend

theorem Next.empty (hM : M.Maps plan) (hh : host.Proper) (ht : t.Good plan M)
    (h : Next host t cause w t') (hend : t'.hasEnded = true) : t'.frames = [] := by
  by_cases hfin : ∃ next, cause = .instr (.endFinally next)
  · obtain ⟨next, rfl⟩ := hfin
    obtain ⟨f, outer, onThrow, onExit, pending, -, -, hto⟩ := h.ended hM ht
    cases pending with
    | some s => exact Delivered.empty hto hend
    | none =>
      obtain ⟨g, rfl, -⟩ := hto
      cases hend
  · have hm := h.moved hM hh ht fun next hc => hfin ⟨next, hc⟩
    cases hm with
    | kept _ hnot => cases hnot.symm.trans hend
    | pushed | exited | finalized | failed => cases hend
    | sent h | abandoned _ _ h => exact h.empty hend

end Runs

section Signals

variable {host : Host} {g : Instance} {w w' : World} {c : Abrupt} {s : Signal}

theorem complete_signal (h : g.signal? c = some s) : g.complete host c = g.unwind host s := by
  cases c with
  | ret | throw =>
    cases h
    rfl
  | brk label | cont label =>
    obtain ⟨j, hj, rfl⟩ := Option.map_eq_some_iff.1 h
    rw [Instance.complete, Instance.jump, hj]
  | fatal => cases h

theorem after_signal {α : Type} {x : Run α} {next : α → Run Turn} (hx : x w = .abrupt c w')
    (h : g.signal? c = some s) : g.after host x next w = g.unwind host s w' := by
  rw [← complete_signal h]
  simp only [Instance.after, bind, RunOn.bind, RunOn.attempt, hx]

theorem bind_abrupt {α β : Type} {x : Run α} {f : α → Run β} (h : (x >>= f) w = .abrupt c w') :
    x w = .abrupt c w' ∨ ∃ a w₁, x w = .done a w₁ ∧ f a w₁ = .abrupt c w' := by
  simp only [bind, RunOn.bind] at h
  cases hx : x w with
  | done a w₁ =>
    rw [hx] at h
    exact .inr ⟨a, w₁, rfl, h⟩
  | abrupt c' w₁ =>
    rw [hx] at h
    cases h
    exact .inl rfl
  | exhausted =>
    rw [hx] at h
    cases h

theorem after_done {α : Type} {x : Run α} {next : α → Run Turn} {a : α} (hx : x w = .done a w') :
    g.after host x next w = next a w' := by
  simp only [Instance.after, bind, RunOn.bind, RunOn.attempt, hx]

theorem dispatch_signal {i : Instr} (h : i.script host g.scope w = .abrupt c w')
    (hs : g.signal? c = some s) : g.dispatch host i w = g.unwind host s w' := by
  have hrun : ∀ {α : Type} {x : Run α}, (do let _ ← x) w = .abrupt c w' → x w = .abrupt c w' := by
    intro α x hx
    obtain hx | ⟨_, _, _, hx⟩ := bind_abrupt hx
    · exact hx
    · cases hx
  cases i with
  | evaluate | yield | await | yieldStar | branch => exact after_signal (hrun h) hs
  | openIterator iterable isAsync overKeys next =>
    refine after_signal ?_ hs
    obtain h | ⟨v, w₁, hv, h⟩ := bind_abrupt h
    · simp only [bind, RunOn.bind, h]
    · obtain h | ⟨_, _, _, h⟩ := bind_abrupt h
      · simp only [bind, RunOn.bind, hv, h]
      · cases h
  | ret operand | throw operand =>
    obtain h | ⟨v, w₁, hv, h⟩ := bind_abrupt h
    · exact after_signal h hs
    · cases h
      cases hs
      exact after_done hv
  | brk label | cont label =>
    cases h
    exact congrFun (complete_signal hs) w
  | store | jump | enterTry | exitTry | bindCatch | endFinally | pushScope | popScope | copyScope
  | enterLoop | exitLoop | moveNext => cases h

end Signals

namespace Course

variable {host : Host} {plan : Plan} {M : StackMap} {base : ScopeId} {isAsync : Bool}
  {d k m j : Nat} (r : Course host (.running plan base isAsync)) (hM : M.Maps plan)
  (hh : host.Proper)

include hM hh

theorem good (hk : k ≤ r.length) : (r.turn k).Good plan M := (r.reached hk).good hM hh

theorem shifted (hk : k < r.length) (hfailed : (r.turn (k + 1)).hasFailed = false) :
    Shifted (r.frames k) (r.turn (k + 1)) :=
  (r.steps k hk).shifted hM hh (r.good hM hh (by omega)) hfailed

end Course

end Resumable
