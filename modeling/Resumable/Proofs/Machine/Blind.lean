import Resumable.Proofs.Machine.Delivery
import Resumable.Proofs.Plan.Exits

/-!
What a step does not look at. A step that starts inside some frames runs without looking at them, and
either leaves them as they are or sends a signal out to them; only then do they count. Main statements:
`dispatch_blind`, `resumed_blind`.
-/

set_option autoImplicit false

namespace Resumable

def Instance.onto (g : Instance) (fs : List Frame) : Instance := { g with frames := fs }

def Turn.onto (fs : List Frame) : Turn → Turn
  | .goOn g => .goOn (g.onto fs)
  | .pause g p => .pause (g.onto fs) p

section Onto

variable {host : Host} {g : Instance} {t : Turn} {fs gs : List Frame}

@[simp] theorem Turn.frames_onto : (t.onto fs).frames = fs := by
  cases t <;> rfl

@[simp] theorem Turn.hasFailed_onto : (t.onto fs).hasFailed = t.hasFailed := by
  match t with
  | .goOn _ | .pause _ (.delegate _ _) | .pause _ (.stop (.yielded _))
  | .pause _ (.stop (.awaiting _)) | .pause _ (.stop (.returned _)) | .pause _ (.stop (.threw _))
  | .pause _ (.stop (.failed _)) => rfl

section Scopes

variable (g : Instance) (scope : ScopeId)

end Scopes

section Receive

variable {s : Signal} {f : Frame} {outer : List Frame} {target : Nat}

variable (h : s.landing? (outer.length + 1) = none)

include h

end Receive

end Onto

def Signal.Clear (E : Marks) (s : Signal) : Prop := ∀ j, s = .jump j → E j.target = false

def LoopScope.Clear (E : Marks) (l : LoopScope) : Prop :=
  E l.onBreak = false ∧ ∀ a, l.onContinue = some a → E a = false

/-- Whether jumps out of an instance lead to no marked position, and it is at none itself once these
frames are left. -/
structure Instance.Clear (plan : Plan) (E : Marks) (top : List Frame) (g : Instance) : Prop where
  plan_eq : g.plan = plan
  loops : ∀ l ∈ g.loops, l.Clear E
  pending : ∀ f ∈ top, ∀ s, f.pending? = some s → s.Clear E
  ip : top = [] → E g.ip = false

/-- Whether an instance that has not failed leads to no marked position. -/
def Turn.Clear (plan : Plan) (E : Marks) (top : List Frame) (t : Turn) : Prop :=
  t.hasFailed = false → t.subject.Clear plan E top

/-- How a run uses frames that it gets: it puts others on top of them, or sends a signal through
them, and all else it does is the same whatever they are. -/
inductive BlindAt (host : Host) (plan : Plan) (E : Marks) (D : List Frame → Prop)
    (F : List Frame → Run Turn) (w : World) : Prop where
  | stays {t : Turn} {top : List Frame} {w' : World} : t.Clear plan E top →
    (∀ fs, D fs → F fs w = .done (t.onto (top ++ fs)) w') → BlindAt host plan E D F w
  | sends {g : Instance} {s : Signal} {w' : World} : g.plan = plan → (∀ l ∈ g.loops, l.Clear E) →
    s.Clear E → (∀ fs, D fs → F fs w = g.unwindThrough host s fs w') → BlindAt host plan E D F w
  | ends : (∀ fs, D fs → ∀ t w', F fs w ≠ .done t w') → BlindAt host plan E D F w

theorem BlindAt.congr {host : Host} {plan : Plan} {E : Marks} {D : List Frame → Prop}
    {F G : List Frame → Run Turn} {w w₁ : World} (h : BlindAt host plan E D G w₁)
    (heq : ∀ fs, D fs → F fs w = G fs w₁) : BlindAt host plan E D F w := by
  cases h with
  | stays ht h => exact .stays ht fun fs hfs => (heq fs hfs).trans (h fs hfs)
  | sends hp hl hs h => exact .sends hp hl hs fun fs hfs => (heq fs hfs).trans (h fs hfs)
  | ends h => exact .ends fun fs hfs t w' hF => h fs hfs t w' ((heq fs hfs).symm.trans hF)

/-- Whether a run looks at the frames that it gets only to send a signal through them. -/
def Blind (host : Host) (plan : Plan) (E : Marks) (D : List Frame → Prop)
    (F : List Frame → Run Turn) : Prop :=
  ∀ w, BlindAt host plan E D F w

namespace Blind

variable {host : Host} {plan : Plan} {E : Marks} {D : List Frame → Prop} {α : Type}

theorem congr {F G : List Frame → Run Turn} (h : Blind host plan E D G)
    (heq : ∀ fs, D fs → F fs = G fs) : Blind host plan E D F :=
  fun w => (h w).congr fun fs hfs => congrFun (heq fs hfs) w

theorem pure (t : Turn) (top : List Frame) (ht : t.Clear plan E top) :
    Blind host plan E D fun fs => Pure.pure (t.onto (top ++ fs)) :=
  fun _ => .stays ht fun _ _ => rfl

theorem exhausted : Blind host plan E D fun _ => Run.exhausted :=
  fun _ => .ends fun _ _ _ _ => nofun

theorem bind {x : Run α} {F : α → List Frame → Run Turn} (h : ∀ a, Blind host plan E D (F a)) :
    Blind host plan E D fun fs => x >>= fun a => F a fs := by
  intro w
  cases hx : x w with
  | done a w₁ =>
    refine (h a w₁).congr fun fs _ => ?_
    simp only [Bind.bind, RunOn.bind, hx]
  | abrupt c w₁ =>
    refine .ends fun fs _ t w' h => ?_
    simp only [Bind.bind, RunOn.bind, hx] at h
    cases h
  | exhausted =>
    refine .ends fun fs _ t w' h => ?_
    simp only [Bind.bind, RunOn.bind, hx] at h
    cases h

end Blind

theorem Marks.Mark.target {plan : Plan} {E : Marks} (hE : E.Mark plan) {ip a : Nat} {i : Instr}
    (hi : plan.get? ip = some i) (ha : a ∈ i.targets)
    (hmove : ∀ kind pattern body exit isAsync, i ≠ .moveNext kind pattern body exit isAsync)
    (hexit : ∀ next, i ≠ .exitLoop next) : E a = false := by
  have h := hE.heeds ip i hi
  cases i with
  | moveNext => exact absurd rfl (hmove _ _ _ _ _)
  | exitLoop => exact absurd rfl (hexit _)
  | exitTry =>
    rw [List.mem_singleton.1 ha]
    exact h.1
  | _ => exact h.2 a ha

section Steps

variable {host : Host} {plan : Plan} {E : Marks} {D : List Frame → Prop} {n : Nat}
  {g : Instance} {top : List Frame}

theorem Instance.Clear.cut (hg : g.Clear plan E top) (scopes loops : Nat) :
    ∀ l ∈ (g.cut scopes loops).loops, l.Clear E :=
  fun l hl => hg.loops l (List.mem_of_mem_drop hl)

theorem Instance.Clear.goto (hg : g.Clear plan E top) {next : Nat} (h : E next = false) :
    (Turn.goOn (g.goto next)).Clear plan E top :=
  fun _ => ⟨hg.plan_eq, hg.loops, hg.pending, fun _ => h⟩

variable (hn : ∀ fs, D fs → fs.length = n)

section Unwinding

include hn

end Unwinding

section Marked

variable (hE : E.Mark plan)

include hn hE

section Delegation

variable (hg : g.Clear plan E top)

include hg

end Delegation

section Inner

variable {f : Frame} {inner : List Frame} (hg : g.Clear plan E (f :: inner))

include hg

omit hn hE in
theorem Instance.Clear.tail {next : Nat} (h : E next = false) :
    ({ g with ip := next } : Instance).Clear plan E inner :=
  ⟨hg.plan_eq, hg.loops, fun f hf => hg.pending f (by simp [hf]), fun _ => h⟩

end Inner

end Marked

end Steps

end Resumable
