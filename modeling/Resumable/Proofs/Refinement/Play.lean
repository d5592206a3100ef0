import Resumable.Proofs.Refinement.Tape

/-!
Runs of an instance against a script, and when such a run follows the evaluation of a tree. A play is
a run that takes fuel; `Follows` says that it goes through what the evaluation does, in the same
states, and then goes on where the completion of the evaluation leads.
-/

set_option autoImplicit false

namespace Resumable

open Taped (lift emit)

/-- Runs an instance up to its end, with a reply of the script after each `yield`. -/
def driven (host : Host) : Nat → Turn → RunOn Taped Empty
  | _, .pause _ (.stop (.returned v)) => Run.abrupt (.ret v)
  | _, .pause _ (.stop (.threw v)) => Run.abrupt (.throw v)
  | _, .pause _ (.stop (.failed e)) => Run.abrupt (.fatal e)
  | _, .pause _ (.stop (.awaiting _)) | _, .pause _ (.delegate _ _) => Run.exhausted
  | 0, .pause _ (.stop (.yielded _)) | 0, .goOn _ => Run.exhausted
  | n + 1, .pause g (.stop (.yielded v)) => do
    let r ← emit v
    let t ← lift (Instance.resumed host { g with status := .executing } r.action)
    driven host n t
  | n + 1, .goOn g =>
    match g.instr? with
    | none => Run.exhausted
    | some i => do
      let t ← lift (g.dispatch host i)
      driven host n t

section Driven

variable (host : Host) (n : Nat) (g : Instance)

@[simp] theorem driven_returned (v : Value) :
    driven host n (.pause g (.stop (.returned v))) = Run.abrupt (.ret v) := by
  cases n <;> rfl

@[simp] theorem driven_threw (v : Value) :
    driven host n (.pause g (.stop (.threw v))) = Run.abrupt (.throw v) := by
  cases n <;> rfl

@[simp] theorem driven_failed (e : Fatal) :
    driven host n (.pause g (.stop (.failed e))) = Run.abrupt (.fatal e) := by
  cases n <;> rfl

theorem driven_goOn {i : Instr} (hi : g.instr? = some i) :
    driven host (n + 1) (.goOn g) = lift (g.dispatch host i) >>= driven host n := by
  simp only [driven, hi]

end Driven

abbrev Play := Nat → RunOn Taped Empty

def onward (host : Host) (x : Run Turn) : Play := fun n => lift x >>= driven host n

def playing (host : Host) (g : Instance) : Play := fun n => driven host n (.goOn g)

/-- The play of an instance in which an abrupt completion is on its way out. -/
def escape (host : Host) (g : Instance) (c : Abrupt) : Play := onward host (g.complete host c)

theorem onward_goOn (host : Host) (g : Instance) :
    onward host (return .goOn g) = playing host g := rfl

@[simp] theorem escape_fatal (host : Host) (g : Instance) (e : Fatal) :
    escape host g (.fatal e) = fun _ => Run.abrupt (.fatal e) := by
  funext n
  exact driven_failed host n g e

/-- Whether one play goes on as another one after some steps. -/
def Play.Leads (a : Play) (s : Taped) (b : Play) (s' : Taped) : Prop :=
  ∃ n, ∀ m, a (n + m) s = b m s'

namespace Play.Leads

theorem refl (a : Play) (s : Taped) : a.Leads s a s := ⟨0, fun m => by rw [Nat.zero_add]⟩

theorem trans {a b c : Play} {s t u : Taped} (h : a.Leads s b t) (h' : b.Leads t c u) :
    a.Leads s c u := by
  obtain ⟨n, h⟩ := h
  obtain ⟨n', h'⟩ := h'
  exact ⟨n + n', fun m => by rw [Nat.add_assoc, h, h']⟩

end Play.Leads

/-- The signal that a completion becomes among these loops. A fatal error becomes none, and neither
does a jump that finds no loop. -/
def Abrupt.signal? (loops : List LoopScope) : Abrupt → Option Signal
  | .ret v => some (.ret v)
  | .throw v => some (.throw v)
  | .brk label => (jumpAmong label false loops).map .jump
  | .cont label => (jumpAmong label true loops).map .jump
  | .fatal _ => none

/-- Whether a completion is fatal or finds where to go. -/
def Abrupt.Leads (loops : List LoopScope) : Abrupt → Prop
  | .fatal _ => True
  | c => (c.signal? loops).isSome = true

theorem escape_signal {host : Host} {g : Instance} {c : Abrupt} {signal : Signal}
    (h : c.signal? g.loops = some signal) :
    escape host g c = onward host (g.unwind host signal) := by
  cases c with
  | ret | throw =>
    cases h
    rfl
  | brk label | cont label =>
    simp only [Abrupt.signal?, Option.map_eq_some_iff] at h
    obtain ⟨j, hj, rfl⟩ := h
    simp only [escape, Instance.complete, Instance.jump, hj]
  | fatal => cases h

theorem leads_cases {loops : List LoopScope} {c : Abrupt} (h : c.Leads loops) :
    (∃ e, c = .fatal e) ∨ ∃ signal, c.signal? loops = some signal := by
  cases c with
  | fatal e => exact .inl ⟨e, rfl⟩
  | _ => exact .inr (Option.isSome_iff_exists.1 h)

def Abrupt.isJump : Abrupt → Bool
  | .brk _ | .cont _ => true
  | .ret _ | .throw _ | .fatal _ => false

theorem leads_of_not_jump {loops : List LoopScope} {c : Abrupt} (h : c.isJump = false) :
    c.Leads loops := by
  cases c with
  | ret | throw | fatal => trivial
  | brk | cont => cases h

theorem isJump_of_leavesCalls {c : Abrupt} (h : c.leavesCalls = true) : c.isJump = false := by
  cases c with
  | throw | fatal => rfl
  | ret | brk | cont => cases h

/-- Whether a play goes through an outcome: when that is done, the play goes on as `next` says, and
when it is abrupt, as the completion leads from the instance `g`; all such completions satisfy
`P`. -/
def Outcome.GoneThrough {α : Type} (host : Host) (g : Instance) (P : Abrupt → Prop)
    (next : α → Play) (a : Play) (s : Taped) : Outcome Taped α → Prop
  | .done v s' => a.Leads s (next v) s'
  | .abrupt c s' => P c ∧ a.Leads s (escape host g c) s'
  | .exhausted => True

theorem Outcome.GoneThrough.lead {α : Type} {host : Host} {g : Instance} {P : Abrupt → Prop}
    {next : α → Play} {a b : Play} {s s' : Taped} {o : Outcome Taped α}
    (h : o.GoneThrough host g P next b s') (hab : a.Leads s b s') :
    o.GoneThrough host g P next a s := by
  cases o with
  | done => exact hab.trans h
  | abrupt => exact ⟨h.1, hab.trans h.2⟩
  | exhausted => trivial

/-- Whether a play follows an evaluation, from all states. -/
def Follows {α : Type} (host : Host) (g : Instance) (P : Abrupt → Prop) (a : Play)
    (x : RunOn Taped α) (next : α → Play) : Prop :=
  ∀ s, (x s).GoneThrough host g P next a s

namespace Follows

variable {α β : Type} {host : Host} {g : Instance} {P : Abrupt → Prop} {a : Play}
  {x : RunOn Taped α} {next : α → Play}

theorem pure {v : α} : Follows host g P (next v) (Pure.pure v) next := fun s => .refl _ s

/-- Where the play goes on does not depend on the value. -/
theorem here (v : α) : Follows host g P a (Pure.pure v) fun _ => a := fun s => .refl _ s

theorem exhausted : Follows host g P a (Run.exhausted : RunOn Taped α) next := fun _ => trivial

theorem abrupt {c : Abrupt} (hc : P c) :
    Follows host g P (escape host g c) (Run.abrupt c : RunOn Taped α) next :=
  fun s => ⟨hc, .refl _ s⟩

theorem mono {Q : Abrupt → Prop} (h : Follows host g Q a x next) (hQ : ∀ c, Q c → P c) :
    Follows host g P a x next := by
  intro s
  have h := h s
  cases hxs : x s with
  | done | exhausted =>
    rw [hxs] at h
    exact h
  | abrupt c s' =>
    rw [hxs] at h
    exact ⟨hQ c h.1, h.2⟩

theorem bind {f : α → RunOn Taped β} {next' : β → Play} (hx : Follows host g P a x next)
    (hf : ∀ v, Follows host g P (next v) (f v) next') : Follows host g P a (x >>= f) next' := by
  intro s
  have hx := hx s
  simp only [Bind.bind, RunOn.bind]
  cases hxs : x s with
  | done v s' =>
    rw [hxs] at hx
    exact (hf v s').lead hx
  | abrupt c s' | exhausted =>
    rw [hxs] at hx
    exact hx

theorem attempt {g₁ : Instance} {Q : Abrupt → Prop} {f : Except Abrupt α → RunOn Taped β} {next' : β → Play}
    (hx : Follows host g₁ Q a x next) (hok : ∀ v, Follows host g P (next v) (f (.ok v)) next')
    (herror : ∀ c, Q c → Follows host g P (escape host g₁ c) (f (.error c)) next') :
    Follows host g P a (x.attempt >>= f) next' := by
  intro s
  have hx := hx s
  simp only [Bind.bind, RunOn.bind, RunOn.attempt]
  cases hxs : x s with
  | done v s' =>
    rw [hxs] at hx
    exact (hok v s').lead hx
  | abrupt c s' =>
    rw [hxs] at hx
    exact (herror c hx.1 s').lead hx.2
  | exhausted => trivial

theorem lead {b : Play} (h : Follows host g P b x next) (hab : ∀ s, a.Leads s b s) :
    Follows host g P a x next := fun s => (h s).lead (hab s)

theorem landing {next' : α → Play} (h : Follows host g P a x next)
    (hn : ∀ v s, (next v).Leads s (next' v) s) : Follows host g P a x next' := by
  intro s
  have h := h s
  cases hxs : x s with
  | done v s' =>
    rw [hxs] at h
    exact h.trans (hn v s')
  | abrupt | exhausted =>
    rw [hxs] at h
    exact h

/-- A completion that leads the same way from another instance can be taken there. -/
theorem level {g₁ : Instance} {Q : Abrupt → Prop} (h : Follows host g₁ Q a x next)
    (hc : ∀ c, Q c → P c ∧ escape host g₁ c = escape host g c) :
    Follows host g P a x next := by
  intro s
  have h := h s
  cases hxs : x s with
  | done | exhausted =>
    rw [hxs] at h
    exact h
  | abrupt c s' =>
    rw [hxs] at h
    obtain ⟨hleads, heq⟩ := hc c h.1
    exact ⟨hleads, heq ▸ h.2⟩

theorem step {g₀ : Instance} {i : Instr} (hi : g₀.instr? = some i)
    (h : Follows host g P (onward host (g₀.dispatch host i)) x next) :
    Follows host g P (playing host g₀) x next := by
  refine h.lead fun s => ⟨1, fun m => ?_⟩
  rw [playing, Nat.add_comm, driven_goOn host m g₀ hi]
  rfl

theorem edit {e : Edit β} {k : β → Run Turn} {f : β → RunOn Taped α}
    (h : ∀ v, Follows host g P (onward host (k v)) (f v) next) :
    Follows host g P (onward host (Run.edit e >>= k)) (Run.edit e >>= f) next := by
  intro s
  have h := h (e s.world).1 { s with world := (e s.world).2 }
  exact h

theorem read {view : World → β} {k : β → Run Turn} {f : β → RunOn Taped α}
    (h : ∀ v, Follows host g P (onward host (k v)) (f v) next) :
    Follows host g P (onward host (Run.read view >>= k)) (Run.read view >>= f) next :=
  fun s => h (view s.world) s

theorem onward_after {g₀ : Instance} {y : Run β} {k : β → Run Turn} (n : Nat) (s : Taped) :
    onward host (g₀.after host y k) n s =
      match y s.world with
      | .done v w => onward host (k v) n { s with world := w }
      | .abrupt c w => escape host g₀ c n { s with world := w }
      | .exhausted => .exhausted := by
  simp only [onward, escape, Instance.after, Bind.bind, RunOn.bind, RunOn.attempt, lift]
  cases y s.world <;> rfl

theorem after_of {g₀ : Instance} {y : Run β} {k : β → Run Turn} {f : β → RunOn Taped α}
    {Q : β → Prop} (hy : RunOn.Gives Q y)
    (hk : ∀ v, Q v → Follows host g P (onward host (k v)) (f v) next)
    (hc : ∀ w c w', y w = .abrupt c w' → P c ∧ escape host g₀ c = escape host g c) :
    Follows host g P (onward host (g₀.after host y k)) (lift y >>= f) next := by
  intro s
  have honward : ∀ n, onward host (g₀.after host y k) n s = _ := fun n => onward_after n s
  simp only [Bind.bind, RunOn.bind, lift]
  cases hys : y s.world with
  | done v w =>
    simp only [hys] at honward
    exact (hk v (hy _ _ _ hys) { s with world := w }).lead
      ⟨0, fun m => by rw [Nat.zero_add, honward]⟩
  | abrupt c w =>
    obtain ⟨hl, heq⟩ := hc _ _ _ hys
    simp only [hys] at honward
    exact ⟨hl, 0, fun m => by rw [honward, Nat.zero_add, heq]⟩
  | exhausted => trivial

theorem after {o : Instance} {y : Run β} {k : β → Run Turn} {f : β → RunOn Taped α}
    (hk : ∀ v, Follows host g P (onward host (k v)) (f v) next)
    (hc : ∀ w c w', y w = .abrupt c w' → P c ∧ escape host o c = escape host g c) :
    Follows host g P (onward host (o.after host y k)) (lift y >>= f) next :=
  after_of (Q := fun _ => True) (fun _ _ _ _ => trivial) (fun v _ => hk v) hc

end Follows

end Resumable
