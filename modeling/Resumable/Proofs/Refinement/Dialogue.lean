import Mathlib.Data.List.Forall2
import Resumable.Proofs.Eval.Approximation
import Resumable.Proofs.Eval.Privacy
import Resumable.Proofs.Refinement.Tape

/-!
Evaluation as a dialogue. Every call and every suspension is recorded with the world in which it
happens, and each suspension goes on as the next reply of a script says. Main statements: code that
spells no slot takes part in the same dialogue whatever is in the slots (`Private.unseen`), and a host
that gives up earlier has the same dialogue up to there (`approximates`).
-/

set_option autoImplicit false

namespace Resumable

inductive Event where
  | call (f receiver : Value) (args : List Value)
  | suspend (kind : SuspendKind) (v : Value)

/-- A world together with what has happened, oldest first, and what is left of a script. -/
structure Dialogue where
  world : World
  events : List (Event × World)
  script : List Reply
  stopped : Bool

instance : HasWorld Dialogue := ⟨Dialogue.world, fun s w => { s with world := w }⟩

namespace Dialogue

def start (w : World) (script : List Reply) : Dialogue := ⟨w, [], script, false⟩

def lift {α : Type} (x : Run α) : RunOn Dialogue α := fun s =>
  match x s.world with
  | .done a w => .done a { s with world := w }
  | .abrupt c w => .abrupt c { s with world := w }
  | .exhausted => .exhausted

def record (e : Event) : RunOn Dialogue Unit := fun s =>
  .done () { s with events := s.events ++ [(e, s.world)] }

/-- Takes the next reply. Without one the run stops: the completion is one that nothing catches. -/
def nextReply : RunOn Dialogue Reply := fun s =>
  match s.script with
  | r :: rest => .done r { s with script := rest }
  | [] => .abrupt (.fatal .generatorRunning) { s with stopped := true }

end Dialogue

open Dialogue (lift record nextReply)

def answer (kind : SuspendKind) (v : Value) : RunOn Dialogue Value := do
  record (.suspend kind v)
  let r ← nextReply
  r.act

/-- A host that records the calls and answers every suspend expression from the script. -/
def answering (host : Host) : HostOn Dialogue where
  call f receiver args := do
    record (.call f receiver args)
    lift (host.call f receiver args)
  suspend kind operand := operand >>= answer kind
  fuel := host.fuel

namespace Private

/-- Whether dialogues are the same but for the slots, now and at each event. -/
structure Alike (p : Private) (s s' : Dialogue) : Prop where
  world : p.Near s.world s'.world
  events : List.Forall₂ (fun e e' => e.1 = e'.1 ∧ p.Near e.2 e'.2) s.events s'.events
  script : s.script = s'.script
  stopped : s.stopped = s'.stopped

variable {p : Private} {s s' : Dialogue}

theorem Alike.setWorld (h : p.Alike s s') {w w' : World} (hw : p.Near w w') :
    p.Alike { s with world := w } { s' with world := w' } :=
  ⟨hw, h.events, h.script, h.stopped⟩

/-- Whether the slots of a dialogue are as before, those with some names excepted. -/
def KeptIn (p : Private) (except : List String) (s t : Dialogue) : Prop :=
  p.Kept except s.world.scopes t.world.scopes

/-- Whether outcomes of dialogues are the same but for the slots, which the second leaves as they
were. -/
abbrev EndsLike {α : Type} (p : Private) (s' : Dialogue) :
    Outcome Dialogue α → Outcome Dialogue α → Prop :=
  Outcome.Like p.Alike (p.KeptIn [] s')

/-- Whether runs take part in the same dialogue whatever is in the slots. -/
def Unseen {α : Type} (p : Private) (x y : RunOn Dialogue α) : Prop :=
  ∀ s s', p.Alike s s' → p.EndsLike s' (x s) (y s')

namespace Unseen

variable {α β : Type}

theorem ofEdit {x y : Edit α}
    (hx : ∀ w w', p.Near w w' → (x w).1 = (y w').1 ∧ p.Near (x w).2 (y w').2 ∧
      p.Kept [] w'.scopes (y w').2.scopes) :
    p.Unseen (Run.edit x) (Run.edit y) := by
  intro s s' h
  obtain ⟨heq, hnear, hkept⟩ := hx _ _ h.world
  show Outcome.Like _ _ (.done (x s.world).1 _) (.done (y s'.world).1 _)
  rw [heq]
  exact .done (h.setWorld hnear) hkept

theorem ofView {view : World → α} (hv : ∀ w w', p.Near w w' → view w = view w') :
    p.Unseen (Run.read view) (Run.read view) := by
  intro s s' h
  show Outcome.Like _ _ (.done (view s.world) s) (.done (view s'.world) s')
  rw [hv _ _ h.world]
  exact .done h (.refl _)

theorem pure (a : α) : p.Unseen (Pure.pure a) (Pure.pure a) := fun _ _ h => .done h (.refl _)

theorem bind {x y : RunOn Dialogue α} {f g : α → RunOn Dialogue β} (hx : p.Unseen x y)
    (hf : ∀ a, p.Unseen (f a) (g a)) : p.Unseen (x >>= f) (y >>= g) := by
  intro s s' h
  have hxs := hx s s' h
  simp only [Bind.bind, RunOn.bind]
  generalize x s = r at hxs
  generalize y s' = r' at hxs
  cases hxs with
  | @done a t t' ht hk =>
    have hfs := hf a t t' ht
    dsimp only
    generalize f a t = r at hfs
    generalize g a t' = r' at hfs
    cases hfs with
    | done hu hk' => exact .done hu (hk.trans hk')
    | abrupt hu hk' => exact .abrupt hu (hk.trans hk')
    | exhausted => exact .exhausted
  | abrupt ht hk => exact .abrupt ht hk
  | exhausted => exact .exhausted

theorem attempt {x y : RunOn Dialogue α} (hx : p.Unseen x y) : p.Unseen x.attempt y.attempt := by
  intro s s' h
  have hxs := hx s s' h
  simp only [RunOn.attempt]
  generalize x s = r at hxs
  generalize y s' = r' at hxs
  cases hxs with
  | done ht hk => exact .done ht hk
  | abrupt ht hk => exact .done ht hk
  | exhausted => exact .exhausted

theorem record (e : Event) : p.Unseen (Dialogue.record e) (Dialogue.record e) := by
  intro s s' h
  refine .done ⟨h.world, ?_, h.script, h.stopped⟩ (.refl _)
  exact List.rel_append h.events (.cons ⟨rfl, h.world⟩ .nil)

theorem nextReply : p.Unseen Dialogue.nextReply Dialogue.nextReply := by
  intro s s' h
  simp only [Dialogue.nextReply, h.script]
  cases s'.script with
  | nil => exact .abrupt ⟨h.world, h.events, rfl, rfl⟩ (.refl _)
  | cons r rest => exact .done ⟨h.world, h.events, rfl, h.stopped⟩ (.refl _)

theorem abrupt (c : Abrupt) : p.Unseen (Run.abrupt c : RunOn Dialogue α) (Run.abrupt c) :=
  fun _ _ h => .abrupt h (.refl _)

theorem answer (kind : SuspendKind) (v : Value) :
    p.Unseen (Resumable.answer kind v) (Resumable.answer kind v) := by
  refine (record _).bind fun _ => nextReply.bind fun r => ?_
  obtain ⟨method, v⟩ := r
  cases method with
  | next => exact pure v
  | throw => exact abrupt _
  | ret => exact abrupt _

theorem lift {x : Run α} (hx : ∀ w, p.BlindAt x w) :
    p.Unseen (Dialogue.lift x) (Dialogue.lift x) := by
  intro s s' h
  have hxs := hx s.world s'.world h.world
  simp only [Dialogue.lift]
  generalize x s.world = r at hxs
  generalize x s'.world = r' at hxs
  cases hxs with
  | done hw hk => exact .done (h.setWorld hw) hk
  | abrupt hw hk => exact .abrupt (h.setWorld hw) hk
  | exhausted => exact .exhausted

end Unseen

theorem not_mem_names {name : String} (h : isSlotName name = false) : name ∉ p.names := by
  intro hn
  rw [p.slots name hn] at h
  cases h

/-- Runs that take part in the same dialogue whatever is in the slots. -/
def unseen (p : Private) : EvalRelation Dialogue Dialogue where
  rel := p.Unseen
  occurs _ := True
  names name := isSlotName name = false
  throw_occurs _ := trivial
  fatal_occurs _ := trivial
  pure := .pure
  bind := .bind
  attempt hx hok herror := hx.attempt.bind fun r => by
    cases r with
    | ok a => exact hok a
    | error c => exact herror c trivial
  abrupt c _ := .abrupt c
  exhausted _ _ _ := .exhausted
  heap := .ofView fun _ _ h => h.heap
  lookup scope _ hn := .ofView fun _ _ h => h.scopes.lookup scope (not_mem_names hn)
  has scope name hn := .ofView fun w w' h => by
    rw [Scopes.has, Scopes.has, h.scopes.binder? scope (not_mem_names hn)]
  this scope := .ofView fun w w' h => by
    rw [Scopes.value?, Scopes.value?, h.scopes.lookup scope (not_mem_names rfl)]
  edit x hx _ := .ofEdit fun w w' h => by
    obtain ⟨heq, hnear, hscopes⟩ := h.edit hx
    rw [hscopes]
    exact ⟨heq, hnear, .refl _⟩
  newScope scope := .ofEdit fun _ _ h => h.editScopes (respected_newScope scope)
  declare scope name kind hn := .ofEdit fun _ _ h =>
    h.editScopes (respected_declare scope kind (not_mem_names hn))
  assign scope name v hn := .ofEdit fun _ _ h =>
    h.editScopes (respected_assign scope v (not_mem_names hn))
  define scope name kind v hn := .ofEdit fun _ _ h =>
    h.editScopes ((respected_declare scope kind (not_mem_names hn)).bind fun _ =>
      respected_assign scope v (not_mem_names hn))

/-- Whether calls go the same way whatever is in the slots. -/
def Blind (p : Private) (host : Host) : Prop :=
  ∀ f receiver args w, p.BlindAt (host.call f receiver args) w

theorem Blind.suspends {host : Host} :
    SuspendsRelated p.unseen (answering host) (answering host) :=
  fun kind _ _ h => Unseen.bind h fun v => .answer kind v

theorem Blind.related {host : Host} (h : p.Blind host) :
    HostRelated p.unseen (answering host) (answering host) where
  call f receiver args := .bind (.record _) fun _ => .lift (h f receiver args)
  fuel := .same _
  await _ _ hxy := Unseen.bind hxy fun v => .answer .await v

end Private

theorem discreet_approximates (host : Host) (p : Private) :
    HostRelated approximates.toEvalRelation (answering (host.discreet p)) (answering host) where
  call f receiver args := by
    refine approximates.bind (fun _ => .inr rfl) fun _ s => ?_
    by_cases hb : p.BlindAt (host.call f receiver args) s.world
    · exact .inr (by simp only [lift, HostOn.discreet, if_pos hb])
    · exact .inl (by simp only [lift, HostOn.discreet, if_neg hb])
  fuel := .same _
  await x y hxy := approximates.bind hxy fun _ _ => .inr rfl

theorem Expr.eval_discreet (host : Host) (p : Private) (scope : ScopeId) (hint : Option String)
    (e : Expr) (s : Dialogue) :
    e.eval (answering (host.discreet p)) scope hint s = .exhausted ∨
      e.eval (answering (host.discreet p)) scope hint s =
        e.eval (answering host) scope hint s :=
  e.eval_related_of_all (discreet_approximates host p) (fun _ => trivial) scope hint
    (fun _ _ _ _ h => approximates.bind h fun _ _ => .inr rfl) s

end Resumable
