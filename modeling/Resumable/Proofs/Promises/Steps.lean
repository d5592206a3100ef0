import Mathlib.Logic.Relation
import Resumable.Proofs.Machine.Conduct
import Resumable.Proofs.Promises.Rights
import Resumable.Realm

/-!
The steps that runs are made of, as far as promises and activations go. A configuration is a world, the
rights that the parties at work have taken out of it, and a log of what has happened. Each step is one
edit of the world; it says which rights it takes and gives, and what it adds to the log.
-/

set_option autoImplicit false

namespace Resumable

def pick {κ β : Type} [DecidableEq κ] (key : κ) (xs : List (κ × β)) : List β :=
  xs.filterMap fun x => if x.1 = key then some x.2 else none

section Pick

variable {κ β : Type} [DecidableEq κ] {key : κ} {xs ys : List (κ × β)}

@[simp] theorem pick_nil : pick key ([] : List (κ × β)) = [] := rfl

@[simp] theorem pick_append : pick key (xs ++ ys) = pick key xs ++ pick key ys :=
  List.filterMap_append

@[simp] theorem pick_self (b : β) : pick key [(key, b)] = [b] := by simp [pick]

theorem pick_other {other : κ} (h : other ≠ key) (b : β) : pick key [(other, b)] = [] := by
  simp [pick, h]

theorem pick_map_self {α : Type} (f : α → β) (as : List α) :
    pick key (as.map fun a => (key, f a)) = as.map f := by
  simp [pick, List.filterMap_map]

theorem pick_map_other {α : Type} {other : κ} (h : other ≠ key) (f : α → β) (as : List α) :
    pick key (as.map fun a => (other, f a)) = [] := by
  simp [pick, List.filterMap_map, h]

end Pick

/-- What has happened so far, oldest first. -/
structure Log where
  /-- The promise of each pair of resolving functions, one pair for each latch. -/
  targets : List ObjectId
  registered : List (ObjectId × Reaction)
  queued : List (Option ObjectId × Job)
  ran : List Job
  requested : List (AsyncGeneratorId × Request)
  delivered : List (AsyncGeneratorId × Request)
  /-- The requests that were taken out of a queue because there is an outcome. -/
  answered : List (AsyncGeneratorId × Request)
  /-- Those of them whose promise was not settled at once, for the result has a method `then`. -/
  entrusted : List (AsyncGeneratorId × Request)

def Log.empty : Log := ⟨[], [], [], [], [], [], [], []⟩

/-- Whether nothing has happened to requests. -/
structure Log.SameRequests (L L' : Log) : Prop where
  requested : L'.requested = L.requested
  delivered : L'.delivered = L.delivered
  answered : L'.answered = L.answered
  entrusted : L'.entrusted = L.entrusted

theorem Log.SameRequests.refl {L : Log} : L.SameRequests L := ⟨rfl, rfl, rfl, rfl⟩

theorem Log.SameRequests.trans {L L₁ L₂ : Log} (h : L.SameRequests L₁) (h' : L₁.SameRequests L₂) :
    L.SameRequests L₂ :=
  ⟨h'.requested.trans h.requested, h'.delivered.trans h.delivered, h'.answered.trans h.answered,
    h'.entrusted.trans h.entrusted⟩

structure Config where
  world : World
  held : Multiset Right
  log : Log

namespace Config

/-- All rights, in use or not. -/
def rights (c : Config) : Multiset Right := c.held + c.world.rights c.log.targets

/-- Whether an asynchronous instance may be resumed: its own right is in use, or that to serve the
generator whose body it is. -/
def MayRun (c : Config) (i : InstanceId) : Prop :=
  .own i ∈ c.held ∨ ∃ id a, .serving id ∈ c.held ∧ c.world.asyncGenerators[id]? = some a ∧ a.inst = i

def start : Config := ⟨.initial, 0, .empty⟩

theorem start_world : start.world = .initial := by simp only [start]

theorem start_held : start.held = 0 := by simp only [start]

end Config

/-- Whether an instance is there and is synchronous. -/
def IsSync (gs : Array Instance) (i : InstanceId) : Prop := ∃ g, gs[i]? = some g ∧ g.isAsync = false

/-- What holds of an instance whatever it does: only synchronous ones wait for promises and delegate
directly, and to such; one that does not run in the middle of its body awaits nothing. -/
structure Instance.Proper (gs : Array Instance) (g : Instance) : Prop where
  parked : g.parked.isSome = true → g.status = .suspendedYield ∧ g.isAsync = false
  delegate : ∀ j, g.delegate? = some j → g.isAsync = false ∧ IsSync gs j
  started : g.status = .suspendedStart → g.awaiting = none
  ended : g.status = .completed → g.isAsync = true → g.awaiting = none

/-- What the role of an object says about the rest of the world. -/
def Role.Sound (gs : Array Instance) (generators : Nat) (targets : List ObjectId) : Role → Prop
  | .generator i => IsSync gs i
  | .asyncGenerator id => id < generators
  | .function (.native (.resolve p l)) | .function (.native (.reject p l)) => targets[l]? = some p
  | .ordinary | .array _ | .arrayIterator _ _ _ _ | .promise _ | .function _ => True

def Role.isGenerator : Role → Bool
  | .generator _ | .asyncGenerator _ => true
  | .ordinary | .array _ | .arrayIterator _ _ _ _ | .promise _ | .function _ => false

/-- Whether the body of a generator does not execute. -/
def World.Halts (w : World) (id : AsyncGeneratorId) : Prop :=
  ∀ a g, w.asyncGenerators[id]? = some a → w.instances[a.inst]? = some g → g.status ≠ .executing

def World.Rests (w : World) (id : AsyncGeneratorId) : Prop :=
  ∀ a g, w.asyncGenerators[id]? = some a → w.instances[a.inst]? = some g →
    g.status ≠ .executing ∧ g.awaiting = none

/-- Adds a request to a queue; a generator with a request is at work. -/
def Edit.request (id : AsyncGeneratorId) (r : Request) : Edit Unit :=
  Edit.modifyAsyncGenerator id fun a => { a with queue := a.queue ++ [r], running := true }

def Edit.dropRequest (id : AsyncGeneratorId) : Edit Unit :=
  Edit.modifyAsyncGenerator id fun a => { a with queue := a.queue.tail }

/-- The job that a reaction becomes at once if its promise has settled. -/
def PromiseState.reacts (p : ObjectId) (r : Reaction) : PromiseState → List (Option ObjectId × Job)
  | .pending _ => []
  | .settled s => [(some p, .react r s)]

def settledJobs (p : ObjectId) (s : Settlement) (rs : List Reaction) : List (Option ObjectId × Job) :=
  rs.map fun r => (some p, .react r s)

/-- One step of a run. -/
inductive Step : Config → Config → Prop where
  | calm {w w' : World} {H : Multiset Right} {L : Log} : w.Calm w' → Step ⟨w, H, L⟩ ⟨w', H, L⟩
  | instances {w : World} {H : Multiset Right} {L : Log} (gs : Array Instance) :
    gs.size = w.instances.size →
    (∀ i g g', w.instances[i]? = some g → gs[i]? = some g' → g' = g ∨
      g'.isAsync = g.isAsync ∧ g'.Proper w.instances ∧
        (g.isAsync = false ∨ Config.MayRun ⟨w, H, L⟩ i)) →
    Step ⟨w, H, L⟩ ⟨{ w with instances := gs }, H, L⟩
  | activate {w : World} {H : Multiset Right} {L : Log} (plan : Plan) (scope : ScopeId)
    (isAsync : Bool) :
    Step ⟨w, H, L⟩ ⟨(Edit.newInstance (.start plan scope isAsync) w).2,
      (if isAsync then {.own w.instances.size} else 0) + H, L⟩
  | wrap {w : World} {H : Multiset Right} {L : Log} (o : Object) : o.role.isGenerator = true →
    o.role.Sound w.instances w.asyncGenerators.size L.targets → Step ⟨w, H, L⟩ ⟨(Edit.alloc o w).2, H, L⟩
  | newAsyncGenerator {w : World} {H : Multiset Right} {L : Log} {i : InstanceId} {g : Instance} :
    w.instances[i]? = some g → g.status ≠ .executing → g.awaiting = none →
    Step ⟨w, .own i ::ₘ H, L⟩ ⟨(Edit.newAsyncGenerator i w).2, H, L⟩
  | newPromise {w : World} {H : Multiset Right} {L : Log} :
    Step ⟨w, H, L⟩ ⟨(Edit.newPromise w).2, .settle w.heap.objects.size ::ₘ H, L⟩
  | newResolvers {w : World} {H : Multiset Right} {L : Log} (p : ObjectId) :
    Step ⟨w, .settle p ::ₘ H, L⟩
      ⟨(Promise.newResolvers p w).2, H, { L with targets := L.targets ++ [p] }⟩
  | take {w : World} {H : Multiset Right} {L : Log} {l : LatchId} {p : ObjectId} :
    L.targets[l]? = some p → w.latches[l]? = some false →
    Step ⟨w, H, L⟩ ⟨(Edit.takeLatch l w).2, .settle p ::ₘ H, L⟩
  | settle {w : World} {H : Multiset Right} {L : Log} {p : ObjectId} {rs : List Reaction}
    (s : Settlement) : w.heap.promise? (.obj p) = some (.pending rs) →
    Step ⟨w, .settle p ::ₘ H, L⟩
      ⟨(Promise.settle p s w).2, H, { L with queued := L.queued ++ settledJobs p s rs }⟩
  | register {w : World} {H : Multiset Right} {L : Log} {p : ObjectId} {state : PromiseState}
    (r : Reaction) : w.heap.promise? (.obj p) = some state →
    (∀ id, .serving id ∈ r.rights → w.Halts id) →
    Step ⟨w, r.rights + H, L⟩
      ⟨(Promise.addReaction p r w).2, H, { L with
        registered := L.registered ++ [(p, r)]
        queued := L.queued ++ state.reacts p r }⟩
  | adopt {w : World} {H : Multiset Right} {L : Log} (thenable method resolve reject : Value) :
    Step ⟨w, H, L⟩ ⟨(Edit.enqueue (.adopt thenable method resolve reject) w).2, H,
      { L with queued := L.queued ++ [(none, .adopt thenable method resolve reject)] }⟩
  /-- A request is made; if the generator is idle, whoever makes it has to serve it. -/
  | request {w : World} {H : Multiset Right} {L : Log} {id : AsyncGeneratorId} {a : AsyncGenerator}
    (r : Request) : w.asyncGenerators[id]? = some a → r.action.endsDelegate = false →
    Step ⟨w, .settle r.promise ::ₘ H, L⟩
      ⟨(Edit.request id r w).2, (if a.running then 0 else {.ready id}) + H,
        { L with requested := L.requested ++ [(id, r)] }⟩
  | deliver {w : World} {H : Multiset Right} {L : Log} {id : AsyncGeneratorId} {a : AsyncGenerator}
    {r : Request} {rest : List Request} : w.asyncGenerators[id]? = some a → a.queue = r :: rest →
    Step ⟨w, .ready id ::ₘ H, L⟩
      ⟨w, .serving id ::ₘ H, { L with delivered := L.delivered ++ [(id, r)] }⟩
  /-- There is an outcome: the request at the head leaves the queue, and its promise is settled. -/
  | answer {w : World} {H : Multiset Right} {L : Log} {id : AsyncGeneratorId} {a : AsyncGenerator}
    {r : Request} {rest : List Request} {rs : List Reaction} (s : Settlement) :
    w.asyncGenerators[id]? = some a → a.queue = r :: rest → w.Rests id →
    w.heap.promise? (.obj r.promise) = some (.pending rs) →
    Step ⟨w, .serving id ::ₘ H, L⟩
      ⟨(Promise.settle r.promise s (Edit.dropRequest id w).2).2, .ready id ::ₘ H, { L with
        queued := L.queued ++ settledJobs r.promise s rs
        answered := L.answered ++ [(id, r)] }⟩
  | entrust {w : World} {H : Multiset Right} {L : Log} {id : AsyncGeneratorId} {a : AsyncGenerator}
    {r : Request} {rest : List Request} :
    w.asyncGenerators[id]? = some a → a.queue = r :: rest → w.Rests id →
    w.heap.isCallable (w.heap.property (.obj w.realm.object) "then") = true →
    Step ⟨w, .serving id ::ₘ H, L⟩
      ⟨(Edit.dropRequest id w).2, .ready id ::ₘ .settle r.promise ::ₘ H, { L with
        answered := L.answered ++ [(id, r)]
        entrusted := L.entrusted ++ [(id, r)] }⟩
  | idle {w : World} {H : Multiset Right} {L : Log} {id : AsyncGeneratorId} {a : AsyncGenerator} :
    w.asyncGenerators[id]? = some a → a.queue = [] →
    Step ⟨w, .ready id ::ₘ H, L⟩
      ⟨(Edit.modifyAsyncGenerator id (fun a => { a with running := false }) w).2, H, L⟩
  | retire {w : World} {H : Multiset Right} {L : Log} (i : InstanceId) :
    Step ⟨w, .own i ::ₘ H, L⟩ ⟨w, H, L⟩

/-- The oldest job is taken out of the queue, and with it the rights that it needs. -/
inductive Dequeue : Config → Config → Prop where
  | mk {w : World} {H : Multiset Right} {L : Log} {job : Job} {jobs : List Job} :
    w.jobs = job :: jobs →
    Dequeue ⟨w, H, L⟩ ⟨{ w with jobs }, job.rights + H, { L with ran := L.ran ++ [job] }⟩

abbrev Steps : Config → Config → Prop := Relation.ReflTransGen Step

def Retains (H : Multiset Right) : Config → Config → Prop :=
  Relation.ReflTransGen fun c c' => Step c c' ∧ H ≤ c'.held

abbrev Later : Config → Config → Prop := Relation.ReflTransGen fun c c' => Step c c' ∨ Dequeue c c'

/-- The configurations that runs come to. -/
def Config.Reached (c : Config) : Prop := Later .start c

theorem Steps.later {c c' : Config} (h : Steps c c') : Later c c' := by
  induction h with
  | refl => exact .refl
  | tail _ hstep ih => exact ih.tail (.inl hstep)

namespace Retains

variable {H H' : Multiset Right} {c c' : Config}

theorem steps (h : Retains H c c') : Steps c c' := by
  induction h with
  | refl => exact .refl
  | tail _ hstep ih => exact ih.tail hstep.1

theorem later (h : Retains H c c') : Later c c' := h.steps.later

theorem single (h : Step c c') (hH : H ≤ c'.held) : Retains H c c' :=
  Relation.ReflTransGen.single ⟨h, hH⟩

theorem trans {c'' : Config} (h : Retains H c c') (h' : Retains H c' c'') : Retains H c c'' :=
  Relation.ReflTransGen.trans h h'

theorem mono (h : Retains H c c') (hH : H' ≤ H) : Retains H' c c' := by
  induction h with
  | refl => exact .refl
  | tail _ hstep ih => exact ih.tail ⟨hstep.1, hH.trans hstep.2⟩

theorem le (h : Retains H c c') (hc : H ≤ c.held) : H ≤ c'.held := by
  induction h with
  | refl => exact hc
  | tail _ hstep _ => exact hstep.2

end Retains

theorem Config.Reached.steps {c c' : Config} (hc : c.Reached) (h : Steps c c') : c'.Reached :=
  Relation.ReflTransGen.trans hc h.later

theorem Config.Reached.step {c c' : Config} (hc : c.Reached) (h : Step c c') : c'.Reached :=
  Relation.ReflTransGen.tail hc (.inl h)

theorem Config.Reached.dequeue {c c' : Config} (hc : c.Reached) (h : Dequeue c c') : c'.Reached :=
  Relation.ReflTransGen.tail hc (.inr h)

end Resumable
