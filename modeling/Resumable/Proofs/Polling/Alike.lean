import Resumable.Proofs.Machine.Conduct
import Resumable.Proofs.Promises.Queues

/-!
Worlds that differ in nothing that can be observed. A suspended generator that delegates to another
one passes on whatever it is called with, so the call before makes no difference to what it does next.
Main statement: `Edit.Safe.alike`: edits that do not look at instances keep such worlds alike.
-/

set_option autoImplicit false

namespace Resumable

/-- Whether an instance is a suspended generator that passes calls on to another one. -/
structure Instance.Relays (g : Instance) : Prop where
  status : g.status = .suspendedYield
  parked : g.parked = none
  isAsync : g.isAsync = false
  delegate : g.delegate?.isSome = true

/-- An instance without what the last call has left behind in it. -/
def Instance.forget (g : Instance) : Instance :=
  { g with
    awaiting := none
    delegation := g.delegation.map fun d => { d with received := .next } }

/-- Whether instances are the same, or the same but for the last call that they have passed on. -/
inductive Instance.Twin (g g' : Instance) : Prop where
  | same : g' = g → Twin g g'
  | relays : g.Relays → g'.forget = g.forget → Twin g g'

/-- What becomes of an instance when a call passes through it. -/
def Instance.relay (g : Instance) (m : Method) : Instance :=
  { g with
    status := .executing
    awaiting := none
    delegation := g.delegation.map fun d => { d with received := m } }

namespace Instance

variable {g g' g'' : Instance}

theorem delegate?_forget (g : Instance) : g.forget.delegate? = g.delegate? := by
  simp only [delegate?, forget]
  cases g.delegation <;> rfl

theorem Relays.of_forget (hg : g.Relays) (h : g'.forget = g.forget) : g'.Relays where
  status := (congrArg Instance.status h).trans hg.status
  parked := (congrArg Instance.parked h).trans hg.parked
  isAsync := (congrArg Instance.isAsync h).trans hg.isAsync
  delegate := by
    rw [← delegate?_forget, h, delegate?_forget]
    exact hg.delegate

theorem forget_forget (g : Instance) : g.forget.forget = g.forget := by
  simp only [forget, Option.map_map]
  rfl

theorem relay_forget (m : Method) : g.forget.relay m = g.relay m := by
  simp only [relay, forget, Option.map_map]
  rfl

theorem relay_of_forget (h : g'.forget = g.forget) (m : Method) : g'.relay m = g.relay m := by
  rw [← relay_forget, h, relay_forget]

theorem suspend_relay (hg : g.Relays) : (g.relay .next).suspend = g.forget := by
  cases g
  cases hg.status
  rfl

theorem Twin.symm (h : g.Twin g') : g'.Twin g := by
  cases h with
  | same h => exact .same h.symm
  | relays hg h => exact .relays (hg.of_forget h) h.symm

theorem Twin.trans (h : g.Twin g') (h' : g'.Twin g'') : g.Twin g'' := by
  cases h with
  | same h =>
    subst h
    exact h'
  | relays hg h =>
    cases h' with
    | same h' =>
      subst h'
      exact .relays hg h
    | relays _ h' => exact .relays hg (h'.trans h)

end Instance

/-- Whether an activation that goes on when a promise settles is one of these. -/
def Continuation.Wired (F : Set InstanceId) : Continuation → Prop
  | .asyncFunction inst _ => inst ∈ F
  | .unpark _ | .asyncGenerator _ => True

def Reaction.Wired (F : Set InstanceId) : Reaction → Prop
  | .resume k => k.Wired F
  | .handlers _ _ _ _ => True

def Job.Wired (F : Set InstanceId) : Job → Prop
  | .react r _ => r.Wired F
  | .adopt _ _ _ _ => True

/-- Whether all activations that promises resume are among these. -/
structure World.Wired (F : Set InstanceId) (w : World) : Prop where
  generators : ∀ (id : AsyncGeneratorId) (a : AsyncGenerator), w.asyncGenerators[id]? = some a →
    a.inst ∈ F
  reactions : ∀ (p : ObjectId) (rs : List Reaction), w.heap.promise? (.obj p) = some (.pending rs) →
    ∀ r ∈ rs, r.Wired F
  jobs : ∀ job ∈ w.jobs, job.Wired F

/-- Whether worlds are the same but for calls passed on, and the same in the instances of `E`. All
that promises resume, and all that is new, is in `F`. -/
structure World.Alike (F E : Set InstanceId) (w w' : World) : Prop where
  rest : { w with instances := w'.instances } = w'
  size : w'.instances.size = w.instances.size
  twin : ∀ (i : InstanceId) (g g' : Instance), w.instances[i]? = some g →
    w'.instances[i]? = some g' → g.Twin g'
  same : ∀ i ∈ E, w'.instances[i]? = w.instances[i]?
  within : F ⊆ E
  fresh : ∀ i, w.instances.size ≤ i → i ∈ F
  wired : w.Wired F

section Alike

variable {F E E' : Set InstanceId} {w w' : World}

theorem World.Wired.congr (h : w.Wired F) (ha : w'.asyncGenerators = w.asyncGenerators)
    (hp : ∀ p : ObjectId, w'.heap.promise? (.obj p) = w.heap.promise? (.obj p))
    (hj : w'.jobs = w.jobs) : w'.Wired F where
  generators id a h' := h.generators id a (ha ▸ h')
  reactions p rs h' := h.reactions p rs (hp p ▸ h')
  jobs job h' := h.jobs job (hj ▸ h')

theorem World.Alike.mono (h : w.Alike F E' w') (hE : E ⊆ E') (hF : F ⊆ E) : w.Alike F E w' :=
  { h with same := fun i hi => h.same i (hE hi), within := hF }

theorem World.Alike.add {id : InstanceId} (h : w.Alike F E w')
    (hid : w'.instances[id]? = w.instances[id]?) : w.Alike F (insert id E) w' where
  __ := h
  same i hi := by
    obtain rfl | hi := hi
    · exact hid
    · exact h.same i hi
  within := h.within.trans (Set.subset_insert id E)

theorem World.Alike.drop {id : InstanceId} (h : w.Alike F (insert id E) w') (hF : F ⊆ E) :
    w.Alike F E w' := h.mono (Set.subset_insert id E) hF

end Alike

/-- Outcomes that are the same but for calls passed on. -/
abbrev World.EndsAlike {α : Type} (F E : Set InstanceId) : Outcome World α → Outcome World α → Prop :=
  Outcome.Like (World.Alike F E) fun _ => True

/-- Whether an edit neither looks at instances nor changes them. -/
def Edit.Blind {α : Type} (x : Edit α) : Prop :=
  ∀ (w : World) (gs : Array Instance),
    x { w with instances := gs } = ((x w).1, { (x w).2 with instances := gs })

/-- Whether an edit is blind and lets promises resume no others than before. -/
structure Edit.Safe {α : Type} (F : Set InstanceId) (x : Edit α) : Prop where
  blind : x.Blind
  wired : ∀ w : World, w.Wired F → (x w).2.Wired F

section Safe

variable {F E : Set InstanceId} {α β : Type} {w w' : World}

/-- What an edit does that does not look at instances. -/
theorem Edit.Safe.alike {x : Edit α} (hx : x.Safe F) (h : w.Alike F E w') :
    (x w').1 = (x w).1 ∧ (x w).2.Alike F E (x w').2 := by
  have hself : (x w).2.instances = w.instances := congrArg (·.2.instances) (hx.blind w w.instances)
  have hother : x w' = ((x w).1, { (x w).2 with instances := w'.instances }) := by
    rw [← hx.blind, h.rest]
  rw [hother]
  refine ⟨rfl, rfl, ?_, fun i g g' hg hg' => h.twin i g g' (hself ▸ hg) hg', fun i hi => ?_, h.within,
    fun i hi => h.fresh i (hself ▸ hi), hx.wired w h.wired⟩
  · rw [hself]
    exact h.size
  · rw [hself]
    exact h.same i hi

theorem Edit.Blind.pure (a : α) : (Pure.pure a : Edit α).Blind := fun _ _ => rfl

theorem Edit.Blind.bind {x : Edit α} {f : α → Edit β} (hx : x.Blind) (hf : ∀ a, (f a).Blind) :
    (x >>= f).Blind := by
  intro w gs
  show f (x { w with instances := gs }).1 (x { w with instances := gs }).2 = _
  rw [hx]
  exact hf _ _ gs

theorem Edit.Blind.forM {f : α → Edit PUnit} (hf : ∀ a, (f a).Blind) (xs : List α) :
    (xs.forM f).Blind := by
  induction xs with
  | nil => exact .pure _
  | cons a xs ih => exact .bind (hf a) fun _ => ih

theorem Edit.Safe.pure (a : α) : (Pure.pure a : Edit α).Safe F := ⟨.pure a, fun _ h => h⟩

theorem Edit.Safe.bind {x : Edit α} {f : α → Edit β} (hx : x.Safe F) (hf : ∀ a, (f a).Safe F) :
    (x >>= f).Safe F where
  blind := hx.blind.bind fun a => (hf a).blind
  wired w h := (hf _).wired _ (hx.wired w h)

theorem Edit.Safe.forM {f : α → Edit PUnit} (hf : ∀ a, (f a).Safe F) (xs : List α) :
    (xs.forM f).Safe F := by
  induction xs with
  | nil => exact .pure _
  | cons a xs ih => exact .bind (hf a) fun _ => ih

theorem Edit.Safe.of_eq {x : Edit α} (hx : x.Blind)
    (ha : ∀ w, (x w).2.asyncGenerators = w.asyncGenerators)
    (hp : ∀ w (p : ObjectId), (x w).2.heap.promise? (.obj p) = w.heap.promise? (.obj p))
    (hj : ∀ w, (x w).2.jobs = w.jobs) : x.Safe F :=
  ⟨hx, fun w h => h.congr (ha w) (hp w) (hj w)⟩

theorem Edit.Safe.of_calm {x : Edit α} (hl : x.IsLocal) (hx : x.IsCalm) : x.Safe F := by
  refine .of_eq (fun w gs => ?_) (fun w => (hx w).asyncGenerators)
    (fun w _ => (hx w).heap.promise?_eq) fun w => (hx w).jobs
  have hs : (x w).2.scopes = w.scopes := hl.scopes_eq w
  have h := hl.apart w w.scopes gs
  rw [← hs] at h
  rw [← h, hs]

theorem scopes_safe (f : Scopes → α × Scopes) : (Edit.scopes f).Safe F :=
  .of_eq (fun _ _ => rfl) (fun _ => rfl) (fun _ _ => rfl) fun _ => rfl

theorem declare_safe (scope : ScopeId) (name : String) (kind : VarKind) :
    (Edit.declare scope name kind).Safe F := scopes_safe _

theorem alloc_safe {o : Object} (h : ∀ rs, o.promise? = some (.pending rs) → rs = []) :
    (Edit.alloc o).Safe F where
  blind _ _ := rfl
  wired w hw := by
    refine { hw with reactions := fun p rs hp r hr => ?_ }
    have hp : (w.heap.alloc o).2.promise? (.obj p) = some (.pending rs) := hp
    rw [Heap.promise?_alloc] at hp
    split at hp
    · rw [h rs hp] at hr
      cases hr
    · exact hw.reactions p rs hp r hr

theorem update_safe {id : ObjectId} {f : Object → Object} (hf : ∀ o : Object, (f o).promise? = none) :
    (Edit.update id f).Safe F where
  blind _ _ := rfl
  wired w hw := by
    refine { hw with reactions := fun p rs hp r hr => ?_ }
    have hp : (w.heap.modify id f).promise? (.obj p) = some (.pending rs) := hp
    rw [Heap.promise?_eq, Heap.get?_modify] at hp
    split at hp
    · obtain ⟨o, ho, hpending⟩ := Option.bind_eq_some_iff.1 hp
      obtain ⟨o', -, rfl⟩ := Option.map_eq_some_iff.1 ho
      rw [hf] at hpending
      cases hpending
    · exact hw.reactions p rs hp r hr

theorem realm_safe : Edit.realm.Safe F := ⟨fun _ _ => rfl, fun _ h => h⟩

theorem heap_safe : Edit.heap.Safe F := ⟨fun _ _ => rfl, fun _ h => h⟩

theorem newPromise_safe : Edit.newPromise.Safe F :=
  .bind realm_safe fun _ => alloc_safe fun _ h => by cases h; rfl

theorem newNative_safe (name : String) (arity : Nat) (n : Native) :
    (Edit.newNative name arity n).Safe F :=
  .bind realm_safe fun _ => alloc_safe nofun

theorem newResult_safe (v : Value) (done : Bool) : (Edit.newResult v done).Safe F :=
  .bind realm_safe fun _ => alloc_safe nofun

theorem newError_safe (kind : ErrorKind) (message : String) : (Edit.newError kind message).Safe F :=
  .bind realm_safe fun _ => alloc_safe nofun

theorem takeCell_safe (id : CellId) : (Edit.takeCell id).Safe F :=
  .of_eq (fun _ _ => rfl) (fun _ => rfl) (fun _ _ => rfl) fun _ => rfl

theorem newCell_safe : Edit.newCell.Safe F :=
  .of_eq (fun _ _ => rfl) (fun _ => rfl) (fun _ _ => rfl) fun _ => rfl

theorem fillCell_safe (id : CellId) (s : Settlement) : (Edit.fillCell id s).Safe F :=
  .of_eq (fun _ _ => rfl) (fun _ => rfl) (fun _ _ => rfl) fun _ => rfl

theorem takeLatch_safe (id : LatchId) : (Edit.takeLatch id).Safe F :=
  .of_eq (fun _ _ => rfl) (fun _ => rfl) (fun _ _ => rfl) fun _ => rfl

theorem print_safe (line : String) : (Edit.print line).Safe F :=
  .of_eq (fun _ _ => rfl) (fun _ => rfl) (fun _ _ => rfl) fun _ => rfl

theorem newSymbol_safe (description : Option String) : (Edit.newSymbol description).Safe F :=
  .of_eq (fun _ _ => rfl) (fun _ => rfl) (fun _ _ => rfl) fun _ => rfl

theorem enqueue_safe {job : Job} (h : job.Wired F) : (Edit.enqueue job).Safe F where
  blind _ _ := rfl
  wired w hw := by
    refine { hw with jobs := fun job' hj => ?_ }
    obtain hj | hj := List.mem_append.1 hj
    · exact hw.jobs job' hj
    · rw [List.mem_singleton.1 hj]
      exact h

theorem dequeue_eq (w : World) : Edit.dequeue w = match w.jobs with
    | [] => (none, w)
    | job :: jobs => (some job, { w with jobs }) := rfl

theorem dequeue_safe : Edit.dequeue.Safe F where
  blind w gs := by
    rw [dequeue_eq, dequeue_eq]
    dsimp only
    split <;> rfl
  wired w hw := by
    rw [dequeue_eq]
    cases hj : w.jobs with
    | nil => exact hw
    | cons job jobs => exact { hw with jobs := fun j hmem => hw.jobs j (by simp [hj, hmem]) }

theorem dequeue_wired (hw : w.Wired F) : ∀ j ∈ (Edit.dequeue w).1, j.Wired F := by
  intro j hmem
  rw [dequeue_eq] at hmem
  cases hj : w.jobs with
  | nil =>
    rw [hj] at hmem
    cases hmem
  | cons job jobs =>
    rw [hj] at hmem
    cases hmem
    exact hw.jobs j (by simp [hj])

theorem modifyAsyncGenerator_safe (id : AsyncGeneratorId) {f : AsyncGenerator → AsyncGenerator}
    (hf : ∀ a, (f a).inst = a.inst) : (Edit.modifyAsyncGenerator id f).Safe F where
  blind _ _ := rfl
  wired w hw := by
    refine { hw with generators := fun i a ha => ?_ }
    have ha : (w.asyncGenerators.modify id f)[i]? = some a := ha
    rw [Array.getElem?_modify] at ha
    split at ha
    · obtain ⟨a', ha', rfl⟩ := Option.map_eq_some_iff.1 ha
      rw [hf]
      exact hw.generators i a' ha'
    · exact hw.generators i a ha

theorem newAsyncGenerator_safe {inst : InstanceId} (h : inst ∈ F) :
    (Edit.newAsyncGenerator inst).Safe F where
  blind _ _ := rfl
  wired w hw := by
    refine { hw with generators := fun i a ha => ?_ }
    have ha : (w.asyncGenerators.push ⟨inst, [], false⟩)[i]? = some a := ha
    rw [Array.getElem?_push] at ha
    split at ha
    · cases ha
      exact h
    · exact hw.generators i a ha

end Safe

section Promises

variable {F : Set InstanceId}

theorem newResolvers_safe (p : ObjectId) : (Promise.newResolvers p).Safe F :=
  .bind (.of_eq (fun _ _ => rfl) (fun _ => rfl) (fun _ _ => rfl) fun _ => rfl) fun _ =>
    .bind (newNative_safe ..) fun _ => .bind (newNative_safe ..) fun _ => .pure _

theorem setState_blind (p : ObjectId) (state : PromiseState) : (Promise.setState p state).Blind :=
  fun _ _ => rfl

theorem World.Wired.setState {w : World} {p : ObjectId} {old : PromiseState} (hw : w.Wired F)
    (state : PromiseState) (hp : w.heap.promise? (.obj p) = some old)
    (h : ∀ rs, state = .pending rs → ∀ r ∈ rs, r.Wired F) :
    ({ w with heap := w.heap.modify p fun o => { o with role := .promise state } } : World).Wired
      F := by
  refine { hw with reactions := fun q rs hq => ?_ }
  have hq : (w.heap.modify p fun o => { o with role := .promise state }).promise? (.obj q) =
    some (.pending rs) := hq
  rw [Heap.promise?_setState hp] at hq
  split at hq
  · exact h rs (Option.some.inj hq)
  · exact hw.reactions q rs hq

theorem settle_safe (p : ObjectId) (s : Settlement) : (Promise.settle p s).Safe F where
  blind := by
    refine .bind (.bind (fun _ _ => rfl) fun _ => .pure _) fun state => ?_
    cases state with
    | none => exact .pure _
    | some state =>
      cases state with
      | pending rs => exact .bind (setState_blind p _) fun _ => .forM (fun _ _ _ => rfl) rs
      | settled => exact .pure _
  wired w hw := by
    cases hp : w.heap.promise? (.obj p) with
    | none =>
      rw [settle_apply, hp]
      exact hw
    | some state =>
      cases state with
      | pending rs =>
        rw [settle_eq s hp]
        have hset : World.Wired F _ := hw.setState (.settled s) hp (by rintro _ ⟨⟩)
        refine { hset with jobs := fun job hj => ?_ }
        obtain hj | hj := List.mem_append.1 hj
        · exact hw.jobs job hj
        · obtain ⟨r, hr, rfl⟩ := List.mem_map.1 hj
          exact hw.reactions p rs hp r hr
      | settled =>
        rw [settle_apply, hp]
        exact hw

theorem reject_safe (p : ObjectId) (v : Value) : (Promise.reject p v).Safe F := settle_safe p _

theorem resolve_safe (p : ObjectId) (v : Value) : (Promise.resolve p v).Safe F := by
  unfold Promise.resolve
  split
  · exact .bind (newError_safe ..) fun _ => reject_safe p _
  · refine .bind heap_safe fun h => ?_
    split
    · exact .bind (newResolvers_safe p) fun _ => enqueue_safe trivial
    · exact settle_safe p _

theorem addReaction_safe (p : ObjectId) {r : Reaction} (hr : r.Wired F) :
    (Promise.addReaction p r).Safe F where
  blind := by
    refine .bind (.bind (fun _ _ => rfl) fun _ => .pure _) fun state => ?_
    cases state with
    | none => exact .pure _
    | some state =>
      cases state with
      | pending rs => exact setState_blind p _
      | settled => exact fun _ _ => rfl
  wired w hw := by
    cases hp : w.heap.promise? (.obj p) with
    | none =>
      rw [addReaction_apply, hp]
      exact hw
    | some state =>
      cases state with
      | pending rs =>
        rw [addReaction_pending r hp]
        refine hw.setState _ hp fun rs' h r' hr' => ?_
        cases h
        obtain hr' | hr' := List.mem_append.1 hr'
        · exact hw.reactions p rs hp r' hr'
        · rw [List.mem_singleton.1 hr']
          exact hr
      | settled s =>
        rw [addReaction_settled r hp]
        have hjob : (Job.react r s).Wired F := hr
        exact (enqueue_safe hjob).wired w hw

theorem derive_safe (p : ObjectId) (onFulfilled onRejected : Value) :
    (Promise.derive p onFulfilled onRejected).Safe F :=
  .bind newPromise_safe fun d => .bind (newResolvers_safe d) fun _ => .bind heap_safe fun _ =>
    .bind (addReaction_safe p trivial) fun _ => .pure _

theorem ofValue_safe (v : Value) : (Promise.ofValue v).Safe F := by
  refine .bind heap_safe fun h => ?_
  split
  · exact .pure _
  · exact .bind newPromise_safe fun p => .bind (resolve_safe p v) fun _ => .pure _

theorem await_safe (v : Value) {k : Continuation} (hk : k.Wired F) : (Promise.await v k).Safe F :=
  .bind (ofValue_safe v) fun p => addReaction_safe p hk

end Promises

end Resumable
