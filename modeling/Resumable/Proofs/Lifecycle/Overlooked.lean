import Resumable.Proofs.Lifecycle.Programs
import Resumable.Proofs.Polling.Programs

/-!
What stands in the place of an instance while it executes. Others see that it executes and nothing more
of it, so all that they do goes the same way whatever else is written there. Main statements:
`withFuel_heedless`, `resume_overlooks`.
-/

set_option autoImplicit false

namespace Resumable

/-- The outcome with another instance in the place of one. -/
def Outcome.put {α : Type} (r : Outcome World α) (id : InstanceId) (g : Instance) : Outcome World α :=
  match r with
  | .done a w => .done a (w.put id g)
  | .abrupt c w => .abrupt c (w.put id g)
  | .exhausted => .exhausted

/-- Whether a run goes the same way with another instance in the place of one. -/
def RunOn.Overlooks {α : Type} (x : Run α) (w : World) (id : InstanceId) (g : Instance) : Prop :=
  x (w.put id g) = (x w).put id g

structure Instance.Busy (g : Instance) : Prop where
  status : g.status = .executing
  parked : g.parked = none

/-- Whether a run leaves the instances that execute alone and takes no notice of what they are. -/
structure RunOn.Heedless {α : Type} (x : Run α) : Prop where
  steady : x.Steady
  overlooks : ∀ (w : World) (id : InstanceId) (g g' : Instance), w.Orderly →
    w.instances[id]? = some g → g.Busy → g'.Busy → x.Overlooks w id g'

namespace World

variable {w : World} {id : InstanceId} {g : Instance}

theorem put_put (w : World) (id : InstanceId) (g g' : Instance) :
    (w.put id g).put id g' = w.put id g' := by
  simp only [put, Array.setIfInBounds_setIfInBounds]

theorem put_comm {i : InstanceId} (h : id ≠ i) (w : World) (g g' : Instance) :
    (w.put id g).put i g' = (w.put i g').put id g := by
  simp only [put]
  rw [Array.setIfInBounds_comm _ _ h]

theorem put_eq (h : w.instances[id]? = some g) : w.put id g = w := by
  have heq : w.instances.setIfInBounds id g = w.instances := by
    refine Array.ext_getElem? fun i => ?_
    rw [Array.getElem?_setIfInBounds]
    split
    · next hi =>
      subst hi
      split
      · exact h.symm
      · rw [Array.getElem?_eq_none (by omega)]
    · rfl
  rw [put, heq]

end World

namespace RunOn.Overlooks

variable {α β : Type} {w : World} {id : InstanceId} {g : Instance}

theorem pure (a : α) : (Pure.pure a : Run α).Overlooks w id g := rfl

theorem exhausted : (Run.exhausted : Run α).Overlooks w id g := rfl

theorem abrupt (c : Abrupt) : (Run.abrupt c : Run α).Overlooks w id g := rfl

theorem edit {x : Edit α} (hx : x.Blind) : (Run.edit x : Run α).Overlooks w id g := by
  have hself : (x w).2.instances = w.instances := congrArg (·.2.instances) (hx w w.instances)
  have hput := hx w (w.instances.setIfInBounds id g)
  show Outcome.done _ _ = Outcome.done (x w).1 ((x w).2.put id g)
  show Outcome.done (x (w.put id g)).1 (x (w.put id g)).2 = _
  rw [World.put, hput, World.put, hself]

theorem bind {x : Run α} {f : α → Run β} (hx : x.Overlooks w id g)
    (hf : ∀ a w₁, x w = .done a w₁ → (f a).Overlooks w₁ id g) : (x >>= f).Overlooks w id g := by
  unfold RunOn.Overlooks at hx
  simp only [RunOn.Overlooks, Bind.bind, RunOn.bind, hx]
  cases hxw : x w with
  | done a w₁ => exact hf a w₁ hxw
  | abrupt | exhausted => rfl

theorem edits {x : Edit α} {f : α → Edit β} (hx : (Run.edit x : Run α).Overlooks w id g)
    (hf : ∀ a w₁, (Run.edit x : Run α) w = .done a w₁ → (Run.edit (f a) : Run β).Overlooks w₁ id g) :
    (Run.edit (x >>= f) : Run β).Overlooks w id g := hx.bind hf

theorem attempt {x : Run α} (hx : x.Overlooks w id g) : x.attempt.Overlooks w id g := by
  unfold RunOn.Overlooks at hx
  simp only [RunOn.Overlooks, RunOn.attempt, hx]
  cases x w <;> rfl

end RunOn.Overlooks

namespace RunOn.Heedless

variable {α β : Type} {x : Run α}

theorem pure (a : α) : (Pure.pure a : Run α).Heedless := ⟨.pure a, fun _ _ _ _ _ _ _ _ => .pure a⟩

theorem exhausted : (Run.exhausted : Run α).Heedless :=
  ⟨.exhausted, fun _ _ _ _ _ _ _ _ => .exhausted⟩

theorem abrupt (c : Abrupt) : (Run.abrupt c : Run α).Heedless :=
  ⟨.abrupt c, fun _ _ _ _ _ _ _ _ => .abrupt c⟩

theorem edit {x : Edit α} (hx : x.Blind) (hs : (Run.edit x : Run α).Steady) :
    (Run.edit x : Run α).Heedless :=
  ⟨hs, fun _ _ _ _ _ _ _ _ => .edit hx⟩

theorem keeps {x : Edit α} (hx : x.Blind) (hk : x.KeepsActivations) : (Run.edit x : Run α).Heedless :=
  .edit hx (.edit hk)

theorem read {view : World → α} (h : ∀ w gs, view { w with instances := gs } = view w) :
    (Run.read view : Run α).Heedless :=
  ⟨.read view, fun w id _ g' _ _ _ _ => congrArg (Outcome.done · (w.put id g')) (h w _)⟩

theorem heap : (Run.heap : Run Heap).Heedless := .read fun _ _ => rfl

theorem bind {f : α → Run β} (hx : x.Heedless) (hf : ∀ a, (f a).Heedless) :
    (x >>= f).Heedless := by
  refine ⟨hx.steady.bind fun a => (hf a).steady, fun w id g g' hw hg hb hb' => ?_⟩
  refine .bind (hx.overlooks w id g g' hw hg hb hb') fun a w₁ hxw => ?_
  have hkept := hx.steady w hw
  rw [hxw] at hkept
  exact (hf a).overlooks w₁ id g g' hkept.orderly (hkept.stays id g hg hb.status) hb hb'

theorem attempt (hx : x.Heedless) : x.attempt.Heedless :=
  ⟨hx.steady.attempt, fun w id g g' hw hg hb hb' => .attempt (hx.overlooks w id g g' hw hg hb hb')⟩

theorem calm {x : Edit α} (hl : x.IsLocal) (hc : x.IsCalm) : (Run.edit x : Run α).Heedless :=
  .keeps (Edit.Safe.of_calm (F := Set.univ) hl hc).blind hc.keepsActivations

end RunOn.Heedless

def heedless : RunRelation World World where
  rel x y := y = x ∧ x.Heedless
  occurs _ := True
  names _ := True
  throw_occurs _ := trivial
  fatal_occurs _ := trivial
  pure a := ⟨rfl, .pure a⟩
  bind hx hf := ⟨by rw [hx.1, funext fun a => (hf a).1], hx.2.bind fun a => (hf a).2⟩
  attempt := by
    rintro α β x y f g ⟨rfl, hx⟩ hok herror
    have hfg : ∀ r, g r = f r ∧ (f r).Heedless := by
      intro r
      cases r with
      | ok a => exact hok a
      | error c => exact herror c trivial
    exact ⟨by rw [funext fun r => (hfg r).1], hx.attempt.bind fun r => (hfg r).2⟩
  abrupt c _ := ⟨rfl, .abrupt c⟩
  exhausted := ⟨rfl, .exhausted⟩
  heap := ⟨rfl, .heap⟩
  lookup _ _ _ := ⟨rfl, .read fun _ _ => rfl⟩
  has _ _ _ := ⟨rfl, .read fun _ _ => rfl⟩
  this _ := ⟨rfl, .read fun _ _ => rfl⟩
  edit _ hl hc := ⟨rfl, .calm hl hc⟩
  newScope scope := ⟨rfl, .keeps (fun _ _ => rfl) (newScope_calm scope).keepsActivations⟩
  copyScope scope := ⟨rfl, .keeps (fun _ _ => rfl) (copyScope_calm scope).keepsActivations⟩
  declare scope name kind _ :=
    ⟨rfl, .keeps (fun _ _ => rfl) (declare_calm scope name kind).keepsActivations⟩
  assign scope name v _ := ⟨rfl, .keeps (fun _ _ => rfl) (assign_calm scope name v).keepsActivations⟩
  define scope name kind v _ :=
    ⟨rfl, .keeps (.bind (fun _ _ => rfl) fun _ _ _ => rfl)
      (define_calm scope name kind v).keepsActivations⟩

/-- Whether the calls of a host are heedless, and its suspend expressions are errors. -/
structure Host.Heedless (host : Host) : Prop where
  call : ∀ f receiver args, (host.call f receiver args).Heedless
  suspend : host.suspend = refuseSuspend

namespace Host.Heedless

variable {host : Host}

theorem steady (h : host.Heedless) : host.Steady :=
  ⟨fun f receiver args => (h.call f receiver args).steady, h.suspend⟩

theorem suits (h : host.Heedless) : heedless.Suits host host where
  calls :=
    { call f receiver args := ⟨rfl, h.call f receiver args⟩
      fuel := .same _
      await x y _ := by
        rw [h.suspend]
        exact refuseSuspend_related heedless.toEvalRelation .await x y }
  suspends kind x y _ := by
    rw [h.suspend]
    exact refuseSuspend_related heedless.toEvalRelation kind x y
  names _ := trivial
  occurs _ := trivial

end Host.Heedless

section Resuming

variable {host : Host} {w₀ w : World} {id i : InstanceId} {outer : List InstanceId}
  {g g' b : Instance}

/-- Another instance can be put next to the one that is overlooked. -/
theorem setInstance_overlooks (hi : id ≠ i) (b : Instance) :
    (Run.edit (Edit.setInstance i b) : Run Unit).Overlooks w id g :=
  congrArg (Outcome.done ()) (World.put_comm hi w g b)

theorem modifyInstance_overlooks (hi : id ≠ i) (f : Instance → Instance) :
    (Run.edit (Edit.modifyInstance i f) : Run Unit).Overlooks w id g := by
  have heq : (w.instances.setIfInBounds id g).modify i f =
      (w.instances.modify i f).setIfInBounds id g := by
    refine Array.ext_getElem? fun j => ?_
    simp only [Array.getElem?_modify, Array.getElem?_setIfInBounds, Array.size_modify]
    by_cases hj : id = j
    · subst hj
      simp [Ne.symm hi]
    · simp [hj]
  exact congrArg (fun gs => Outcome.done () { w with instances := gs }) heq

theorem markOuter_overlooks (ho : id ∉ outer) (f : Instance → Instance) :
    (Run.edit (markOuter outer f) : Run Unit).Overlooks w id g := by
  induction outer generalizing w with
  | nil => exact .pure ()
  | cons i outer ih =>
    have hi : id ≠ i := fun h => ho (by simp [h])
    exact .edits (modifyInstance_overlooks hi f) fun _ _ _ => ih fun hmem => ho (by simp [hmem])

theorem instance_overlooks (hi : id ≠ i) :
    (Run.edit (Edit.instance? i) : Run (Option Instance)).Overlooks w id g :=
  congrArg (Outcome.done · (w.put id g)) (World.put_other hi)

theorem park_overlooks (hi : id ≠ i) (promise : Value) :
    (Run.edit (park i promise) : Run Unit).Overlooks w id g := by
  refine .edits (instance_overlooks hi) fun b _ _ => ?_
  cases b with
  | none => exact .pure ()
  | some b =>
    dsimp only
    split
    · exact .edits (.edit (newCell_safe (F := Set.univ)).blind) fun cell _ _ =>
        .edits (.edit (await_safe (F := Set.univ) (k := .unpark cell) promise trivial).blind)
          fun _ _ _ => setInstance_overlooks hi _
    · exact .pure ()

theorem unpark_overlooks (hi : id ≠ i) (b : Instance) (a : Action) :
    (Run.edit (unpark i b a) : Run _).Overlooks w id g := by
  have hfreed {w : World} (b : Instance) (a : Action) :
      (Run.edit (unpark.freed i b a) : Run _).Overlooks w id g :=
    .edits (setInstance_overlooks hi b) fun _ _ _ => .pure _
  unfold unpark
  cases b.parked with
  | none => exact .pure _
  | some p =>
    refine .edits (.edit (takeCell_safe (F := Set.univ) p.cell).blind) fun s _ _ => ?_
    match s, a with
    | none, .next _ => exact .pure _
    | some s, .next _ => exact hfreed _ _
    | none, .throw _ | none, .ret _ | none, .settled _ | none, .delegateDone _
    | none, .delegateThrew _ | some _, .throw _ | some _, .ret _ | some _, .settled _
    | some _, .delegateDone _ | some _, .delegateThrew _ => exact hfreed _ _

variable (hh : host.Heedless)

include hh

theorem runSlice_overlooks (h : Around w₀ i outer w) (hg : w₀.instances[id]? = some g) (hb : g.Busy)
    (hb' : g'.Busy) (hp : b.parked = none) (a : Action) :
    (runSlice host i b a).Overlooks w id g' := by
  have hi : id ≠ i := by
    rintro rfl
    exact h.fresh id List.mem_cons_self (by rw [World.statusAt?, hg, Option.map_some, hb.status])
  refine .bind (setInstance_overlooks hi _) fun _ w₁ h₁ => ?_
  have hstart : Chained w₀ (i :: outer) w₁ := by
    cases h₁
    exact h.start rfl hp
  have hslice := (slice_related hh.suits (.same host.fuel) b a).2
  exact .bind (hslice.overlooks w₁ id g g' hstart.orderly (hstart.stays id g hg hb.status) hb hb')
    fun r _ _ => .bind (setInstance_overlooks hi _) fun _ _ _ => .pure _

theorem resumeOne_overlooks {a : Action} (h : Asked w₀ i outer a w)
    (hg : w₀.instances[id]? = some g) (hb : g.Busy) (hb' : g'.Busy) :
    (resumeOne host i a).Overlooks w id g' := by
  have hself : w.instances[id]? = some g := h.stays hg hb.status
  by_cases hi : id = i
  · -- the instance takes no call while it executes, and it is not in the chain that is unwound
    subst hi
    have ha : a.endsDelegate = false := by
      refine Bool.eq_false_iff.2 fun ha => ?_
      rw [Asked, if_pos ⟨ha, by rw [World.statusAt?, hself, Option.map_some, hb.status]⟩] at h
      exact h.fresh id List.mem_cons_self (by rw [World.statusAt?, hg, Option.map_some, hb.status])
    rw [RunOn.Overlooks, resumeOne_executing hself hb.status hb.parked ha,
      resumeOne_executing (World.put_self hself) hb'.status hb'.parked ha]
    rfl
  · cases hfound : w.instances[i]? with
    | none =>
      rw [RunOn.Overlooks, resumeOne_absent hfound,
        resumeOne_absent ((World.put_other hi).trans hfound)]
      rfl
    | some b =>
      suffices hall : (resumeFound host i b a).Overlooks w id g' by
        rwa [RunOn.Overlooks, resumeOne_found hfound,
          resumeOne_found ((World.put_other hi).trans hfound)]
      refine .bind (unpark_overlooks hi b a) fun r w₁ hr => ?_
      have hunparked := unpark_yields h hfound
      rw [show (Run.edit (unpark i b a) : Run _) w = .done r w₁ from hr] at hunparked
      cases r with
      | error promise => exact .pure _
      | ok r =>
        obtain ⟨b, a⟩ := r
        obtain ⟨h, hfound, hp⟩ := hunparked
        have hstatus : w₁.statusAt? i = some b.status := by rw [World.statusAt?, hfound]; rfl
        dsimp only
        cases hs : b.status with
        | completed => exact .pure _
        | executing =>
          dsimp only
          split
          · next ha =>
            rw [Asked, if_pos ⟨ha, by rw [hstatus, hs]⟩] at h
            exact runSlice_overlooks hh h.around hg hb hb' hp a
          · exact .pure _
        | suspendedStart | suspendedYield =>
          have hchained := h.chained (by simp [hstatus, hs])
          exact runSlice_overlooks hh (hchained.around_idle hfound (by simp [hs])) hg hb hb' hp a

theorem resumeChain_overlooks (n : Nat) {a : Action} (h : Asked w₀ i outer a w)
    (hg : w₀.instances[id]? = some g) (hb : g.Busy) (hb' : g'.Busy) :
    (resumeChain host n outer i a).Overlooks w id g' := by
  induction n generalizing outer i a w with
  | zero => exact .exhausted
  | succ n ih =>
    have hout : ∀ {chain : List InstanceId} {v : World}, Chained w₀ chain v → id ∉ chain :=
      fun hc hmem => hc.fresh id hmem (by rw [World.statusAt?, hg, Option.map_some, hb.status])
    have hone := resumeOne_yields hh.steady h
    refine .bind (resumeOne_overlooks hh h hg hb hb') fun p w₁ hp => ?_
    rw [hp] at hone
    cases p with
    | delegate inner a => exact ih (.of_call hone.1 hone.2.2)
    | stop s =>
      cases s with
      | returned v =>
        cases outer with
        | nil => exact .pure _
        | cons next outer => exact ih (.of_waiting hone.1 rfl)
      | threw v =>
        cases outer with
        | nil => exact .pure _
        | cons next outer => exact ih (.of_waiting hone.1 rfl)
      | failed e =>
        exact .bind (markOuter_overlooks (hout hone.1) _) fun _ _ _ => .pure _
      | awaiting promise =>
        have hi : id ≠ i := by
          rintro rfl
          obtain ⟨b, hb₁, hstatus⟩ := Option.map_eq_some_iff.1 hone.2
          cases hb₁.symm.trans (hone.1.stays id g hg hb.status)
          cases hb.status.symm.trans hstatus
        exact .bind (park_overlooks hi promise) fun _ _ _ =>
          .bind (markOuter_overlooks (hout hone.1) _) fun _ _ _ => .pure _
      | yielded v =>
        exact .bind (markOuter_overlooks (hout hone.1) _) fun _ _ _ => .pure _

theorem resume_heedless (i : InstanceId) {a : Action} (ha : a.endsDelegate = false) :
    (resume host i a).Heedless where
  steady := resume_steady hh.steady i ha
  overlooks _ _ _ _ hw hg hb hb' :=
    resumeChain_overlooks hh host.fuel (.of_call (.of_orderly hw) ha) hg hb hb'

end Resuming

namespace RunOn.Heedless

variable {α β : Type}

theorem edits {x : Edit α} {f : α → Edit β} (hx : (Run.edit x : Run α).Heedless)
    (hf : ∀ a, (Run.edit (f a) : Run β).Heedless) : (Run.edit (x >>= f) : Run β).Heedless := hx.bind hf

theorem throwType (message : String) : (Run.throwType message : Run α).Heedless :=
  (throwType_related heedless.toEvalRelation message).2

end RunOn.Heedless

section Edits

variable {α : Type}

theorem Edit.Safe.heedless {x : Edit α} (hx : x.Safe Set.univ) (hk : x.KeepsActivations) :
    (Run.edit x : Run α).Heedless := .keeps hx.blind hk

theorem wired_univ (k : Continuation) : k.Wired Set.univ := by cases k <;> trivial

theorem await_heedless (v : Value) (k : Continuation) :
    (Run.edit (Promise.await v k) : Run Unit).Heedless :=
  (await_safe v (wired_univ k)).heedless (await_keepsActivations v k)

theorem resolve_heedless (p : ObjectId) (v : Value) :
    (Run.edit (Promise.resolve p v) : Run Unit).Heedless :=
  (resolve_safe p v).heedless (resolve_keepsActivations p v)

theorem reject_heedless (p : ObjectId) (v : Value) :
    (Run.edit (Promise.reject p v) : Run Unit).Heedless :=
  (reject_safe p v).heedless (settle_keepsActivations p _)

theorem newError_heedless (kind : ErrorKind) (message : String) :
    (Run.edit (Edit.newError kind message) : Run ObjectId).Heedless :=
  .calm (newError_local kind message) (newError_calm kind message)

theorem newFailure_heedless (e : Fatal) : (Run.edit (newFailure e) : Run Value).Heedless :=
  .edits (newError_heedless _ _) fun _ => .pure _

theorem update_heedless (id : ObjectId) (f : Object → Object) :
    (Run.edit (Edit.update id f) : Run Unit).Heedless :=
  .keeps (fun _ _ => rfl) fun _ => ⟨rfl, rfl⟩

theorem newPromise_heedless : (Run.edit Edit.newPromise : Run ObjectId).Heedless :=
  newPromise_safe.heedless fun _ => ⟨rfl, rfl⟩

theorem newResult_heedless (v : Value) (done : Bool) :
    (Run.edit (Edit.newResult v done) : Run ObjectId).Heedless :=
  .calm (newResult_local v done) (newResult_calm v done)

theorem modifyAsyncGenerator_heedless (id : AsyncGeneratorId) {f : AsyncGenerator → AsyncGenerator}
    (hf : ∀ a, ∀ r ∈ (f a).queue, r ∈ a.queue ∨ r.action.endsDelegate = false) :
    (Run.edit (Edit.modifyAsyncGenerator id f) : Run Unit).Heedless :=
  .edit (fun _ _ => rfl) (modifyAsyncGenerator_steady id hf)

theorem settleHead_blind (id : AsyncGeneratorId) (s : Settlement) :
    (AsyncGenerator.settleHead id s).Blind := by
  refine .bind (fun _ _ => rfl) fun a => ?_
  cases a.map AsyncGenerator.queue with
  | none => exact .pure ()
  | some queue =>
    cases queue with
    | nil => exact .pure ()
    | cons r rest =>
      refine .bind (fun _ _ => rfl) fun _ => ?_
      cases s with
      | fulfilled v => exact (resolve_safe (F := Set.univ) r.promise v).blind
      | rejected v => exact (reject_safe (F := Set.univ) r.promise v).blind

theorem settleHead_heedless (id : AsyncGeneratorId) (s : Settlement) :
    (Run.edit (AsyncGenerator.settleHead id s) : Run Unit).Heedless :=
  .edit (settleHead_blind id s) (settleHead_steady id s)

theorem asyncGenerator_heedless (id : AsyncGeneratorId) :
    (Run.edit (Edit.asyncGenerator? id) : Run (Option AsyncGenerator)).Heedless :=
  .keeps (fun _ _ => rfl) fun _ => ⟨rfl, rfl⟩

theorem newInstance_heedless (plan : Plan) (base : ScopeId) (isAsync : Bool) :
    (Run.edit (Edit.newInstance (.start plan base isAsync)) : Run InstanceId).Heedless where
  steady := newInstance_steady plan base isAsync
  overlooks w id g g' _ hg _ _ := by
    obtain ⟨hlt, -⟩ := Array.getElem?_eq_some_iff.1 hg
    have hpush (b : Instance) : (w.instances.setIfInBounds id g').push b =
        (w.instances.push b).setIfInBounds id g' := by
      refine Array.ext_getElem? fun j => ?_
      simp only [Array.getElem?_push, Array.getElem?_setIfInBounds, Array.size_setIfInBounds,
        Array.size_push]
      grind
    have hsize : (w.put id g').instances.size = w.instances.size := by simp [World.put]
    show Outcome.done (w.put id g').instances.size _ = _
    rw [hsize]
    exact congrArg (fun gs => Outcome.done w.instances.size { w with instances := gs }) (hpush _)

theorem newActivation_heedless (plan : Plan) (scope : ScopeId) (isAsync : Bool) :
    (Run.edit (newActivation plan scope isAsync) : Run InstanceId).Heedless :=
  .edits (.keeps (.forM (fun _ _ _ => rfl) _) (forM_keepsActivations _ fun _ _ => ⟨rfl, rfl⟩))
    fun _ => newInstance_heedless plan scope isAsync

end Edits

section Asynchronous

variable {host : Host} (hh : host.Heedless)

include hh

theorem serve_heedless (id : AsyncGeneratorId) (inst : InstanceId) {a : Action}
    (ha : a.endsDelegate = false) : (AsyncGenerator.serve host id inst a).Heedless := by
  refine .bind (resume_heedless hh inst ha) fun s => ?_
  cases s with
  | awaiting v => exact .bind (await_heedless v _) fun _ => .pure _
  | yielded v | returned v =>
    exact .bind (newResult_heedless v _) fun _ => .bind (settleHead_heedless id _) fun _ => .pure _
  | threw v => exact .bind (settleHead_heedless id _) fun _ => .pure _
  | failed e =>
    exact .bind (newFailure_heedless e) fun _ => .bind (settleHead_heedless id _) fun _ => .pure _

theorem asyncDrain_heedless (id : AsyncGeneratorId) (n : Nat) :
    (AsyncGenerator.drain host id n).Heedless := by
  induction n with
  | zero => exact .exhausted
  | succ n ih =>
    refine ⟨asyncDrain_steady hh.steady id (n + 1), fun w i g g' hw hg hb hb' => ?_⟩
    have hmark (b : Bool) :
        (Run.edit (Edit.modifyAsyncGenerator id fun a => { a with running := b }) : Run Unit).Heedless :=
      modifyAsyncGenerator_heedless id fun _ _ hr => .inl hr
    rw [RunOn.Overlooks, drain_apply, drain_apply]
    have hsame : (w.put i g').asyncGenerators = w.asyncGenerators := rfl
    rw [hsame]
    cases ha : w.asyncGenerators[id]? with
    | none => rfl
    | some a =>
      dsimp only
      cases hq : a.queue with
      | nil => exact (hmark false).overlooks w i g g' hw hg hb hb'
      | cons r rest =>
        have hr := hw.requests id a ha r (by rw [hq]; exact List.mem_cons_self)
        refine (RunOn.Heedless.bind (hmark true) fun _ =>
          .bind (serve_heedless hh id a.inst hr) fun more => ?_).overlooks w i g g' hw hg hb hb'
        cases more with
        | true => exact ih
        | false => exact .pure _

theorem requestNext_heedless (receiver : Value) (m : Method) (v : Value) :
    (requestNext host receiver m v).Heedless := by
  refine .bind newPromise_heedless fun promise => .bind .heap fun h => ?_
  cases h.asyncGenerator? receiver with
  | none =>
    exact .bind (newError_heedless _ _) fun _ => .bind (reject_heedless promise _) fun _ => .pure _
  | some id =>
    refine .bind (modifyAsyncGenerator_heedless id fun a r hr => ?_) fun _ =>
      .bind (asyncGenerator_heedless id) fun a => ?_
    · obtain hr | hr := List.mem_append.1 hr
      · exact .inl hr
      · rw [List.mem_singleton.1 hr]
        exact .inr (by cases m <;> rfl)
    · dsimp only
      split
      · exact .bind (asyncDrain_heedless hh id _) fun _ => .pure _
      · exact .pure _

theorem startAsyncFunction_heedless (inst : InstanceId) : (startAsyncFunction host inst).Heedless := by
  refine .bind newPromise_heedless fun promise => .bind (.bind (resume_heedless hh inst rfl) fun s => ?_)
    fun _ => .pure _
  cases s with
  | awaiting v => exact await_heedless v _
  | returned v => exact resolve_heedless promise v
  | threw v => exact reject_heedless promise v
  | yielded => exact .bind (newError_heedless _ _) fun _ => reject_heedless promise _
  | failed e =>
    exact .bind (newFailure_heedless e) fun _ => reject_heedless promise _

end Asynchronous

section Calls

variable {host : Host}

theorem pushAll_heedless (receiver : Value) (items : List Value) :
    (Native.pushAll receiver items).Heedless := by
  cases receiver with
  | obj id =>
    refine .bind .heap fun h => ?_
    cases h.elements? (.obj id) with
    | some elements => exact .bind (update_heedless id _) fun _ => .pure _
    | none => exact .throwType _
  | _ => exact .throwType _

theorem nextElement_heedless (receiver : Value) : (Native.nextElement receiver).Heedless := by
  refine .bind .heap fun h => ?_
  split
  · split
    · exact .bind (update_heedless _ _) fun _ => .bind (newResult_heedless _ _) fun _ => .pure _
    · exact .bind (update_heedless _ _) fun _ => .bind (newResult_heedless _ _) fun _ => .pure _
  · exact .throwType _

theorem takeLatch_heedless (latch : LatchId) {x : Edit Unit} (hx : (Run.edit x : Run Unit).Heedless) :
    (do
      if ← Edit.takeLatch latch then x
      return .undefined : Run Value).Heedless := by
  refine .bind (.keeps (fun _ _ => rfl) fun _ => ⟨rfl, rfl⟩) fun was => ?_
  dsimp only
  split
  · exact .bind hx fun _ => .pure _
  · exact .pure _

theorem thenPromise_heedless (receiver onFulfilled onRejected : Value) :
    (Native.thenPromise receiver onFulfilled onRejected).Heedless := by
  refine .bind .heap fun h => ?_
  split
  · refine .bind ((derive_safe ..).heedless ?_) fun _ => .pure _
    exact .bind (fun _ => ⟨rfl, rfl⟩) fun _ => .bind (fun _ => ⟨rfl, rfl⟩) fun _ =>
      .bind (fun _ => ⟨rfl, rfl⟩) fun _ => .bind (addReaction_keepsActivations _ _) fun _ => .pure _
  · exact .throwType _

theorem newGeneratorObject_heedless (f : Value) (fallback : ObjectId) (role : Role) :
    (Run.edit (newGeneratorObject f fallback role) : Run ObjectId).Heedless :=
  .keeps (.bind (fun _ _ => rfl) fun _ _ _ => rfl) fun _ => ⟨rfl, rfl⟩

variable (hh : host.Heedless)

include hh

theorem constructPromise_heedless (executor : Value) :
    (Native.constructPromise host executor).Heedless := by
  have hstart := RunOn.Heedless.bind newPromise_heedless fun promise =>
    .bind ((newResolvers_safe promise).heedless fun _ => ⟨rfl, rfl⟩) fun r =>
      (executed_related hh.suits executor promise r).2
  refine .bind .heap fun h => ?_
  dsimp only
  split
  · exact .bind (.throwType _) fun _ => hstart
  · exact hstart

theorem native_heedless (n : Native) (receiver : Value) (args : List Value) :
    (n.call host receiver args).Heedless := by
  cases n with
  | log =>
    exact .bind .heap fun _ => .bind (.keeps (fun _ _ => rfl) fun _ => ⟨rfl, rfl⟩) fun _ => .pure _
  | push => exact pushAll_heedless receiver args
  | join => exact .bind .heap fun _ => .pure _
  | values | keys => exact (iterateArray_related heedless receiver _).2
  | self => exact .pure _
  | arrayIteratorNext => exact nextElement_heedless receiver
  | generator m =>
    refine .bind .heap fun h => ?_
    cases h.generator? receiver with
    | some id =>
      exact .bind (resume_heedless hh id (by cases m <;> rfl)) fun s => (toResult_related heedless s).2
    | none => exact .throwType _
  | asyncGenerator m => exact requestNext_heedless hh receiver m _
  | promise => exact constructPromise_heedless hh _
  | promiseThen | promiseCatch => exact thenPromise_heedless receiver _ _
  | promiseResolve => exact .bind ((ofValue_safe _).heedless (ofValue_keepsActivations _)) fun _ => .pure _
  | error => exact .bind (newError_heedless _ _) fun _ => .pure _
  | symbol => exact .bind (.keeps (fun _ _ => rfl) fun _ => ⟨rfl, rfl⟩) fun _ => .pure _
  | promiseReject =>
    exact .bind newPromise_heedless fun p => .bind (reject_heedless p _) fun _ => .pure _
  | resolve target latch => exact takeLatch_heedless latch (resolve_heedless target _)
  | reject target latch => exact takeLatch_heedless latch (reject_heedless target _)

theorem closure_heedless (f : Value) (c : Closure) (receiver : Value) (args : List Value) :
    (c.call host f receiver args).Heedless := by
  refine .bind (enter_related hh.suits c receiver args).2 fun scope => ?_
  have hobject (fallback : Realm → ObjectId) (role : Role) : (do
      return .obj (← newGeneratorObject f (fallback (← Edit.realm)) role) : Run Value).Heedless :=
    .bind (.keeps (fun _ _ => rfl) fun _ => ⟨rfl, rfl⟩) fun _ =>
      .bind (newGeneratorObject_heedless _ _ _) fun _ => .pure _
  cases c.routine with
  | plain => exact (runBody_related hh.suits c scope).2
  | generator plan =>
    exact .bind (newActivation_heedless plan scope false) fun inst => hobject Realm.generator _
  | async plan =>
    exact .bind (newActivation_heedless plan scope true) fun inst => startAsyncFunction_heedless hh inst
  | asyncGenerator plan =>
    exact .bind (newActivation_heedless plan scope true) fun inst =>
      .bind (.edit (fun _ _ => rfl) (newAsyncGenerator_steady inst)) fun _ =>
        hobject Realm.asyncGenerator _

theorem callFunction_heedless (f receiver : Value) (args : List Value) :
    (callFunction host f receiver args).Heedless := by
  refine .bind .heap fun h => ?_
  split
  · exact native_heedless hh _ receiver args
  · exact closure_heedless hh f _ receiver args
  · exact .throwType _

end Calls

/-- Calls overlook what executes, however deep they nest. -/
theorem withFuel_heedless (fuel : Nat) : (Host.withFuel fuel).Heedless := by
  refine ⟨?_, rfl⟩
  show ∀ f receiver args, (callWithin fuel f receiver args).Heedless
  induction fuel with
  | zero => exact fun _ _ _ => .exhausted
  | succ fuel ih => exact fun f receiver args => callFunction_heedless ⟨ih, rfl⟩ f receiver args

end Resumable
