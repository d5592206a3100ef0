import Resumable.Proofs.Eval.Approximation
import Resumable.Proofs.Machine.Related

/-!
Fuel only bounds runs. With more of it a run that ends goes the same way and ends in the same world. Main
statements: `callWithin_approximates` for calls that may nest deeper, `resume_approximates` for
resumptions.
-/

set_option autoImplicit false

namespace Resumable

/-- Whether the calls of one host go as far as those of another, or give up. -/
structure Host.Within (host host' : Host) : Prop where
  call : ∀ f receiver args,
    Approximates (host.call f receiver args) (host'.call f receiver args)
  suspend : host.suspend = refuseSuspend
  suspend' : host'.suspend = refuseSuspend
  fuel : host.fuel ≤ host'.fuel

theorem Host.Within.suits {host host' : Host} (h : host.Within host') :
    approximates.Suits host host' where
  calls :=
    { call := h.call
      fuel := Approximates.fuels h.fuel
      await := fun x y _ => by
        rw [h.suspend, h.suspend']
        exact refuseSuspend_related approximates.toEvalRelation .await x y }
  suspends kind x y _ := by
    rw [h.suspend, h.suspend']
    exact refuseSuspend_related approximates.toEvalRelation kind x y
  names _ := trivial
  occurs _ := trivial

section Resuming

variable {host host' : Host} (hh : host.Within host')

include hh

theorem runSlice_approximates (id : InstanceId) (g : Instance) (a : Action) :
    Approximates (runSlice host id g a) (runSlice host' id g a) :=
  .after _ fun _ => .bind
    (slice_related hh.suits (Approximates.fuels hh.fuel) g a) fun _ => .refl _

theorem resumeOne_approximates (id : InstanceId) (a : Action) :
    Approximates (resumeOne host id a) (resumeOne host' id a) := by
  refine .after _ fun g => ?_
  cases g with
  | none => exact .refl _
  | some g =>
    refine .after _ fun r => ?_
    match r with
    | .error _ => exact .refl _
    | .ok (g, a) =>
      dsimp only
      cases g.status with
      | completed => exact .refl _
      | executing =>
        dsimp only
        split
        · exact runSlice_approximates hh id g a
        · exact .refl _
      | suspendedStart | suspendedYield => exact runSlice_approximates hh id g a

theorem resumeChain_approximates {n m : Nat} (hn : n ≤ m) (outer : List InstanceId) (id : InstanceId)
    (a : Action) :
    Approximates (resumeChain host n outer id a) (resumeChain host' m outer id a) := by
  induction n generalizing m outer id a with
  | zero => exact .exhausted _
  | succ n ih =>
    obtain ⟨m, rfl⟩ := Nat.exists_eq_add_of_le' (Nat.one_le_of_lt hn)
    have hn : n ≤ m := Nat.le_of_succ_le_succ hn
    refine .bind (resumeOne_approximates hh id a) fun p => ?_
    match p with
    | .delegate inner a => exact ih hn (id :: outer) inner a
    | .stop (.returned _) | .stop (.threw _) =>
      cases outer with
      | nil => exact .refl _
      | cons next outer => exact ih hn outer next _
    | .stop (.failed _) | .stop (.awaiting _) | .stop (.yielded _) => exact .refl _

theorem resume_approximates (id : InstanceId) (a : Action) :
    Approximates (resume host id a) (resume host' id a) :=
  resumeChain_approximates hh hh.fuel [] id a

theorem serve_approximates (id : AsyncGeneratorId) (inst : InstanceId) (a : Action) :
    Approximates (AsyncGenerator.serve host id inst a) (AsyncGenerator.serve host' id inst a) :=
  .bind (resume_approximates hh inst a) fun _ => .refl _

theorem asyncDrain_approximates {n m : Nat} (hn : n ≤ m) (id : AsyncGeneratorId) :
    Approximates (AsyncGenerator.drain host id n) (AsyncGenerator.drain host' id m) := by
  induction n generalizing m with
  | zero => exact .exhausted _
  | succ n ih =>
    obtain ⟨m, rfl⟩ := Nat.exists_eq_add_of_le' (Nat.one_le_of_lt hn)
    have hrest := ih (Nat.le_of_succ_le_succ hn)
    refine .after _ fun a => ?_
    cases a with
    | none => exact .refl _
    | some a =>
      dsimp only
      cases a.queue with
      | nil => exact .refl _
      | cons r rest =>
        refine .after _ fun _ => .bind (serve_approximates hh id _ _) fun more => ?_
        cases more with
        | true => exact hrest
        | false => exact .refl (pure ())

theorem requestNext_approximates (receiver : Value) (m : Method) (v : Value) :
    Approximates (requestNext host receiver m v) (requestNext host' receiver m v) := by
  refine .after _ fun promise => .after _ fun h => ?_
  cases h.asyncGenerator? receiver with
  | none => exact .refl _
  | some id =>
    refine .after _ fun _ => .after _ fun a => ?_
    dsimp only
    split
    · exact .bind (asyncDrain_approximates hh hh.fuel id) fun _ => .refl _
    · exact .refl _

theorem stepAsyncFunction_approximates (inst : InstanceId) (promise : ObjectId) (a : Action) :
    Approximates (stepAsyncFunction host inst promise a) (stepAsyncFunction host' inst promise a) :=
  .bind (resume_approximates hh inst a) fun _ => .refl _

end Resuming

section Calls

variable {host host' : Host} (hh : host.Within host')

include hh

theorem constructPromise_approximates (executor : Value) :
    Approximates (Native.constructPromise host executor)
      (Native.constructPromise host' executor) := by
  have hstart := Approximates.after (Run.edit Edit.newPromise) fun promise =>
    Approximates.after (Run.edit (Promise.newResolvers promise)) fun r =>
    executed_related hh.suits executor promise r
  refine .after _ fun h => ?_
  dsimp only
  split
  · exact .after _ fun _ => hstart
  · exact hstart

theorem native_approximates (n : Native) (receiver : Value) (args : List Value) :
    Approximates (n.call host receiver args) (n.call host' receiver args) := by
  cases n with
  | generator m =>
    refine .after _ fun h => ?_
    cases h.generator? receiver with
    | some id => exact .bind (resume_approximates hh id _) fun _ => .refl _
    | none => exact .refl _
  | asyncGenerator m => exact requestNext_approximates hh receiver m _
  | promise => exact constructPromise_approximates hh _
  | _ => exact .refl _

theorem closure_approximates (f : Value) (c : Closure) (receiver : Value) (args : List Value) :
    Approximates (c.call host f receiver args) (c.call host' f receiver args) := by
  refine .bind (enter_related hh.suits c receiver args) fun scope => ?_
  cases c.routine with
  | plain => exact runBody_related hh.suits c scope
  | generator | asyncGenerator => exact .refl _
  | async plan =>
    exact .after _ fun inst => .after _ fun promise =>
      .bind (stepAsyncFunction_approximates hh inst promise _) fun _ => .refl _

theorem callFunction_approximates (f receiver : Value) (args : List Value) :
    Approximates (callFunction host f receiver args) (callFunction host' f receiver args) := by
  refine .after _ fun h => ?_
  split
  · exact native_approximates hh _ receiver args
  · exact closure_approximates hh f _ receiver args
  · exact .refl _

end Calls

/-- Calls that may nest deeper go the same way if they end. -/
theorem callWithin_approximates {n m : Nat} (hn : n ≤ m) (f receiver : Value) (args : List Value) :
    Approximates (callWithin n f receiver args) (callWithin m f receiver args) := by
  induction n generalizing m f receiver args with
  | zero => exact .exhausted _
  | succ n ih =>
    obtain ⟨m, rfl⟩ := Nat.exists_eq_add_of_le' (Nat.one_le_of_lt hn)
    have hn : n ≤ m := Nat.le_of_succ_le_succ hn
    have hh : Host.Within ⟨callWithin n, refuseSuspend, n⟩ ⟨callWithin m, refuseSuspend, m⟩ :=
      ⟨ih hn, rfl, rfl, hn⟩
    exact callFunction_approximates hh f receiver args

theorem withFuel_within {n m : Nat} (hn : n ≤ m) : (Host.withFuel n).Within (.withFuel m) := by
  refine ⟨?_, rfl, rfl, hn⟩
  show ∀ f receiver args, Approximates (callWithin n f receiver args) (callWithin m f receiver args)
  exact fun f receiver args => callWithin_approximates hn f receiver args

end Resumable
