import Resumable.Proofs.Lifecycle.Chains
import Resumable.Proofs.Polling.Alike

/-!
Runs from worlds that are alike end alike: a call that a generator has passed on is never looked at
again. Main statements: `resumeChain_inStep`, `callWithin_inStep`, `Job.run_inStep`.
-/

set_option autoImplicit false

namespace Resumable

def InStep {α : Type} (F E : Set InstanceId) (x y : Run α) : Prop :=
  ∀ w w' : World, w.Alike F E w' → World.EndsAlike F E (x w) (y w')

section Closure

variable {F E E' : Set InstanceId} {α β : Type} {w w' : World}

theorem World.EndsAlike.mono {r r' : Outcome World α} (h : World.EndsAlike F E' r r') (hE : E ⊆ E')
    (hF : F ⊆ E) : World.EndsAlike F E r r' := by
  cases h with
  | done h _ => exact .done (h.mono hE hF) trivial
  | abrupt h _ => exact .abrupt (h.mono hE hF) trivial
  | exhausted => exact .exhausted

theorem World.EndsAlike.go {x y : Run α} {f g : α → Run β} {P : α → World → Prop}
    (hx : World.EndsAlike F E (x w) (y w')) (hp : (x w).Yields P)
    (hf : ∀ a v v', P a v → v.Alike F E v' → World.EndsAlike F E' (f a v) (g a v')) :
    World.EndsAlike F E' ((x >>= f) w) ((y >>= g) w') := by
  simp only [Bind.bind, RunOn.bind]
  generalize x w = r at hx hp
  generalize y w' = r' at hx
  cases hx with
  | done h _ => exact hf _ _ _ hp h
  | abrupt _ _ => exact hp.elim
  | exhausted => exact .exhausted

theorem InStep.bind {x y : Run α} {f g : α → Run β} (hx : InStep F E x y)
    (hf : ∀ a, InStep F E (f a) (g a)) : InStep F E (x >>= f) (y >>= g) := by
  intro w w' h
  have hx := hx w w' h
  simp only [Bind.bind, RunOn.bind]
  generalize x w = r at hx
  generalize y w' = r' at hx
  cases hx with
  | done h _ => exact hf _ _ _ h
  | abrupt h _ => exact .abrupt h trivial
  | exhausted => exact .exhausted

theorem InStep.edits {x : Edit α} {f : α → Edit β} (hx : InStep F E (Run.edit x) (Run.edit x))
    (hf : ∀ a, InStep F E (Run.edit (f a)) (Run.edit (f a))) :
    InStep F E (Run.edit (x >>= f)) (Run.edit (x >>= f)) := hx.bind hf

theorem InStep.attempt {x y : Run α} (hx : InStep F E x y) : InStep F E x.attempt y.attempt := by
  intro w w' h
  have hx := hx w w' h
  simp only [RunOn.attempt]
  generalize x w = r at hx
  generalize y w' = r' at hx
  cases hx with
  | done h _ => exact .done h trivial
  | abrupt h _ => exact .done h trivial
  | exhausted => exact .exhausted

theorem InStep.pure (a : α) : InStep F E (Pure.pure a) (Pure.pure a) := fun _ _ h => .done h trivial

theorem InStep.abrupt (c : Abrupt) : InStep F E (Run.abrupt c : Run α) (Run.abrupt c) :=
  fun _ _ h => .abrupt h trivial

theorem InStep.exhausted : InStep F E (Run.exhausted : Run α) Run.exhausted :=
  fun _ _ _ => .exhausted

theorem InStep.edit {x : Edit α} (hx : x.Safe F) : InStep F E (Run.edit x) (Run.edit x) := by
  intro w w' h
  obtain ⟨heq, h⟩ := hx.alike h
  show World.EndsAlike F E (.done (x w).1 (x w).2) (.done (x w').1 (x w').2)
  rw [heq]
  exact .done h trivial

theorem InStep.view {f : World → α} (hf : ∀ w gs, f { w with instances := gs } = f w) :
    InStep F E (Run.read f) (Run.read f) := by
  intro w w' h
  have heq : f w' = f w := by rw [← h.rest, hf]
  show World.EndsAlike F E (.done (f w) w) (.done (f w') w')
  rw [heq]
  exact .done h trivial

end Closure

def lockstep (F : Set InstanceId) : RunRelation World World where
  rel x y := ∀ E, InStep F E x y
  occurs _ := True
  names _ := True
  throw_occurs _ := trivial
  fatal_occurs _ := trivial
  pure a _ := .pure a
  bind hx hf E := (hx E).bind fun a => hf a E
  attempt hx hok herror E := (hx E).attempt.bind fun r => by
    cases r with
    | ok a => exact hok a E
    | error c => exact herror c trivial E
  abrupt c _ _ := .abrupt c
  exhausted _ := .exhausted
  heap _ := .view fun _ _ => rfl
  lookup _ _ _ _ := .view fun _ _ => rfl
  has _ _ _ _ := .view fun _ _ => rfl
  this _ _ := .view fun _ _ => rfl
  edit _ hl hx _ := .edit (.of_calm hl hx)
  newScope _ _ := .edit (scopes_safe _)
  copyScope _ _ := .edit (scopes_safe _)
  declare _ _ _ _ _ := .edit (scopes_safe _)
  assign _ _ _ _ _ := .edit (scopes_safe _)
  define scope name kind _ _ _ := .edit (.bind (declare_safe scope name kind) fun _ => scopes_safe _)

/-- Whether the calls of a host are in step, and its suspend expressions are errors. -/
structure Host.InStep (host : Host) (F : Set InstanceId) : Prop where
  call : ∀ f receiver args E, Resumable.InStep F E (host.call f receiver args)
    (host.call f receiver args)
  suspend : host.suspend = refuseSuspend

theorem Host.InStep.suits {F : Set InstanceId} {host : Host} (h : host.InStep F) :
    (lockstep F).Suits host host where
  calls :=
    { call := h.call
      fuel := .same _
      await := fun x y _ => by
        rw [h.suspend]
        exact refuseSuspend_related (lockstep F).toEvalRelation .await x y }
  suspends kind x y _ := by
    rw [h.suspend]
    exact refuseSuspend_related (lockstep F).toEvalRelation kind x y
  names _ := trivial
  occurs _ := trivial

section Instances

variable {F E : Set InstanceId} {w w' : World} {id : InstanceId}

theorem World.Alike.setInstances {E' : Set InstanceId} {gs gs' : Array Instance} (h : w.Alike F E w')
    (hsize : gs'.size = gs.size) (hgrow : w.instances.size ≤ gs.size)
    (htwin : ∀ (i : InstanceId) (g g' : Instance), gs[i]? = some g → gs'[i]? = some g' → g.Twin g')
    (hsame : ∀ i ∈ E', gs'[i]? = gs[i]?) (hF : F ⊆ E') :
    World.Alike F E' { w with instances := gs } { w' with instances := gs' } where
  rest := by rw [← h.rest]
  size := hsize
  twin := htwin
  same := hsame
  within := hF
  fresh i hi := h.fresh i (hgrow.trans hi)
  wired := h.wired.congr rfl (fun _ => rfl) rfl

theorem World.Alike.put (h : w.Alike F E w') (id : InstanceId) (g : Instance) :
    (w.put id g).Alike F (insert id E) (w'.put id g) := by
  have hself : (w'.put id g).instances[id]? = (w.put id g).instances[id]? := by
    simp only [World.put, Array.getElem?_setIfInBounds, h.size, if_true]
  have hother {i : InstanceId} (hi : id ≠ i) (v : World) :
    (v.put id g).instances[i]? = v.instances[i]? := World.put_other hi
  refine h.setInstances ?_ ?_ ?_ ?_ (h.within.trans (Set.subset_insert id E))
  · simp [h.size]
  · simp
  · intro i g₁ g₂ h₁ h₂
    by_cases hi : id = i
    · subst hi
      exact .same (Option.some.inj (h₂.symm.trans (hself.trans h₁)))
    · exact h.twin i g₁ g₂ ((hother hi w).symm.trans h₁) ((hother hi w').symm.trans h₂)
  · intro i hi
    by_cases hid : id = i
    · subst hid
      exact hself
    · exact (hother hid w').trans ((h.same i (hi.resolve_left (Ne.symm hid))).trans (hother hid w).symm)

theorem instance_inStep (hid : id ∈ E) :
    InStep F E (Run.edit (Edit.instance? id)) (Run.edit (Edit.instance? id)) := by
  intro w w' h
  show World.EndsAlike F E (.done w.instances[id]? w) (.done w'.instances[id]? w')
  rw [h.same id hid]
  exact .done h trivial

theorem setInstance_inStep (hid : id ∈ E) (g : Instance) :
    InStep F E (Run.edit (Edit.setInstance id g)) (Run.edit (Edit.setInstance id g)) := by
  intro w w' h
  have hput := h.put id g
  rw [Set.insert_eq_of_mem hid] at hput
  exact .done hput trivial

theorem World.Alike.modify (h : w.Alike F E w') (hid : id ∈ E) (f : Instance → Instance) :
    World.Alike F E { w with instances := w.instances.modify id f }
      { w' with instances := w'.instances.modify id f } := by
  have hmodify (v : World) (i : InstanceId) : (v.instances.modify id f)[i]? =
      if id = i then v.instances[i]?.map f else v.instances[i]? := Array.getElem?_modify
  refine h.setInstances (by simp [h.size]) (by simp) ?_ ?_ h.within
  · intro i g g' hg hg'
    rw [hmodify] at hg hg'
    by_cases hi : id = i
    · subst hi
      rw [if_pos rfl] at hg hg'
      rw [h.same _ hid, hg] at hg'
      exact .same (Option.some.inj hg').symm
    · rw [if_neg hi] at hg hg'
      exact h.twin i g g' hg hg'
  · intro i hi
    rw [hmodify, hmodify, h.same i hi]

theorem modifyInstance_inStep (hid : id ∈ E) (f : Instance → Instance) :
    InStep F E (Run.edit (Edit.modifyInstance id f)) (Run.edit (Edit.modifyInstance id f)) :=
  fun _ _ h => .done (h.modify hid f) trivial

theorem markOuter_inStep {outer : List InstanceId} (ho : ∀ o ∈ outer, o ∈ E)
    (f : Instance → Instance) :
    InStep F E (Run.edit (markOuter outer f)) (Run.edit (markOuter outer f)) := by
  induction outer with
  | nil => exact .pure ()
  | cons id outer ih =>
    exact (modifyInstance_inStep (ho id (by simp)) f).bind fun _ => ih fun o h => ho o (by simp [h])

theorem World.Alike.push (h : w.Alike F E w') (g : Instance) :
    (Edit.newInstance g w').1 = (Edit.newInstance g w).1 ∧ (Edit.newInstance g w).1 ∈ F ∧
      (Edit.newInstance g w).2.Alike F E (Edit.newInstance g w').2 := by
  have hpush (v : World) (i : InstanceId) : (v.instances.push g)[i]? =
    if i = v.instances.size then some g else v.instances[i]? := Array.getElem?_push
  refine ⟨h.size, h.fresh _ (le_refl _), h.setInstances (by simp [h.size]) (by simp) ?_ ?_ h.within⟩
  · intro i g₁ g₂ h₁ h₂
    rw [hpush] at h₁ h₂
    rw [h.size] at h₂
    split at h₁
    · next hi =>
      rw [if_pos hi] at h₂
      exact .same (Option.some.inj (h₂.symm.trans h₁))
    · next hi =>
      rw [if_neg hi] at h₂
      exact h.twin i g₁ g₂ h₁ h₂
  · intro i hi
    rw [hpush, hpush, h.size, h.same i hi]

end Instances

/-- Whether a pause asks for another generator only by what a caller can ask. -/
def Pause.Asks : Pause → Prop
  | .stop _ => True
  | .delegate _ a => a.isCall = true

def anyFit : Conduct.lax.Fitness where
  fit _ _ _ _ _ := True
  rests := False
  stable _ h := h
  ended h := h
  received _ h := h
  started _ h := h

theorem slice_asks {host : Host} (hh : host.suspend = refuseSuspend) (n : Nat) (g : Instance)
    (a : Action) (w : World) : (g.slice host n a w).Yields fun r _ => r.2.Asks := by
  have hgives : Conduct.lax.Gives w (g.slice host n a) fun r => Turn.Fits anyFit (.pause r.1 r.2) :=
    slice_gives (F := anyFit) (s := w) (Conduct.lax_hosts hh) n trivial trivial nofun a
  refine Outcome.Yields.mono hgives ?_
  rintro ⟨g, p⟩ _ ⟨_, _, _, hfits⟩
  cases p with
  | stop => trivial
  | delegate => exact hfits.2.2

theorem runSlice_relay (host : Host) {g : Instance} (hg : g.Relays) (id : InstanceId) (m : Method)
    (v : Value) (w : World) :
    ∃ inner, g.delegate? = some inner ∧
      runSlice host id g (.ofMethod m v) w =
        .done (.delegate inner (.ofMethod m v)) (w.put id (g.relay m)) := by
  obtain ⟨inner, hinner⟩ := Option.isSome_iff_exists.1 hg.delegate
  obtain ⟨d, hd, hnative⟩ := Option.bind_eq_some_iff.1 hinner
  have hslice : g.slice host host.fuel (.ofMethod m v) =
      pure (g.relay m, .delegate inner (.ofMethod m v)) := by
    simp only [Instance.slice, hg.status, Instance.relay, hd]
    cases m <;>
      simp [Instance.resumed, Action.ofMethod, Instance.passOn, hnative, Instance.runOn]
  refine ⟨inner, hinner, ?_⟩
  simp only [runSlice, hslice, pure_bind]
  show Outcome.done _ _ = _
  congr 1
  show World.put (World.put w id _) id _ = _
  simp only [World.put, Array.setIfInBounds_setIfInBounds]
  rfl

section Resumption

variable {F E : Set InstanceId} {host : Host}

theorem runSlice_inStep (hh : host.InStep F) {id : InstanceId} (hid : id ∈ E) (g : Instance)
    (a : Action) : InStep F E (runSlice host id g a) (runSlice host id g a) :=
  (setInstance_inStep hid _).bind fun _ => (slice_related hh.suits (.same _) g a E).bind fun _ =>
    (setInstance_inStep hid _).bind fun _ => .pure _

theorem unpark_inStep {id : InstanceId} (hid : id ∈ E) (g : Instance) (a : Action) :
    InStep F E (Run.edit (unpark id g a)) (Run.edit (unpark id g a)) := by
  have hfreed (g : Instance) (a : Action) :
      InStep F E (Run.edit (unpark.freed id g a)) (Run.edit (unpark.freed id g a)) :=
    (setInstance_inStep hid g).bind fun _ => .pure _
  unfold unpark
  cases g.parked with
  | none => exact .pure _
  | some p =>
    refine .edits (.edit (takeCell_safe p.cell)) fun s => ?_
    match s, a with
    | none, .next _ => exact .pure _
    | some s, .next _ => exact hfreed _ _
    | none, .throw _ | none, .ret _ | none, .settled _ | none, .delegateDone _
    | none, .delegateThrew _ | some _, .throw _ | some _, .ret _ | some _, .settled _
    | some _, .delegateDone _ | some _, .delegateThrew _ => exact hfreed _ _

def resumeFound (host : Host) (id : InstanceId) (g : Instance) (a : Action) : Run Pause := do
  match ← unpark id g a with
  | .error promise => return .stop (.awaiting promise)
  | .ok (g, a) =>
    match g.status with
    | .completed => return .stop (Instance.afterEnd a)
    | .executing =>
      if a.endsDelegate then runSlice host id g a
      else return .stop (.failed .generatorRunning)
    | .suspendedStart | .suspendedYield => runSlice host id g a

theorem resumeOne_found {id : InstanceId} {g : Instance} {w : World} (hg : w.instances[id]? = some g)
    (a : Action) : resumeOne host id a w = resumeFound host id g a w := by
  have hread : (liftM (Edit.instance? id) : Run _) w = .done (some g) w :=
    congrArg (Outcome.done · w) hg
  simp only [resumeOne, bind, RunOn.bind, hread]
  rfl

theorem resumeOne_absent {id : InstanceId} {w : World} (hg : w.instances[id]? = none) (a : Action) :
    resumeOne host id a w = .done (.stop (.failed .notAGenerator)) w := by
  have hread : (liftM (Edit.instance? id) : Run _) w = .done none w :=
    congrArg (Outcome.done · w) hg
  simp only [resumeOne, bind, RunOn.bind, hread]
  rfl

theorem resumeFound_inStep (hh : host.InStep F) {id : InstanceId} (hid : id ∈ E)
    (g : Instance) (a : Action) : InStep F E (resumeFound host id g a) (resumeFound host id g a) := by
  refine (unpark_inStep hid g a).bind fun r => ?_
  match r with
  | .error _ => exact .pure _
  | .ok (g, a) =>
    dsimp only
    cases g.status with
    | completed => exact .pure _
    | executing =>
      dsimp only
      split
      · exact runSlice_inStep hh hid g a
      · exact .pure _
    | suspendedStart | suspendedYield => exact runSlice_inStep hh hid g a

theorem resumeFound_relay (host : Host) {g : Instance} (hg : g.Relays) (id : InstanceId) (m : Method)
    (v : Value) (w : World) :
    ∃ inner, g.delegate? = some inner ∧
      resumeFound host id g (.ofMethod m v) w =
        .done (.delegate inner (.ofMethod m v)) (w.put id (g.relay m)) := by
  have hunpark : (liftM (unpark id g (.ofMethod m v)) : Run _) w =
      .done (.ok (g, .ofMethod m v)) w := by
    simp only [unpark, hg.parked]
    rfl
  obtain ⟨inner, hinner, hslice⟩ := runSlice_relay host hg id m v w
  refine ⟨inner, hinner, ?_⟩
  simp only [resumeFound, bind, RunOn.bind, hunpark, hg.status]
  exact hslice

theorem Action.exists_of_isCall {a : Action} (h : a.isCall = true) : ∃ m v, a = .ofMethod m v := by
  cases a with
  | next v => exact ⟨.next, v, rfl⟩
  | throw v => exact ⟨.throw, v, rfl⟩
  | ret v => exact ⟨.ret, v, rfl⟩
  | settled | delegateDone | delegateThrew => cases h

theorem resumeOne_alike (hh : host.InStep F) {w w' : World} {id : InstanceId} {a : Action}
    (h : w.Alike F E w') (ha : a.isCall = true ∨ id ∈ E) :
    World.EndsAlike F (insert id E) (resumeOne host id a w) (resumeOne host id a w') := by
  have hsize : w.instances[id]? = none ↔ w'.instances[id]? = none := by
    rw [Array.getElem?_eq_none_iff, Array.getElem?_eq_none_iff, h.size]
  cases hg : w.instances[id]? with
  | none =>
    have hg' := hsize.1 hg
    rw [resumeOne_absent hg, resumeOne_absent hg']
    exact .done (h.add (hg'.trans hg.symm)) trivial
  | some g =>
    cases hg' : w'.instances[id]? with
    | none =>
      rw [hsize.2 hg'] at hg
      cases hg
    | some g' =>
      rw [resumeOne_found hg, resumeOne_found hg']
      have hsame (heq : g' = g) :
          World.EndsAlike F (insert id E) (resumeFound host id g a w) (resumeFound host id g' a w') := by
        subst heq
        exact resumeFound_inStep hh (Set.mem_insert id E) g' a w w' (h.add (hg'.trans hg.symm))
      cases h.twin id g g' hg hg' with
      | same heq => exact hsame heq
      | relays hrelays hforget =>
        obtain ha | hid := ha
        · obtain ⟨m, v, rfl⟩ := a.exists_of_isCall ha
          obtain ⟨inner, hinner, hone⟩ := resumeFound_relay host hrelays id m v w
          obtain ⟨inner', hinner', hother⟩ :=
            resumeFound_relay host (hrelays.of_forget hforget) id m v w'
          have heq : inner' = inner := by
            rw [← Instance.delegate?_forget, hforget, Instance.delegate?_forget, hinner] at hinner'
            exact (Option.some.inj hinner').symm
          rw [hone, hother, Instance.relay_of_forget hforget, heq]
          exact .done (h.put id _) trivial
        · exact hsame (Option.some.inj (hg'.symm.trans ((h.same id hid).trans hg)))

theorem runSlice_asks (hh : host.suspend = refuseSuspend) (id : InstanceId) (g : Instance) (a : Action)
    (w : World) : (runSlice host id g a w).Yields fun p _ => p.Asks := by
  refine .bind (P := fun _ _ => True) trivial fun _ w₁ _ => ?_
  exact .bind (slice_asks hh host.fuel g a w₁) fun _ _ hr => hr

theorem resumeOne_asks (hh : host.suspend = refuseSuspend) (id : InstanceId) (a : Action)
    (w : World) : (resumeOne host id a w).Yields fun p _ => p.Asks := by
  cases hg : w.instances[id]? with
  | none =>
    rw [resumeOne_absent hg]
    trivial
  | some g =>
    rw [resumeOne_found hg]
    refine .bind (P := fun _ _ => True) trivial fun r w₁ _ => ?_
    match r with
    | .error _ => trivial
    | .ok (g, a) =>
      dsimp only
      cases g.status with
      | completed => trivial
      | executing =>
        dsimp only
        split
        · exact runSlice_asks hh id g a w₁
        · trivial
      | suspendedStart | suspendedYield => exact runSlice_asks hh id g a w₁

theorem park_inStep {id : InstanceId} (hid : id ∈ E) (promise : Value) :
    InStep F E (Run.edit (park id promise)) (Run.edit (park id promise)) := by
  refine .edits (instance_inStep hid) fun g => ?_
  cases g with
  | none => exact .pure ()
  | some g =>
    dsimp only
    split
    · exact .edits (.edit newCell_safe) fun cell => .edits (.edit (await_safe promise trivial))
        fun _ => setInstance_inStep hid _
    · exact .pure ()

/-- A chain of generators: what a member of it is resumed with comes from a caller, or it is one of
those that are the same. -/
theorem resumeChain_inStep (hh : host.InStep F) (n : Nat)
    {outer : List InstanceId} {id : InstanceId} {a : Action} (ho : ∀ o ∈ outer, o ∈ E)
    (ha : a.isCall = true ∨ id ∈ E) :
    InStep F E (resumeChain host n outer id a) (resumeChain host n outer id a) := by
  induction n generalizing outer id a E with
  | zero => exact .exhausted
  | succ n ih =>
    intro w w' h
    refine (resumeOne_alike hh h ha).go (resumeOne_asks hh.suspend id a w) fun p v v' hp h => ?_
    have ho' : ∀ o ∈ outer, o ∈ insert id E := fun o hmem => .inr (ho o hmem)
    suffices hall : InStep F (insert id E) _ _ from
      (hall v v' h).mono (Set.subset_insert id E) ‹w.Alike F E w'›.within
    match p with
    | .delegate inner a =>
      exact ih (List.forall_mem_cons.2 ⟨Set.mem_insert id E, ho'⟩) (.inl hp)
    | .stop (.returned _) | .stop (.threw _) =>
      cases outer with
      | nil => exact .pure _
      | cons next outer =>
        exact ih (fun o hmem => ho' o (by simp [hmem])) (.inr (ho' next (by simp)))
    | .stop (.failed e) => exact (markOuter_inStep ho' _).bind fun _ => .pure _
    | .stop (.awaiting promise) =>
      exact (park_inStep (Set.mem_insert id E) promise).bind fun _ =>
        (markOuter_inStep ho' _).bind fun _ => .pure _
    | .stop (.yielded v) => exact (markOuter_inStep ho' _).bind fun _ => .pure _

theorem resume_inStep (hh : host.InStep F)
    {id : InstanceId} {a : Action} (ha : a.isCall = true ∨ id ∈ E) :
    InStep F E (resume host id a) (resume host id a) :=
  resumeChain_inStep hh host.fuel nofun ha

end Resumption

end Resumable
