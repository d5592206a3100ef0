import Resumable.Proofs.Machine.Delivery
import Resumable.Proofs.Machine.Related

/-!
What an instance holds: the place where it stands, with its scopes and loops, its frames, and the jumps
that are pending in them. A property of these is kept by all that an instance does as soon as it is kept
when something is lost and when a frame or a jump is followed. Main statements: `unwind_holds`,
`after_holds`, `passOn_holds`.
-/

set_option autoImplicit false

namespace Resumable

open RunOn (Gives OnlyThrows)
open Instance (outermost)

/-- Where an instance stands: the position, and what its code sees around it. -/
structure Place where
  ip : Nat
  base : ScopeId
  scopes : List ScopeId
  loops : List LoopScope

namespace Place

def goto (p : Place) (ip : Nat) : Place := { p with ip }

def cut (p : Place) (scopes loops : Nat) : Place :=
  { p with scopes := outermost scopes p.scopes, loops := outermost loops p.loops }

end Place

def Instance.place (g : Instance) : Place := ⟨g.ip, g.base, g.scopes, g.loops⟩

def Frame.Takes (f : Frame) (target : Nat) : Prop :=
  ∃ s, (∃ v, f.kind.receive s = .handle target v) ∨ f.kind.receive s = .finalize target

/-- A property of what an instance holds. While a signal is on its way out, less may be known of the place
than where the instance goes on. -/
structure Holding where
  plan : Plan
  around : Place → Prop
  stands : Place → Prop
  frame : Frame → Prop
  jump : Jump → Prop
  leaps : Prop
  around_of_stands : ∀ {p : Place}, stands p → around p
  cut : ∀ {p : Place} {f : Frame}, around p → frame f → around (p.cut f.scopes f.loops)
  enter : ∀ {p : Place} {f : Frame} {target : Nat}, around p → frame f → f.Takes target →
    stands ((p.cut f.scopes f.loops).goto target)
  land : ∀ {p : Place} {j : Jump}, around p → jump j →
    stands ((p.cut j.scopes j.loops).goto j.target)
  phase : ∀ {f : Frame} {s : Option Signal}, frame f → (∀ j, s = some (.jump j) → jump j) →
    frame { f with kind := f.kind.enter (.finalizer s) }
  handler : ∀ {f : Frame}, frame f → frame { f with kind := f.kind.enter .handler }
  leap : ∀ {p : Place} {label : Option String} {isContinue : Bool} {j : Jump}, leaps → around p →
    jumpAmong label isContinue p.loops = some j → jump j

/-- Whether an instance has a property of what it holds, wherever it stands. -/
structure Instance.Bears (H : Holding) (g : Instance) : Prop where
  plan_eq : g.plan = H.plan
  around : H.around g.place
  frames : ∀ f ∈ g.frames, H.frame f

/-- Whether an instance has a property of what it holds. -/
structure Instance.Holds (H : Holding) (g : Instance) : Prop where
  plan_eq : g.plan = H.plan
  stands : H.stands g.place
  frames : ∀ f ∈ g.frames, H.frame f

theorem Instance.Holds.bears {H : Holding} {g : Instance} (h : g.Holds H) : g.Bears H :=
  ⟨h.plan_eq, H.around_of_stands h.stands, h.frames⟩

/-- Whether an instance is to go on after a turn, at once or when it is resumed. -/
def Turn.GoesOn : Turn → Prop
  | .goOn _ => True
  | .pause _ p => p.isFinal = false

/-- Whether a turn keeps a property of what its instance holds. -/
structure Turn.Keeps (H : Holding) (t : Turn) : Prop where
  bears : t.subject.Bears H
  stands : t.GoesOn → H.stands t.subject.place

theorem Instance.Holds.keeps {H : Holding} {t : Turn} (h : t.subject.Holds H) : t.Keeps H :=
  ⟨h.bears, fun _ => h.stands⟩

theorem Turn.Keeps.holds {H : Holding} {t : Turn} (h : t.Keeps H) (ht : t.GoesOn) :
    t.subject.Holds H := ⟨h.bears.plan_eq, h.stands ht, h.bears.frames⟩

/-- Whether the places where an instance goes on when it is resumed have a property. -/
structure Instance.Onward (H : Holding) (g : Instance) : Prop where
  store : ∀ slot next, g.instr? = some (.store slot next) → H.stands (g.place.goto next)
  suspend : ∀ i next slot past, g.instr? = some i → i.isSuspend = true → next ∈ i.targets →
    g.plan.get? next = some (.store slot past) →
    H.stands (g.place.goto next) ∧ H.stands (g.place.goto past)

section Steps

variable {H : Holding} {g g' : Instance} {host : Host}

theorem Instance.Holds.same (hg : g.Holds H)
    (h : (g'.plan, g'.place, g'.frames) = (g.plan, g.place, g.frames)) : g'.Holds H := by
  simp only [Prod.mk.injEq] at h
  obtain ⟨hplan, hplace, hframes⟩ := h
  exact ⟨hplan.trans hg.plan_eq, hplace ▸ hg.stands, hframes ▸ hg.frames⟩

theorem Instance.Holds.goto (hg : g.Holds H) {ip : Nat} (hip : H.stands (g.place.goto ip)) :
    (g.goto ip).Holds H := ⟨hg.plan_eq, hip, hg.frames⟩

theorem goOn_keeps (hg : g.Holds H) : (Turn.goOn g).Keeps H := hg.keeps

theorem pause_keeps {p : Pause} (hg : g.Holds H) : (Turn.pause g p).Keeps H := hg.keeps

theorem final_keeps {p : Pause} (hg : g.Bears H) (hp : p.isFinal = true) :
    (Turn.pause g p).Keeps H :=
  ⟨hg, fun h => by simp [Turn.GoesOn, hp] at h⟩

theorem Instance.Bears.popFrame (hg : g.Bears H) : g.popFrame.Bears H :=
  ⟨hg.plan_eq, hg.around, fun f hf => hg.frames f (List.mem_of_mem_tail hf)⟩

theorem unwindThrough_holds {frames : List Frame} {signal : Signal} (hg : g.Bears H)
    (hframes : ∀ f ∈ frames, H.frame f) (hsignal : ∀ j, signal = .jump j → H.jump j) :
    Gives (Turn.Keeps H) (g.unwindThrough host signal frames) := by
  induction frames generalizing g signal with
  | nil =>
    have hleft : Instance.Bears H { g with frames := [] } := ⟨hg.plan_eq, hg.around, hframes⟩
    cases signal with
    | ret | throw => exact .pure (final_keeps hleft rfl)
    | jump j => exact .pure (goOn_keeps ⟨hg.plan_eq, H.land hg.around (hsignal j rfl), hframes⟩)
  | cons f outer ih =>
    obtain ⟨hf, houter⟩ := List.forall_mem_cons.1 hframes
    unfold Instance.unwindThrough
    cases hlands : signal.landing? (outer.length + 1) with
    | some j =>
      obtain ⟨rfl, -⟩ := landing_eq_some hlands
      exact .pure (goOn_keeps ⟨hg.plan_eq, H.land hg.around (hsignal j rfl), hframes⟩)
    | none =>
      dsimp only
      cases hr : f.kind.receive signal with
      | handle target v =>
        exact .pure (goOn_keeps ⟨hg.plan_eq, H.enter hg.around hf ⟨signal, .inl ⟨v, hr⟩⟩,
          List.forall_mem_cons.2 ⟨H.handler hf, houter⟩⟩)
      | finalize target =>
        have hphase := H.phase hf fun j hj => hsignal j (Option.some.inj hj)
        exact .pure (goOn_keeps ⟨hg.plan_eq, H.enter hg.around hf ⟨signal, .inr hr⟩,
          List.forall_mem_cons.2 ⟨hphase, houter⟩⟩)
      | pass => exact ih hg houter hsignal
      | close iterator =>
        have hcut : Instance.Bears H { g.cut f.scopes f.loops with frames := outer } :=
          ⟨hg.plan_eq, H.cut hg.around hf, houter⟩
        refine .bind fun r => ?_
        cases r with
        | ok => exact ih hcut houter hsignal
        | error c =>
          cases c with
          | throw v => exact ih hcut houter (by simp)
          | fatal e => exact .pure (final_keeps hcut rfl)
          | ret | brk | cont => exact ih hcut houter hsignal

theorem unwind_holds {signal : Signal} (hg : g.Bears H)
    (hsignal : ∀ j, signal = .jump j → H.jump j) : Gives (Turn.Keeps H) (g.unwind host signal) :=
  unwindThrough_holds hg hg.frames hsignal

theorem jump_holds (hl : H.leaps) (hg : g.Bears H) (label : Option String) (isContinue : Bool) :
    Gives (Turn.Keeps H) (g.jump host label isContinue) := by
  unfold Instance.jump
  cases hj : jumpAmong label isContinue g.loops with
  | some j =>
    refine unwind_holds hg fun j' hj' => ?_
    cases hj'
    exact H.leap (p := g.place) hl hg.around hj
  | none => exact .bind fun e => unwind_holds hg (by simp)

theorem complete_holds (hg : g.Bears H) {c : Abrupt} (hc : H.leaps ∨ c.leavesCalls = true) :
    Gives (Turn.Keeps H) (g.complete host c) := by
  cases c with
  | ret | throw => exact unwind_holds hg (by simp)
  | brk | cont => exact jump_holds (hc.resolve_right nofun) hg _ _
  | fatal => exact .pure (final_keeps hg rfl)

theorem attempt_holds {α : Type} {x : Run α} {f : Except Abrupt α → Run Turn}
    (hx : H.leaps ∨ x.OnlyThrows) (hok : ∀ a, Gives (Turn.Keeps H) (f (.ok a)))
    (herror : ∀ c, H.leaps ∨ c.leavesCalls = true → Gives (Turn.Keeps H) (f (.error c))) :
    Gives (Turn.Keeps H) (x.attempt >>= f) := by
  obtain hl | hx := hx
  · refine .bind fun r => ?_
    cases r with
    | ok a => exact hok a
    | error c => exact herror c (.inl hl)
  · exact .attempt_bind hx hok fun c hc => herror c (.inr hc)

/-- Script code, and what follows it. -/
theorem after_holds {α : Type} {x : Run α} {next : α → Run Turn} (hg : g.Bears H)
    (hx : H.leaps ∨ x.OnlyThrows) (hn : ∀ a, Gives (Turn.Keeps H) (next a)) :
    Gives (Turn.Keeps H) (g.after host x next) :=
  attempt_holds hx hn fun _ hc => complete_holds hg hc

section Scripts

variable (hg : g.Holds H)

include hg

theorem store_holds (slot : Option String) {next : Nat} (hn : H.stands (g.place.goto next))
    (v : Value) : Gives (Turn.Keeps H) (g.store host slot next v) := by
  cases slot with
  | none => exact .pure (goOn_keeps (hg.goto hn))
  | some name =>
    have hwrite : (writeName g.scope name v : Run Unit).OnlyThrows :=
      (writeName_related onlyThrows.toEvalRelation _ name v trivial).2
    exact after_holds hg.bears (.inr hwrite) fun _ => .pure (goOn_keeps (hg.goto hn))

theorem storeResume_holds (ho : g.Onward H) (v : Value) :
    Gives (Turn.Keeps H) (g.storeResume host v) := by
  unfold Instance.storeResume
  split
  · rename_i slot next hi
    exact store_holds hg slot (ho.store slot next hi) v
  -- at the three instructions that suspend it is the next one that stores
  iterate 3
    · rename_i next hi
      split
      · rename_i slot past hstore
        obtain ⟨hn, hpast⟩ := ho.suspend _ next slot past hi rfl (by simp) hstore
        exact store_holds (hg.goto hn) slot hpast v
      · exact .exhausted
  · exact .exhausted

theorem delegateDone_holds (ho : g.Onward H) (v : Value) :
    Gives (Turn.Keeps H) (g.delegateDone host v) := by
  have hdone : g.endDelegation.Holds H := hg.same rfl
  unfold Instance.delegateDone
  split
  · exact unwind_holds hdone.bears (by simp)
  · exact storeResume_holds hdone ⟨ho.store, ho.suspend⟩ v

theorem delegateResult_holds (ho : g.Onward H) (result : Value) :
    Gives (Turn.Keeps H) (g.delegateResult host result) := by
  refine .bind fun h => ?_
  split
  · exact .pure (pause_keeps (hg.same rfl))
  · cases malformed? h result with
    | some e => exact .pure (pause_keeps (hg.same rfl))
    | none =>
      dsimp only
      split
      · exact delegateDone_holds hg ho _
      · exact .pure (pause_keeps hg)

variable (hh : H.leaps ∨ host.Proper)

include hh

theorem delegateMissing_holds (iterator : Value) (m : Method) (v : Value) :
    Gives (Turn.Keeps H) (g.delegateMissing host iterator m v) := by
  cases m with
  | next | ret => exact unwind_holds hg.bears (by simp)
  | throw =>
    have hclose : H.leaps ∨ (closeIterator host iterator false).OnlyThrows :=
      hh.imp_right fun hh : host.Proper => (closeIterator_related hh.related iterator false).2
    exact after_holds hg.bears hclose fun _ => .bind fun _ => unwind_holds hg.bears (by simp)

theorem passOn_holds (ho : g.Onward H) (m : Method) (v : Value) :
    Gives (Turn.Keeps H) (g.passOn host m v) := by
  unfold Instance.passOn
  cases g.delegation with
  | none => exact storeResume_holds hg ho v
  | some d =>
    have hd (d : Option Delegation) : ({ g with delegation := d } : Instance).Holds H := hg.same rfl
    have hod (d : Option Delegation) : ({ g with delegation := d } : Instance).Onward H :=
      ⟨ho.store, ho.suspend⟩
    dsimp only
    cases d.native with
    | some inner => exact .pure (pause_keeps (hd _))
    | none =>
      have hforward : H.leaps ∨ (d.record.forward host m v).OnlyThrows :=
        hh.imp_right fun hh : host.Proper => (forward_related hh.related d.record m v).2
      refine attempt_holds hforward (fun answer => ?_) fun c hc =>
        complete_holds (hd none).bears hc
      cases answer with
      | none => exact delegateMissing_holds (hd none) hh _ m v
      | some result => exact delegateResult_holds (hd _) (hod _) result

theorem startDelegation_holds (ho : g.Onward H) (iterable : Value) :
    Gives (Turn.Keeps H) (g.startDelegation host iterable) := by
  have hopened (asyncOnly : Bool) : H.leaps ∨ (if g.isAsync || asyncOnly then
      IteratorRecord.ofAsync host iterable else IteratorRecord.ofValue host iterable).OnlyThrows := by
    refine hh.imp_right fun hh => ?_
    split
    · exact (ofAsync_related hh.related iterable).2
    · exact (ofValue_related hh.related iterable).2
  have hd (d : Option Delegation) : ({ g with delegation := d } : Instance).Holds H := hg.same rfl
  have hod (d : Option Delegation) : ({ g with delegation := d } : Instance).Onward H :=
    ⟨ho.store, ho.suspend⟩
  exact .bind fun h => after_holds hg.bears (hopened _) fun _ => .bind fun _ =>
    passOn_holds (hd _) hh (hod _) _ _

end Scripts

/-- Frames are left with a property if their finally blocks may be run. -/
theorem exitTry_holds {next : Nat} (hg : g.Holds H) (hl : H.leaps)
    (hn : H.stands (g.place.goto next))
    (hexit : ∀ f ∈ g.frames, ∀ target, f.Takes target → H.stands (g.place.goto target))
    (close : Bool) : Gives (Turn.Keeps H) (g.exitTry host next close) := by
  unfold Instance.exitTry
  cases hframes : g.frames with
  | nil => exact .pure (goOn_keeps (hg.goto hn))
  | cons f outer =>
    obtain ⟨hf, houter⟩ := List.forall_mem_cons.1 (hframes ▸ hg.frames)
    have hpast : Instance.Holds H { g with frames := outer, ip := next } :=
      ⟨hg.plan_eq, hn, houter⟩
    have hfinally {onThrow : Option Nat} {target : Nat} {phase : Phase}
        (hk : f.kind = .region onThrow (some target) phase)
        (hreceive : f.kind.receive (.ret .undefined) = .finalize target) : Instance.Holds H
        { g with
          frames := { f with kind := .region onThrow (some target) (.finalizer none) } :: outer
          ip := target } := by
      refine ⟨hg.plan_eq, hexit f (hframes ▸ List.mem_cons_self) target ⟨_, .inr hreceive⟩,
        List.forall_mem_cons.2 ⟨?_, houter⟩⟩
      have h := H.phase (s := none) hf (by simp)
      rwa [hk] at h
    dsimp only
    cases hk : f.kind with
    | iterator record =>
      dsimp only
      split
      · exact after_holds hpast.bears (.inl hl) fun _ => .pure (goOn_keeps hpast)
      · exact .pure (goOn_keeps hpast)
    | region onThrow onExit phase =>
      cases onExit with
      | none => cases phase <;> exact .pure (goOn_keeps hpast)
      | some target =>
        cases phase with
        | finalizer => exact .pure (goOn_keeps hpast)
        | body | handler =>
          exact .pure (goOn_keeps (hfinally hk (by cases onThrow <;> simp [hk, FrameKind.receive])))

theorem endFinally_holds {next : Nat} (hg : g.Holds H) (hn : H.stands (g.place.goto next))
    (hpending : ∀ f ∈ g.frames, ∀ j, f.pending? = some (.jump j) → H.jump j) :
    Gives (Turn.Keeps H) (g.endFinally host next) := by
  unfold Instance.endFinally
  cases hp : g.frames.head?.bind Frame.pending? with
  | none =>
    have hpop : g.popFrame.Holds H :=
      ⟨hg.plan_eq, hg.stands, fun f hf => hg.frames f (List.mem_of_mem_tail hf)⟩
    exact .pure (goOn_keeps (hpop.goto hn))
  | some signal =>
    obtain ⟨f, hf, hsignal⟩ := Option.bind_eq_some_iff.1 hp
    refine unwind_holds hg.bears.popFrame fun j hj => hpending f (List.mem_of_head? hf) j ?_
    rw [hsignal, hj]

end Steps

end Resumable
