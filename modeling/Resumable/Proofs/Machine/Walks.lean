import Resumable.Proofs.Machine.Runs
import Resumable.Proofs.Machine.Standing
import Resumable.Proofs.Plan.Turning

/-!
Whole runs of an instance together with the worlds in which its steps are taken. Main statement:
`Walk.kept`: at every turn the scopes of the instance stand in each other, the innermost one in the next,
and no frame and no loop leads between two turns of a loop.
-/

set_option autoImplicit false

namespace Resumable

open RunOn (Gives)
open Instance (outermost)

/-- One step of an instance: it dispatches an instruction, or is resumed after a pause that is not its end.
Meanwhile others may have run, which leave the scopes that there were. -/
inductive StepsTo (host : Host) : Turn → World → Turn → World → Prop where
  | dispatch {g : Instance} {i : Instr} {t : Turn} {w w' : World} : g.instr? = some i →
    g.dispatch host i w = .done t w' → StepsTo host (.goOn g) w t w'
  | resume {g g' : Instance} {p : Pause} {a : Action} {t : Turn} {w w₁ w' : World} :
    p.isFinal = false → g.MayBecome g' → g'.base = g.base → w.Later w₁ →
    g'.resumed host a w₁ = .done t w' → StepsTo host (.pause g p) w t w'

/-- The turns of an instance, and the worlds in which they are reached. -/
inductive Walk (host : Host) (first : Instance) : Turn → World → Prop where
  | start (a : Action) {w : World} : first.base < w.scopes.all.size →
    Walk host first (first.started a) w
  | step {t t' : Turn} {w w' : World} : Walk host first t w → StepsTo host t w t' w' →
    Walk host first t' w'

theorem Walk.reached {host : Host} {first : Instance} {t : Turn} {w : World}
    (h : Walk host first t w) : Reached host first t := by
  induction h with
  | start a => exact .start a
  | step _ hs ih =>
    cases hs with
    | dispatch hi hd => exact ih.dispatch hi hd
    | resume hp hg _ _ hr => exact ih.resume hp hg hr

section Slices

variable {host : Host} {first g g' g₁ : Instance} {p q : Pause} {w w₁ w' : World} {steps : Nat}
  {a : Action}

theorem Walk.firstSlice {plan : Plan} {base : ScopeId} {isAsync : Bool} (hbase : base < w.scopes.all.size)
    (he : (Instance.start plan base isAsync).slice host steps a w = .done (g', p) w') :
    Walk host (.running plan base isAsync) (.pause g' p) w' :=
  runOn_keeps (fun h hi hd => h.step (.dispatch hi hd)) (Walk.start a hbase) he

theorem Walk.slice (h : Walk host first (.pause g q) w) (hq : q.isFinal = false)
    (hg : (g.settle q).MayBecome g₁) (hbase : g₁.base = g.base) (hl : w.Later w₁)
    (hstatus : g₁.status ≠ .suspendedStart) (he : g₁.slice host steps a w₁ = .done (g', p) w') :
    Walk host first (.pause g' p) w' := by
  obtain ⟨t, w₂, hr, he⟩ := slice_resumes hstatus he
  exact runOn_keeps (fun h hi hd => h.step (.dispatch hi hd))
    (h.step (.resume hq (mayBecome_of_settle hq hg) hbase hl hr)) he

end Slices

/-- What a turn keeps to: the map of its plan, the colours, and the scopes standing in each other. -/
structure Turn.Kept (plan : Plan) (M : StackMap) (C : Colours) (t : Turn) (w : World) : Prop where
  good : t.Good plan M
  tidy : t.subject.Tidy plan C
  nest : w.scopes.Nest t.subject.base t.subject.scopes

theorem copyScope_apply (host : Host) (g : Instance) (next : Nat) (w : World) :
    g.dispatch host (.copyScope next) w =
      .done (.goOn ((g.replaceScope (w.scopes.copy g.scope).1).goto next))
        { w with scopes := (w.scopes.copy g.scope).2 } := rfl

theorem enterLoop_apply (host : Host) (g : Instance) (labels : List String) (kind : LoopKind)
    (onContinue : Option Nat) (onBreak next : Nat) (w : World) :
    g.dispatch host (.enterLoop labels kind onContinue onBreak next) w =
      .done (.goOn { g with
        loops := ⟨labels, kind, onContinue, onBreak, g.scopes.length, g.frames.length⟩ :: g.loops
        ip := next }) w := rfl

section Steps

variable {plan : Plan} {M : StackMap} {C : Colours} {host : Host} {g : Instance} {t t' : Turn}
  {w w' : World}

theorem Instance.MayBecome.tidy {g' : Instance} (h : g.MayBecome g') (hg : g.Tidy plan C) :
    g'.Tidy plan C :=
  ⟨h.plan_eq.trans hg.plan_eq, h.frames_eq ▸ hg.frames, h.loops_eq ▸ hg.loops⟩

theorem Instance.MayBecome.nest {g' : Instance} (h : g.MayBecome g') (hbase : g'.base = g.base)
    (hl : w.Later w') (hn : w.scopes.Nest g.base g.scopes) : w'.scopes.Nest g'.base g'.scopes := by
  rw [hbase, h.scopes_eq]
  exact hn.later hl.scopes

theorem Instance.Becomes.kept {x : Run Turn} (hb : g.Becomes plan C w x) (h : x w = .done t w')
    (hgood : t.Good plan M) : t.Kept plan M C w' := by
  obtain ⟨scopes, hnest, -, hk⟩ := hb t w' h
  have hbase : t.subject.base = g.base := hk.bears.around.base_eq
  exact ⟨hgood, ⟨hk.bears.plan_eq, hk.bears.frames, hk.bears.around.idle⟩,
    hbase ▸ hnest.suffix hk.bears.around.scopes⟩

theorem nest_copy {base a : ScopeId} {rest : List ScopeId} (h : w.scopes.Nest base (a :: rest)) :
    (w.scopes.copy a).2.Nest base ((w.scopes.copy a).1 :: rest) :=
  ⟨h.1.copy, h.2.later (.copy a)⟩

theorem scopes_of_stacked {c : Context} {n : Nat} {fs : List Frame} {ls : List LoopScope}
    {scopes : List ScopeId} (h : Stacked M (.scope :: c) n fs ls) (hn : scopes.length = n) :
    ∃ a rest, scopes = a :: rest := by
  obtain ⟨m, rfl, -⟩ := h.of_scope
  cases scopes with
  | nil => cases hn
  | cons a rest => exact ⟨a, rest, rfl⟩

/-- Where the bindings of a loop are copied the instance has their scope innermost, and goes on in the
copy. -/
theorem dispatch_copy (hM : M.Maps plan) (hC : C.Paint plan) (hg : g.At plan M (M g.ip)) {next : Nat}
    (hi : plan.get? g.ip = some (.copyScope next)) :
    ∃ a rest, g.scopes = a :: rest ∧ g.dispatch host (.copyScope next) w =
      .done (.goOn { g with scopes := (w.scopes.copy a).1 :: rest, ip := next })
        { w with scopes := (w.scopes.copy a).2 } := by
  obtain ⟨s, hs, hcopy, -⟩ := Turning.of_copyScope hM hC hi
  have hst := hg.stacked
  rw [← hcopy, hs.at_copy] at hst
  obtain ⟨loops, -, hst⟩ := hst.of_loop
  obtain ⟨a, rest, hscopes⟩ := scopes_of_stacked hst rfl
  refine ⟨a, rest, hscopes, ?_⟩
  rw [copyScope_apply]
  simp only [Instance.replaceScope, Instance.scope, hscopes, List.headD_cons, Instance.goto]

variable (hM : M.Maps plan) (hC : C.Paint plan) (hp : host.Proper) (hh : host.Grows)

include hM hC hp hh

theorem StepsTo.kept (h : StepsTo host t w t' w') (ht : t.Kept plan M C w) : t'.Kept plan M C w' := by
  cases h with
  | @dispatch g i _ _ _ hi hd =>
    have hat : g.At plan M (M g.ip) := ht.good
    have hget : plan.get? g.ip = some i := by rwa [Instance.instr?, hat.plan_eq] at hi
    have hgood : t'.Good plan M := dispatch_good host hM hat hp hget _ _ _ hd
    cases i with
    | copyScope next =>
      obtain ⟨a, rest, hscopes, hdispatch⟩ := dispatch_copy hM hC hat hget
      rw [hdispatch] at hd
      cases hd
      have hnest : w.scopes.Nest g.base g.scopes := ht.nest
      rw [hscopes] at hnest
      exact ⟨hgood, ht.tidy.same rfl, nest_copy hnest⟩
    | enterLoop labels kind onContinue onBreak next =>
      rw [enterLoop_apply] at hd
      cases hd
      obtain ⟨-, hbreak, hcontinue, -⟩ := hC.respects _ _ hget
      refine ⟨hgood, ⟨ht.tidy.plan_eq, ht.tidy.frames, ?_⟩, ht.nest⟩
      refine List.forall_mem_cons.2 ⟨fun a ha => idle_of_none ?_, ht.tidy.loops⟩
      simp only [LoopScope.positions, List.mem_cons, Option.mem_toList] at ha
      obtain rfl | ha := ha
      · exact hbreak
      · exact hcontinue a ha
    | _ => exact (dispatch_becomes hC hh ht.tidy ht.nest hi (by simp) (by simp)).kept hd hgood
  | @resume g g' p a _ _ w₁ _ hp' hg hbase hl hr =>
    have hrests : g'.Rests plan M := hg.rests (ht.good hp')
    have hgood : t'.Good plan M := resumed_good host hM hrests _ _ _ _ hr
    exact (resumed_becomes hC hh (hg.tidy ht.tidy) (hg.nest hbase hl ht.nest) a).kept hr hgood

/-- Every turn of every run keeps to all of it. -/
theorem Walk.kept {base : ScopeId} {isAsync : Bool}
    (h : Walk host (.running plan base isAsync) t w) : t.Kept plan M C w := by
  induction h with
  | start a hbase =>
    have hsubject : ((Instance.running plan base isAsync).started a).subject =
        .running plan base isAsync := by cases a <;> rfl
    refine ⟨(Reached.start a).good hM hp, ?_, ?_⟩
    · rw [hsubject]
      exact ⟨rfl, List.forall_mem_nil _, List.forall_mem_nil _⟩
    · rw [hsubject]
      exact hbase
  | step _ hs ih => exact hs.kept hM hC hp hh ih

end Steps

end Resumable
