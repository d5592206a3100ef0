import Resumable.Proofs.Eval.Completions
import Resumable.Proofs.Machine.Stacks

/-!
Instances keep to the stack map of their plan: every instruction, and every resumption, takes the
stacks from what the map says to what it says where the instance goes on. Main statements:
`dispatch_good`, `resumed_good`.
-/

set_option autoImplicit false

namespace Resumable

open RunOn (Gives)

def Pause.isFinal : Pause → Bool
  | .delegate _ _ | .stop (.yielded _) | .stop (.awaiting _) => false
  | .stop (.returned _) | .stop (.threw _) | .stop (.failed _) => true

/-- Whether a paused instance has on its stacks what the map says. While it awaits a result of an
iterator it stands at the instruction that asked for it. -/
structure Instance.Rests (plan : Plan) (M : StackMap) (g : Instance) : Prop where
  plan_eq : g.plan = plan
  stacked : Stacked M (M g.ip) g.scopes.length g.frames g.loops
  result : g.awaiting = some .result →
    ∃ kind pattern body exit isAsync,
      plan.get? g.ip = some (.moveNext kind pattern body exit isAsync)

/-- Whether an instance that goes on, or may go on later, keeps to the map. -/
def Turn.Good (plan : Plan) (M : StackMap) : Turn → Prop
  | .goOn g => g.At plan M (M g.ip)
  | .pause g p => p.isFinal = false → g.Rests plan M

section Steps

open Instance (outermost)

variable {plan : Plan} {M : StackMap} {c : Context} {g : Instance} (host : Host)

theorem landing_eq_some {signal : Signal} {depth : Nat} {j : Jump}
    (h : signal.landing? depth = some j) : signal = .jump j ∧ depth ≤ j.frames := by
  cases signal with
  | jump k =>
    simp only [Signal.landing?, Signal.jump?, Option.filter_some, decide_eq_true_eq] at h
    split at h
    · cases h
      exact ⟨rfl, ‹_›⟩
    · cases h
  | ret | throw => cases h

theorem land_good {frames : List Frame} {j : Jump} (hg : g.Above plan M c frames)
    (hj : j.LeadsBelow M c) (hlen : frames.length = j.frames) :
    (Turn.goOn (g.land j frames)).Good plan M := by
  obtain ⟨hd, hscopes, hframes, hloops⟩ := hj
  have h := hg.cut hd j.target
  rw [← hscopes, ← hloops, ← hframes, ← hlen, outermost_self] at h
  exact h

theorem receive_cases (kind : FrameKind) (signal : Signal) :
    (∃ target onExit v, kind = .region (some target) onExit .body ∧
      kind.receive signal = .handle target v) ∨
    (∃ onThrow target phase, kind = .region onThrow (some target) phase ∧
      phase.stage ≠ .finalizer ∧ kind.receive signal = .finalize target) ∨
    (∃ onThrow onExit phase, kind = .region onThrow onExit phase ∧ kind.receive signal = .pass) ∨
    ∃ record, kind = .iterator record ∧ kind.receive signal = .close record.iterator := by
  unfold FrameKind.receive
  split
  · exact .inl ⟨_, _, _, rfl, rfl⟩
  · exact .inr (.inl ⟨_, _, _, rfl, nofun, rfl⟩)
  · exact .inr (.inl ⟨_, _, _, rfl, nofun, rfl⟩)
  · exact .inr (.inr (.inl ⟨_, _, _, rfl, rfl⟩))
  · exact .inr (.inr (.inr ⟨_, rfl, rfl⟩))

/-- A signal that goes past a frame leads to a context outside of it. -/
theorem leadsBelow_outside {signal : Signal} {s : Site} {d : Context}
    (hsig : signal.LeadsBelow M c) (hd : s :: d <:+ c) (hs : Context.frames (s :: d) = d.frames + 1)
    (hle : ∀ j, signal = .jump j → j.frames ≤ d.frames) : signal.LeadsBelow M d := by
  cases signal with
  | ret | throw => trivial
  | jump j =>
    have hle := hle j rfl
    obtain ⟨hj, hscopes, hframes, hloops⟩ := hsig
    have h := suffix_of_frames_lt hj hd (by omega)
    obtain h | h := List.suffix_cons_iff.1 h
    · rw [h] at hframes
      omega
    · exact ⟨h, hscopes, hframes, hloops⟩

theorem enter_at {f : Frame} {outer : List Frame} {d : Context} {o target : Nat}
    {onThrow onExit : Option Nat} (phase : Phase) (hg : g.Above plan M c (f :: outer))
    (hd : d <:+ c) (hscopes : f.scopes = d.scopes) (hloops : f.loops = d.loops)
    (hframes : outer.length = d.frames) (hkind : f.kind.enter phase = .region onThrow onExit phase)
    (hp : phase.LeadsBelow M d) (hM : M target = .region o onThrow onExit phase.stage :: d) :
    (g.enter f outer phase target).At plan M (M target) := by
  have h := hg.cut hd target
  rw [← hframes, outermost_cons (Nat.le_refl _), outermost_self] at h
  have hs := @Stacked.region M d _ _ _ o onThrow onExit phase h.stacked hp
  have hlen := h.stacked.counts
  rw [hM]
  refine ⟨hg.plan_eq, hg.awaiting_eq, ?_⟩
  simp only [Instance.enter, hkind, hscopes, hloops]
  simp only [Instance.cut] at hs hlen ⊢
  rw [hlen.1, hlen.2.2] at hs
  rwa [hlen.1]

theorem unwindThrough_good {frames : List Frame} {signal : Signal}
    (hg : g.Above plan M c frames) (hs : c.Sound plan M) (hsig : signal.LeadsBelow M c)
    (hle : ∀ j, signal = .jump j → j.frames ≤ frames.length) :
    Gives (Turn.Good plan M) (g.unwindThrough host signal frames) := by
  induction frames generalizing g c signal with
  | nil =>
    cases signal with
    | ret | throw => exact .pure (by rintro ⟨⟩)
    | jump j =>
      have hle := hle j rfl
      exact .pure (land_good hg hsig (by simp at hle ⊢; omega))
  | cons f outer ih =>
    unfold Instance.unwindThrough
    cases hland : signal.landing? (outer.length + 1) with
    | some j =>
      obtain ⟨rfl, hdepth⟩ := landing_eq_some hland
      have hle := hle j rfl
      exact .pure (land_good hg hsig (by simp at hle ⊢; omega))
    | none =>
      dsimp only
      obtain ⟨s, d, hd, hscopes, hloops, hframes, hsite⟩ := hg.stacked.frame rfl
      have hd' : d <:+ c := (List.suffix_cons s d).trans hd
      have hsound := hs.suffix hd
      have hle' : ∀ j, signal = .jump j → j.frames ≤ outer.length := by
        rintro j rfl
        have hlt : j.frames < outer.length + 1 := by
          simpa [Signal.landing?, Signal.jump?, Option.filter_some] using hland
        omega
      have hsf : Context.frames (s :: d) = d.frames + 1 := by
        obtain ⟨o, t, e, p, rfl, -⟩ | ⟨o, r, rfl, -⟩ := hsite <;> rfl
      have hsig' : signal.LeadsBelow M d := leadsBelow_outside hsig hd hsf (by rwa [← hframes])
      have hout : outermost d.frames (f :: outer) = outer := by
        rw [← hframes, outermost_cons (Nat.le_refl _), outermost_self]
      have houtside : g.Above plan M d outer := by
        have h := hg.suffix hd'
        rwa [hout] at h
      obtain ⟨t, e, v, hk, hr⟩ | ⟨t, e, p, hk, hp, hr⟩ | ⟨t, e, p, hk, hr⟩ | ⟨r, hk, hr⟩ :=
        receive_cases f.kind signal
      · obtain ⟨o, t', e', p', rfl, hk', -⟩ | ⟨o, r, rfl, hk'⟩ := hsite
        · cases hk.symm.trans hk'
          have h := enter_at .handler hg hd' hscopes hloops hframes (by rw [hk]; rfl)
            trivial (hsound.1.2.2.1 rfl t rfl)
          rw [hr]
          exact .pure ⟨h.plan_eq, h.awaiting_eq, h.stacked⟩
        · cases hk.symm.trans hk'
      · obtain ⟨o, t', e', p', rfl, hk', -⟩ | ⟨o, r, rfl, hk'⟩ := hsite
        · cases hk.symm.trans hk'
          have h := enter_at (.finalizer (some signal)) hg hd' hscopes hloops hframes
            (by rw [hk]; rfl) hsig' (hsound.1.2.2.2 hp e rfl)
          rw [hr]
          exact .pure h
        · cases hk.symm.trans hk'
      · rw [hr]
        exact ih houtside hsound.2 hsig' hle'
      · rw [hr]
        have hcut : Instance.Above plan M d outer
            { g.cut f.scopes f.loops with frames := outer } := by
          have h := hg.cut hd' g.ip
          rw [hout, ← hscopes, ← hloops] at h
          exact h.above
        refine .bind fun r => ?_
        cases r with
        | ok => exact ih hcut hsound.2 hsig' hle'
        | error c =>
          cases c with
          | throw v => exact ih hcut hsound.2 trivial (by rintro _ ⟨⟩)
          | fatal e => exact .pure (by rintro ⟨⟩)
          | ret | brk | cont => exact ih hcut hsound.2 hsig' hle'

theorem unwind_good {signal : Signal} (hg : g.Above plan M c g.frames) (hs : c.Sound plan M)
    (hsig : signal.LeadsBelow M c) : Gives (Turn.Good plan M) (g.unwind host signal) := by
  refine unwindThrough_good host hg hs hsig ?_
  rintro j rfl
  have hle := (Context.counts_le hsig.1).2.1
  have hlen := hg.stacked.counts.2.1
  have := hsig.2.2.1
  omega

theorem jump_good (hg : g.At plan M c) (hs : c.Sound plan M) (label : Option String)
    (isContinue : Bool) : Gives (Turn.Good plan M) (g.jump host label isContinue) := by
  unfold Instance.jump
  cases hj : jumpAmong label isContinue g.loops with
  | some j => exact unwind_good host hg.above hs (hg.stacked.jumpAmong_leadsBelow hs hj)
  | none => exact .bind fun e => unwind_good host hg.above hs trivial

theorem complete_good (hg : g.At plan M c) (hs : c.Sound plan M) (a : Abrupt) :
    Gives (Turn.Good plan M) (g.complete host a) := by
  cases a with
  | ret | throw => exact unwind_good host hg.above hs trivial
  | brk | cont => exact jump_good host hg hs _ _
  | fatal => exact .pure nofun

theorem after_good {α : Type} (hg : g.At plan M c) (hs : c.Sound plan M) (x : Run α)
    {next : α → Run Turn} (hn : ∀ a, Gives (Turn.Good plan M) (next a)) :
    Gives (Turn.Good plan M) (g.after host x next) := by
  refine .bind fun r => ?_
  cases r with
  | ok a => exact hn a
  | error a => exact complete_good host hg hs a

theorem goOn_good (hg : g.At plan M c) (hn : M g.ip = c) : (Turn.goOn g).Good plan M := by
  rwa [← hn] at hg

theorem goto_good (hg : g.At plan M c) {next : Nat} (hn : M next = c) :
    (Turn.goOn (g.goto next)).Good plan M :=
  goOn_good ⟨hg.plan_eq, hg.awaiting_eq, hg.stacked⟩ hn

theorem store_good (hg : g.At plan M c) (hs : c.Sound plan M) (slot : Option String) {next : Nat}
    (hn : M next = c) (v : Value) : Gives (Turn.Good plan M) (g.store host slot next v) := by
  cases slot with
  | none => exact .pure (goto_good hg hn)
  | some name => exact after_good host hg hs _ fun _ => .pure (goto_good hg hn)

theorem storeResume_good (hM : M.Maps plan) (hg : g.At plan M (M g.ip)) (v : Value) :
    Gives (Turn.Good plan M) (g.storeResume host v) := by
  have hget : ∀ i, g.instr? = some i → plan.get? g.ip = some i := fun i hi => by
    rwa [Instance.instr?, hg.plan_eq] at hi
  unfold Instance.storeResume
  split
  · rename_i slot next hi
    exact store_good host hg (hM.sound _) slot (hM.fits _ _ (hget _ hi)) v
  -- at the three instructions that suspend it is the next one that stores
  iterate 3
    · rename_i next hi
      have hn : M next = M g.ip := hM.fits _ _ (hget _ hi)
      split
      · rename_i slot past hstore
        rw [hg.plan_eq] at hstore
        have hat : (g.goto next).At plan M (M next) :=
          ⟨hg.plan_eq, hg.awaiting_eq, by rw [hn]; exact hg.stacked⟩
        exact store_good host hat (hM.sound next) slot (hM.fits _ _ hstore) v
      · exact .exhausted
  · exact .exhausted

theorem Instance.At.replaceScope (hg : g.At plan M c) (scope : ScopeId) :
    (g.replaceScope scope).At plan M c := by
  obtain ⟨hplan, hawaiting, hstacked⟩ := hg
  cases hscopes : g.scopes with
  | nil =>
    simp only [Instance.replaceScope, hscopes] at hstacked ⊢
    exact ⟨hplan, hawaiting, hstacked⟩
  | cons s rest =>
    simp only [Instance.replaceScope, hscopes] at hstacked ⊢
    exact ⟨hplan, hawaiting, hstacked⟩

theorem Instance.At.rests (hg : g.At plan M (M g.ip)) : g.Rests plan M :=
  ⟨hg.plan_eq, hg.stacked, by simp [hg.awaiting_eq]⟩

section Delegation

variable (hM : M.Maps plan) (hg : g.At plan M (M g.ip))

include hM hg

theorem delegateDone_good (v : Value) : Gives (Turn.Good plan M) (g.delegateDone host v) := by
  have hat : g.endDelegation.At plan M (M g.ip) := ⟨hg.plan_eq, hg.awaiting_eq, hg.stacked⟩
  unfold Instance.delegateDone
  split
  · exact unwind_good host hat.above (hM.sound _) trivial
  · exact storeResume_good host hM hat v

theorem delegateResult_good (result : Value) :
    Gives (Turn.Good plan M) (g.delegateResult host result) := by
  refine .bind fun h => ?_
  split
  · exact .pure fun _ => ⟨hg.plan_eq, hg.stacked, nofun⟩
  · cases malformed? h result with
    | some e => exact .pure nofun
    | none =>
      dsimp only
      split
      · exact delegateDone_good host hM hg _
      · exact .pure fun _ => hg.rests

theorem delegateMissing_good (iterator : Value) (m : Method) (v : Value) :
    Gives (Turn.Good plan M) (g.delegateMissing host iterator m v) := by
  have hs := hM.sound g.ip
  cases m with
  | next | ret => exact unwind_good host hg.above hs trivial
  | throw => exact after_good host hg hs _ fun _ => .bind fun _ =>
      unwind_good host hg.above hs trivial

theorem passOn_good (m : Method) (v : Value) : Gives (Turn.Good plan M) (g.passOn host m v) := by
  unfold Instance.passOn
  cases g.delegation with
  | none => exact storeResume_good host hM hg v
  | some d =>
    have hat (d : Option Delegation) : ({ g with delegation := d } : Instance).At plan M (M g.ip) :=
      ⟨hg.plan_eq, hg.awaiting_eq, hg.stacked⟩
    dsimp only
    cases d.native with
    | some inner => exact .pure fun _ => ⟨hg.plan_eq, hg.stacked, by simp [hg.awaiting_eq]⟩
    | none =>
      refine .bind fun r => ?_
      rcases r with c | _ | result
      · exact complete_good host (hat none) (hM.sound g.ip) c
      · exact delegateMissing_good host hM (hat none) _ m v
      · refine delegateResult_good host hM ?_ result
        exact hat _

theorem startDelegation_good (iterable : Value) :
    Gives (Turn.Good plan M) (g.startDelegation host iterable) := by
  refine .bind fun h => after_good host hg (hM.sound _) _ fun record => .bind fun h => ?_
  refine passOn_good host hM ?_ _ _
  exact ⟨hg.plan_eq, hg.awaiting_eq, hg.stacked⟩

end Delegation

section Iterators

variable {kind : Option VarKind} {pattern : Pattern} {body exit : Nat} {isAsync : Bool}
  (hM : M.Maps plan) (hg : g.At plan M (M g.ip))

include hM hg

theorem Instance.At.fits {i : Instr} (hi : g.instr? = some i) : i.Fits M g.ip := by
  rw [Instance.instr?, hg.plan_eq] at hi
  exact hM.fits _ _ hi

theorem bindElement_good (v : Value) : Gives (Turn.Good plan M) (g.bindElement host v) := by
  unfold Instance.bindElement
  split
  · rename_i hi
    obtain ⟨hbody, -⟩ := hg.fits hM hi
    refine .bind fun scope => ?_
    have hat : (g.pushScope scope).At plan M (.scope :: M g.ip) :=
      ⟨hg.plan_eq, hg.awaiting_eq, hg.stacked.scope⟩
    exact after_good host hat ⟨trivial, hM.sound _⟩ _ fun _ => .pure (goto_good hat hbody)
  · exact .pure hg

theorem iteratorResult_good (result : Value) :
    Gives (Turn.Good plan M) (g.iteratorResult host result) := by
  refine .bind fun h => ?_
  cases malformed? h result with
  | some e => exact .pure nofun
  | none =>
    dsimp only
    split
    · split
      · rename_i hi
        obtain ⟨-, hexit, -⟩ := hg.fits hM hi
        exact .pure (goto_good hg hexit)
      · exact .pure hg
    · split
      · exact .pure fun _ => ⟨hg.plan_eq, hg.stacked, nofun⟩
      · exact bindElement_good host hM hg _

variable (hi : plan.get? g.ip = some (.moveNext kind pattern body exit isAsync))

include hi

theorem moveNext_frames :
    ∃ (record : IteratorRecord) (m n : Nat) (outer : List Frame) (c : Context), g.frames =
      ⟨.iterator record, m, n⟩ :: outer ∧ c <:+ M g.ip ∧ outer.length = c.frames := by
  obtain ⟨-, -, o, labels, kind', onContinue, onBreak, p, c, hip⟩ := hM.fits _ _ hi
  have hst := hg.stacked
  rw [hip] at hst ⊢
  obtain ⟨ls, -, hst⟩ := hst.of_loop
  obtain ⟨record, outer, hframes, hst⟩ := hst.of_iterator
  exact ⟨record, _, _, outer, c, hframes, ⟨[_, _], rfl⟩, hst.counts.2.1⟩

theorem iteratorThrew_good (v : Value) :
    Gives (Turn.Good plan M) (g.popFrame.unwind host (.throw v)) := by
  obtain ⟨record, m, n, outer, c, hframes, hc, hlen⟩ := moveNext_frames hM hg hi
  have h := hg.above.suffix hc
  rw [hframes, ← hlen, outermost_cons (Nat.le_refl _), outermost_self] at h
  have hpop : g.popFrame.frames = outer := by simp [Instance.popFrame, hframes]
  rw [← hpop] at h
  exact unwind_good host ⟨h.plan_eq, h.awaiting_eq, h.scopes_le, h.loops_le, h.stacked⟩
    ((hM.sound g.ip).suffix hc) trivial

theorem moveNext_good (hh : host.Proper) :
    Gives (Turn.Good plan M) (g.moveNext host isAsync) := by
  unfold Instance.moveNext
  cases g.iterator? with
  | none => exact .bind fun e => unwind_good host hg.above (hM.sound _) trivial
  | some record =>
    have hcall : (record.callNext host []).OnlyThrows := (callNext_related hh.related record []).2
    refine .attempt_bind hcall (fun result => ?_) fun a ha => ?_
    · dsimp only
      split
      · exact .pure fun _ => ⟨hg.plan_eq, hg.stacked, fun _ => ⟨_, _, _, _, _, hi⟩⟩
      · exact iteratorResult_good host hM hg result
    · cases a with
      | throw v => exact iteratorThrew_good host hM hg hi v
      | fatal e => exact .pure nofun
      | ret | brk | cont => cases ha

end Iterators

section Dispatch

variable {next : Nat} (hM : M.Maps plan) (hg : g.At plan M (M g.ip))

include hM hg

theorem exitTry_good {close : Bool} (hi : plan.get? g.ip = some (.exitTry next close)) :
    Gives (Turn.Good plan M) (g.exitTry host next close) := by
  obtain ⟨s, o, hip, hs, -⟩ := hM.fits _ _ hi
  have hst := hg.stacked
  have hsound := hM.sound g.ip
  rw [hip] at hst hsound
  cases s with
  | scope | loop => cases hs
  | region o' onThrow onExit stage =>
    obtain ⟨phase, rest, hfs, rfl, -, hrest⟩ := hst.of_region
    have hpast : Gives (Turn.Good plan M) (return .goOn { g with frames := rest, ip := next }) :=
      .pure ⟨hg.plan_eq, hg.awaiting_eq, hrest⟩
    simp only [Instance.exitTry, hfs]
    match onExit, phase with
    | none, .body | none, .handler | none, .finalizer _ | some _, .finalizer _ => exact hpast
    | some target, .body | some target, .handler =>
      have hM' := hsound.1.2.2.2 nofun target rfl
      have hregion := @Stacked.region M _ _ _ _ o' onThrow (some target) (.finalizer none) hrest
        trivial
      exact .pure (goOn_good ⟨hg.plan_eq, hg.awaiting_eq, hregion⟩ hM')
  | iterator o' =>
    obtain ⟨record, rest, hfs, hst⟩ := hst.of_iterator
    have hpast : ({ g with frames := rest, ip := next } : Instance).At plan M (M next) :=
      ⟨hg.plan_eq, hg.awaiting_eq, hst⟩
    simp only [Instance.exitTry, hfs]
    split
    · exact after_good host hpast (hM.sound next) _ fun _ => .pure hpast
    · exact .pure hpast

theorem endFinally_good (hi : plan.get? g.ip = some (.endFinally next)) :
    Gives (Turn.Good plan M) (g.endFinally host next) := by
  obtain ⟨o, onThrow, onExit, hip, -⟩ := hM.fits _ _ hi
  have hst := hg.stacked
  rw [hip] at hst
  obtain ⟨phase, rest, hfs, hstage, hp, hst⟩ := hst.of_region
  have hpast : g.popFrame.At plan M (M next) := by
    refine ⟨hg.plan_eq, hg.awaiting_eq, ?_⟩
    simpa [Instance.popFrame, hfs] using hst
  match phase with
  | .body | .handler => cases hstage
  | .finalizer pending =>
    simp only [Instance.endFinally, hfs, List.head?_cons, Option.bind_some, Frame.pending?]
    cases pending with
    | none => exact .pure (goto_good hpast rfl)
    | some signal => exact unwind_good host hpast.above (hM.sound next) hp

theorem bindCatch_good {param : Option Pattern}
    (hi : plan.get? g.ip = some (.bindCatch param next)) :
    Gives (Turn.Good plan M) (g.bindCatch host param next) := by
  have hn : M next = .scope :: M g.ip := hM.fits _ _ hi
  refine .bind fun scope => ?_
  have hat : ({ g.pushScope scope with caught := none } : Instance).At plan M (.scope :: M g.ip) :=
    ⟨hg.plan_eq, hg.awaiting_eq, hg.stacked.scope⟩
  cases param with
  | none => exact .pure (goto_good hat hn)
  | some p => exact after_good host hat ⟨trivial, hM.sound _⟩ _ fun _ => .pure (goto_good hat hn)

theorem enterScope_good {functions : List FunctionDecl}
    (hi : plan.get? g.ip = some (.pushScope functions next)) :
    Gives (Turn.Good plan M) (g.enterScope host functions next) := by
  have hn : M next = .scope :: M g.ip := hM.fits _ _ hi
  refine .bind fun scope => ?_
  have hat : (g.pushScope scope).At plan M (.scope :: M g.ip) :=
    ⟨hg.plan_eq, hg.awaiting_eq, hg.stacked.scope⟩
  exact after_good host hat ⟨trivial, hM.sound _⟩ _ fun _ => .pure (goto_good hat hn)

/-- One instruction takes the stacks from what the map says here to what it says where the instance
goes on. -/
theorem dispatch_good (hh : host.Proper) {i : Instr} (hi : plan.get? g.ip = some i) :
    Gives (Turn.Good plan M) (g.dispatch host i) := by
  have hs := hM.sound g.ip
  have hf := hM.fits _ _ hi
  cases i with
  | evaluate => exact after_good host hg hs _ fun _ => .pure (goto_good hg hf)
  | yield => exact after_good host hg hs _ fun _ => .pure fun _ => (goto_good hg hf).rests
  | await operand next =>
    have hn : M next = M g.ip := hf
    exact after_good host hg hs _ fun _ => .pure fun _ =>
      ⟨hg.plan_eq, by simpa [Instance.goto, hn] using hg.stacked, nofun⟩
  | yieldStar => exact after_good host hg hs _ fun _ => startDelegation_good host hM hg _
  | store => exact storeResume_good host hM hg _
  | jump => exact .pure (goto_good hg hf)
  | branch =>
    refine after_good host hg hs _ fun v => .pure ?_
    split
    · exact goto_good hg hf.1
    · exact goto_good hg hf.2
  | enterTry onThrow onExit =>
    have hregion := @Stacked.region M _ _ _ _ g.ip onThrow onExit .body hg.stacked trivial
    exact .pure (goOn_good ⟨hg.plan_eq, hg.awaiting_eq, hregion⟩ hf)
  | exitTry => exact exitTry_good host hM hg hi
  | bindCatch => exact bindCatch_good host hM hg hi
  | endFinally => exact endFinally_good host hM hg hi
  | pushScope => exact enterScope_good host hM hg hi
  | popScope next =>
    have hst := hg.stacked
    have hip : M g.ip = .scope :: M next := hf
    rw [hip] at hst
    obtain ⟨m, hm, hst⟩ := hst.of_scope
    refine .pure ⟨hg.plan_eq, hg.awaiting_eq, ?_⟩
    simpa [Instance.goto, Instance.popScope, hm] using hst
  | copyScope => exact .bind fun scope => .pure (goto_good (hg.replaceScope scope) hf)
  | enterLoop =>
    exact .pure (goOn_good ⟨hg.plan_eq, hg.awaiting_eq, hg.stacked.loop⟩ hf)
  | exitLoop next =>
    obtain ⟨o, labels, kind, onContinue, onBreak, hip⟩ := hf
    have hst := hg.stacked
    rw [hip] at hst
    obtain ⟨rest, hls, hst⟩ := hst.of_loop
    refine .pure ⟨hg.plan_eq, hg.awaiting_eq, ?_⟩
    simpa [hls] using hst
  | brk | cont => exact jump_good host hg hs _ _
  | openIterator =>
    exact after_good host hg hs _ fun record =>
      .pure (goOn_good ⟨hg.plan_eq, hg.awaiting_eq, hg.stacked.iterator⟩ hf)
  | moveNext => exact moveNext_good host hM hg hi hh
  | ret | throw => exact after_good host hg hs _ fun _ => unwind_good host hg.above hs trivial

end Dispatch

section Resumption

variable (hM : M.Maps plan)

include hM

theorem settled_good (hg : g.At plan M (M g.ip)) {awaiting : Option AwaitKind}
    (hresult : awaiting = some .result → ∃ kind pattern body exit isAsync,
      plan.get? g.ip = some (.moveNext kind pattern body exit isAsync)) (s : Settlement) :
    Gives (Turn.Good plan M) (g.settled host awaiting s) := by
  have hs := hM.sound g.ip
  cases s with
  | fulfilled v =>
    match awaiting with
    | some .delegate => exact delegateResult_good host hM hg v
    | some .result => exact iteratorResult_good host hM hg v
    | some .element => exact bindElement_good host hM hg v
    | some .value | none => exact storeResume_good host hM hg v
  | rejected v =>
    match awaiting with
    | some .delegate => exact passOn_good host hM hg _ v
    | some .result =>
      obtain ⟨_, _, _, _, _, hi⟩ := hresult rfl
      exact iteratorThrew_good host hM hg hi v
    | some .element | some .value | none => exact unwind_good host hg.above hs trivial

/-- Whatever an instance at rest is resumed with, it keeps to the map. -/
theorem resumed_good (hg : g.Rests plan M) (a : Action) :
    Gives (Turn.Good plan M) (g.resumed host a) := by
  have hs := hM.sound g.ip
  have hat : ({ g with awaiting := none } : Instance).At plan M (M g.ip) :=
    ⟨hg.plan_eq, rfl, hg.stacked⟩
  have hdone : ({ g with awaiting := none } : Instance).endDelegation.At plan M (M g.ip) :=
    ⟨hg.plan_eq, rfl, hg.stacked⟩
  cases a with
  | settled s =>
    exact settled_good (g := { g with awaiting := none }) host hM hat hg.result s
  | delegateDone v => exact delegateDone_good host hM hat v
  | delegateThrew v => exact unwind_good host hdone.above hs trivial
  | next v => exact passOn_good host hM hat .next v
  | throw v | ret v =>
    unfold Instance.resumed
    dsimp only
    split
    · exact passOn_good host hM hat _ v
    · exact unwind_good host hat.above hs trivial

end Resumption

end Steps

end Resumable
