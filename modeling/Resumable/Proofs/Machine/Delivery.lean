import Resumable.Proofs.Machine.Runs

/-!
What becomes of a signal on its way out. `Delivered` says it without the machine: the signal goes past
frames that have nothing left to do for it, gives way only to an exception from closing an iterator,
and is taken by the first frame that wants it, by its target, or by the end of the instance. Main
statements: `unwind_delivered`, `Next.moved`, which says what one step does to the frames.
-/

set_option autoImplicit false

namespace Resumable

open RunOn (Gives)

namespace Turn

def subject : Turn → Instance
  | .goOn g | .pause g _ => g

def frames (t : Turn) : List Frame := t.subject.frames

@[simp] theorem frames_goOn (g : Instance) : (Turn.goOn g).frames = g.frames := rfl

def hasEnded : Turn → Bool
  | .pause _ (.stop (.returned _)) | .pause _ (.stop (.threw _)) => true
  | .goOn _ | .pause _ _ => false

def hasFailed : Turn → Bool
  | .pause _ (.stop (.failed _)) => true
  | .goOn _ | .pause _ _ => false

end Turn

namespace FrameKind

def isFinalizing : FrameKind → Bool
  | .region _ _ (.finalizer _) => true
  | .region _ _ .body | .region _ _ .handler | .iterator _ => false

/-- Whether no finally block of the frame is still to come. -/
def isSpent : FrameKind → Bool
  | .region _ (some _) .body | .region _ (some _) .handler => false
  | .region _ none _ | .region _ _ (.finalizer _) | .iterator _ => true

def catches : FrameKind → Signal → Bool
  | .region (some _) _ .body, .throw _ => true
  | _, _ => false

end FrameKind

/-- Whether a jump has its target outside of so many frames; other signals go all the way. -/
def Signal.goesPast (s : Signal) (depth : Nat) : Bool := s.jump?.all (·.frames < depth)

/-- How a signal goes out through frames, and what is left of both. -/
inductive Travels (host : Host) : Signal → List Frame → Signal → List Frame → Prop where
  | here (s : Signal) (fs : List Frame) : Travels host s fs s fs
  /-- Past a region without a finally block, or out of the finally block itself. -/
  | past {s s' : Signal} {f : Frame} {outer fs : List Frame} {onThrow onExit : Option Nat}
    {phase : Phase} : s.goesPast (outer.length + 1) = true → f.kind = .region onThrow onExit phase →
    f.kind.isSpent = true → f.kind.catches s = false → Travels host s outer s' fs →
    Travels host s (f :: outer) s' fs
  | closed {s s' : Signal} {f : Frame} {outer fs : List Frame} {record : IteratorRecord}
    {w w' : World} {r : Except Abrupt Unit} : s.goesPast (outer.length + 1) = true →
    f.kind = .iterator record →
    (closeIterator host record.iterator s.isThrow).attempt w = .done r w' →
    (∀ v, r ≠ .error (.throw v)) → (∀ e, r ≠ .error (.fatal e)) → Travels host s outer s' fs →
    Travels host s (f :: outer) s' fs
  /-- Past an iterator that throws when it is closed: the exception goes on instead. -/
  | replaced {s s' : Signal} {f : Frame} {outer fs : List Frame} {record : IteratorRecord}
    {w w' : World} {v : Value} : s.goesPast (outer.length + 1) = true → f.kind = .iterator record →
    closeIterator host record.iterator s.isThrow w = .abrupt (.throw v) w' →
    Travels host (.throw v) outer s' fs → Travels host s (f :: outer) s' fs

/-- Where a signal ends that has come as far as to these frames. -/
inductive Arrives : Signal → List Frame → Turn → Prop where
  | landed {fs : List Frame} {j : Jump} {g : Instance} : fs.length ≤ j.frames → g.frames = fs →
    g.ip = j.target → Arrives (.jump j) fs (.goOn g)
  | caught {f : Frame} {outer : List Frame} {target : Nat} {onExit : Option Nat} {v : Value}
    {g : Instance} : f.kind = .region (some target) onExit .body →
    g.frames = { f with kind := .region (some target) onExit .handler } :: outer →
    g.ip = target → g.caught = some v → Arrives (.throw v) (f :: outer) (.goOn g)
  | finalized {s : Signal} {f : Frame} {outer : List Frame} {onThrow : Option Nat} {target : Nat}
    {phase : Phase} {g : Instance} : s.goesPast (outer.length + 1) = true →
    f.kind = .region onThrow (some target) phase → phase.stage ≠ .finalizer →
    f.kind.catches s = false →
    g.frames = { f with kind := .region onThrow (some target) (.finalizer (some s)) } :: outer →
    g.ip = target → Arrives s (f :: outer) (.goOn g)
  | returned {v : Value} {g : Instance} : g.frames = [] →
    Arrives (.ret v) [] (.stop g (.returned v))
  | threw {v : Value} {g : Instance} : g.frames = [] → Arrives (.throw v) [] (.stop g (.threw v))

/-- Whether a turn is what becomes of a signal that goes out through frames. Closing an iterator can
fail for good. -/
inductive Delivered (host : Host) (s : Signal) (fs : List Frame) : Turn → Prop where
  | arrived {s' : Signal} {fs' : List Frame} {t : Turn} : Travels host s fs s' fs' →
    Arrives s' fs' t → Delivered host s fs t
  | failed {s' : Signal} {f : Frame} {outer : List Frame} {record : IteratorRecord} {g : Instance}
    {e : Fatal} {w w' : World} : Travels host s fs s' (f :: outer) → f.kind = .iterator record →
    closeIterator host record.iterator s'.isThrow w = .abrupt (.fatal e) w' →
    Delivered host s fs (.stop g (.failed e))

namespace Travels

variable {host : Host} {s s' s'' : Signal} {fs fs' fs'' : List Frame}

theorem trans (h : Travels host s fs s' fs') (h' : Travels host s' fs' s'' fs'') :
    Travels host s fs s'' fs'' := by
  induction h with
  | here => exact h'
  | past hpast hkind hspent hcatch _ ih => exact .past hpast hkind hspent hcatch (ih h')
  | closed hpast hkind hclose hthrow hfatal _ ih =>
    exact .closed hpast hkind hclose hthrow hfatal (ih h')
  | replaced hpast hkind hclose _ ih => exact .replaced hpast hkind hclose (ih h')

theorem spent (h : Travels host s fs s' fs') :
    ∃ left, fs = left ++ fs' ∧ ∀ f ∈ left, f.kind.isSpent = true := by
  induction h with
  | here => exact ⟨[], rfl, List.forall_mem_nil _⟩
  | @past _ _ f _ _ _ _ _ _ _ hspent _ _ ih =>
    obtain ⟨left, rfl, hleft⟩ := ih
    exact ⟨f :: left, rfl, by simpa [hspent] using hleft⟩
  | @closed _ _ f _ _ _ _ _ _ _ hkind _ _ _ _ ih | @replaced _ _ f _ _ _ _ _ _ _ hkind _ _ ih =>
    obtain ⟨left, rfl, hleft⟩ := ih
    exact ⟨f :: left, rfl, by simpa [hkind, FrameKind.isSpent] using hleft⟩

/-- A frame in its finally block is left by whatever reaches it, and nothing else goes on outside. -/
theorem through {f : Frame} {outer : List Frame} (h : Travels host s fs s' fs')
    (hf : f :: outer <:+ fs) (hout : fs' <:+ outer) (hkind : f.kind.isFinalizing = true) :
    ∃ s₁, Travels host s fs s₁ (f :: outer) ∧ Travels host s₁ outer s' fs' := by
  induction h with
  | here s fs =>
    have h₁ := hf.length_le
    have h₂ := hout.length_le
    simp only [List.length_cons] at h₁
    omega
  | @past s s' f' outer' fs' onThrow onExit phase hpast hk hspent hcatch h ih =>
    obtain heq | hf := List.suffix_cons_iff.1 hf
    · cases heq
      exact ⟨s, .here _ _, h⟩
    · obtain ⟨s₁, hin, hgo⟩ := ih hf hout
      exact ⟨s₁, .past hpast hk hspent hcatch hin, hgo⟩
  | closed hpast hk hclose hthrow hfatal h ih =>
    obtain heq | hf := List.suffix_cons_iff.1 hf
    · cases heq
      rw [hk] at hkind
      cases hkind
    · obtain ⟨s₁, hin, hgo⟩ := ih hf hout
      exact ⟨s₁, .closed hpast hk hclose hthrow hfatal hin, hgo⟩
  | replaced hpast hk hclose h ih =>
    obtain heq | hf := List.suffix_cons_iff.1 hf
    · cases heq
      rw [hk] at hkind
      cases hkind
    · obtain ⟨s₁, hin, hgo⟩ := ih hf hout
      exact ⟨s₁, .replaced hpast hk hclose hin, hgo⟩

end Travels

section Unwinding

variable {host : Host} {g : Instance}

theorem goesPast_of_landing {s : Signal} {depth : Nat} (h : s.landing? depth = none) :
    s.goesPast depth = true := by
  cases s with
  | jump j =>
    simpa [Signal.landing?, Signal.goesPast, Signal.jump?, Option.filter_some] using h
  | ret | throw => rfl

theorem receive_spec (kind : FrameKind) (s : Signal) :
    (∃ target onExit v, kind = .region (some target) onExit .body ∧ s = .throw v ∧
      kind.receive s = .handle target v) ∨
    (∃ onThrow target phase, kind = .region onThrow (some target) phase ∧
      phase.stage ≠ .finalizer ∧ kind.catches s = false ∧ kind.receive s = .finalize target) ∨
    (∃ onThrow onExit phase, kind = .region onThrow onExit phase ∧ kind.isSpent = true ∧
      kind.catches s = false ∧ kind.receive s = .pass) ∨
    ∃ record, kind = .iterator record ∧ kind.receive s = .close record.iterator := by
  match kind, s with
  | .iterator record, _ => exact .inr (.inr (.inr ⟨record, rfl, rfl⟩))
  | .region (some target) onExit .body, .throw v => exact .inl ⟨target, onExit, v, rfl, rfl, rfl⟩
  | .region none (some target) .body, _ | .region (some _) (some target) .body, .ret _
  | .region (some _) (some target) .body, .jump _ =>
    exact .inr (.inl ⟨_, target, .body, rfl, nofun, rfl, rfl⟩)
  | .region _ (some target) .handler, _ =>
    refine .inr (.inl ⟨_, target, .handler, rfl, nofun, ?_, ?_⟩)
    all_goals cases ‹Option Nat› <;> rfl
  | .region none none .body, _ | .region (some _) none .body, .ret _
  | .region (some _) none .body, .jump _ =>
    exact .inr (.inr (.inl ⟨_, none, .body, rfl, rfl, rfl, rfl⟩))
  | .region onThrow none .handler, _ =>
    refine .inr (.inr (.inl ⟨onThrow, none, .handler, rfl, rfl, ?_, ?_⟩))
    all_goals cases onThrow <;> rfl
  | .region onThrow onExit (.finalizer pending), _ =>
    refine .inr (.inr (.inl ⟨onThrow, onExit, .finalizer pending, rfl, ?_, ?_, ?_⟩))
    all_goals cases onThrow <;> cases onExit <;> rfl

theorem Delivered.of_travels {s s' : Signal} {fs fs' : List Frame} {t : Turn}
    (h : Travels host s fs s' fs') (ht : Delivered host s' fs' t) : Delivered host s fs t := by
  cases ht with
  | arrived hgo harr => exact .arrived (h.trans hgo) harr
  | failed hgo hkind hclose => exact .failed (h.trans hgo) hkind hclose

theorem unwindThrough_delivered (s : Signal) (fs : List Frame) :
    Gives (Delivered host s fs) (g.unwindThrough host s fs) := by
  induction fs generalizing g s with
  | nil =>
    cases s with
    | ret => exact .pure (.arrived (.here _ _) (.returned rfl))
    | throw => exact .pure (.arrived (.here _ _) (.threw rfl))
    | jump j => exact .pure (.arrived (.here _ _) (.landed (Nat.zero_le _) rfl rfl))
  | cons f outer ih =>
    unfold Instance.unwindThrough
    cases hland : s.landing? (outer.length + 1) with
    | some j =>
      obtain ⟨rfl, hdepth⟩ := landing_eq_some hland
      exact .pure (.arrived (.here _ _) (.landed hdepth rfl rfl))
    | none =>
      have hpast := goesPast_of_landing hland
      dsimp only
      obtain ⟨target, onExit, v, hk, rfl, hr⟩ | ⟨onThrow, target, phase, hk, hp, hc, hr⟩ |
        ⟨onThrow, onExit, phase, hk, hspent, hc, hr⟩ | ⟨record, hk, hr⟩ := receive_spec f.kind s
      · rw [hr]
        refine .pure (.arrived (.here _ _) (.caught hk ?_ rfl rfl))
        simp [Instance.enter, hk, FrameKind.enter]
      · rw [hr]
        refine .pure (.arrived (.here _ _) (.finalized hpast hk hp hc ?_ rfl))
        simp [Instance.enter, hk, FrameKind.enter]
      · rw [hr]
        exact fun w t w' h => .of_travels (.past hpast hk hspent hc (.here _ _)) (ih s w t w' h)
      · rw [hr]
        intro w t w' h
        dsimp only at h
        simp only [bind, RunOn.bind] at h
        cases hclose : (closeIterator host record.iterator s.isThrow).attempt w with
        | abrupt | exhausted =>
          rw [hclose] at h
          cases h
        | done r w₁ =>
          rw [hclose] at h
          have habrupt : ∀ c, r = .error c →
              closeIterator host record.iterator s.isThrow w = .abrupt c w₁ := by
            rintro c rfl
            unfold RunOn.attempt at hclose
            split at hclose <;> cases hclose
            assumption
          match r, h with
          | .error (.throw v), h =>
            exact .of_travels (.replaced hpast hk (habrupt _ rfl) (.here _ _)) (ih _ _ _ _ h)
          | .error (.fatal e), h =>
            cases h
            exact .failed (.here _ _) hk (habrupt _ rfl)
          | .error (.ret _), h | .error (.brk _), h | .error (.cont _), h | .ok (), h =>
            exact .of_travels (.closed hpast hk hclose nofun nofun (.here _ _)) (ih _ _ _ _ h)

theorem unwind_delivered (s : Signal) : Gives (Delivered host s g.frames) (g.unwind host s) :=
  unwindThrough_delivered s g.frames

end Unwinding

/-- What one step of an instance does to its frames, other than the end of a finally block. -/
inductive Moved (host : Host) (fs : List Frame) : Turn → Prop where
  | kept {t : Turn} : t.frames = fs → t.hasEnded = false → Moved host fs t
  | pushed {f : Frame} {g : Instance} : g.frames = f :: fs → Moved host fs (.goOn g)
  | exited {f : Frame} {outer : List Frame} {g : Instance} : fs = f :: outer →
    f.kind.isSpent = true → f.kind.isFinalizing = false → g.frames = outer → Moved host fs (.goOn g)
  /-- A frame with a finally block ends, and nothing waits for the end of that block. -/
  | finalized {f : Frame} {outer : List Frame} {onThrow : Option Nat} {target : Nat} {phase : Phase}
    {g : Instance} : fs = f :: outer → f.kind = .region onThrow (some target) phase →
    phase.stage ≠ .finalizer →
    g.frames = { f with kind := .region onThrow (some target) (.finalizer none) } :: outer →
    g.ip = target → Moved host fs (.goOn g)
  | sent {s : Signal} {t : Turn} : Delivered host s fs t → Moved host fs t
  | abandoned {f : Frame} {outer : List Frame} {record : IteratorRecord} {s : Signal} {t : Turn} :
    fs = f :: outer → f.kind = .iterator record → Delivered host s outer t → Moved host fs t
  | failed {g : Instance} {e : Fatal} : Moved host fs (.stop g (.failed e))

section Steps

variable {plan : Plan} {M : StackMap} {g : Instance} {fs : List Frame} (host : Host)

theorem unwind_moved (h : g.frames = fs) (s : Signal) :
    Gives (Moved host fs) (g.unwind host s) := fun w t w' ht =>
  .sent (h ▸ unwind_delivered s w t w' ht)

theorem jump_moved (h : g.frames = fs) (label : Option String) (isContinue : Bool) :
    Gives (Moved host fs) (g.jump host label isContinue) := by
  unfold Instance.jump
  cases jumpAmong label isContinue g.loops with
  | some j => exact unwind_moved host h _
  | none => exact .bind fun _ => unwind_moved host h _

theorem complete_moved (h : g.frames = fs) (c : Abrupt) :
    Gives (Moved host fs) (g.complete host c) := by
  cases c with
  | ret | throw => exact unwind_moved host h _
  | brk | cont => exact jump_moved host h _ _
  | fatal => exact .pure .failed

theorem after_moved {α : Type} (h : g.frames = fs) (x : Run α) {next : α → Run Turn}
    (hn : ∀ a, Gives (Moved host fs) (next a)) : Gives (Moved host fs) (g.after host x next) := by
  refine .bind fun r => ?_
  cases r with
  | ok a => exact hn a
  | error c => exact complete_moved host h c

theorem store_moved (h : g.frames = fs) (slot : Option String) (next : Nat) (v : Value) :
    Gives (Moved host fs) (g.store host slot next v) := by
  cases slot with
  | none => exact .pure (.kept h rfl)
  | some name => exact after_moved host h _ fun _ => .pure (.kept h rfl)

theorem storeResume_moved (h : g.frames = fs) (v : Value) :
    Gives (Moved host fs) (g.storeResume host v) := by
  unfold Instance.storeResume
  split
  · exact store_moved host h _ _ v
  -- at the three instructions that suspend it is the next one that stores
  iterate 3
    · split
      · refine store_moved host ?_ _ _ v
        exact h
      · exact .exhausted
  · exact .exhausted

section Delegation

variable (h : g.frames = fs)

include h

theorem delegateDone_moved (v : Value) : Gives (Moved host fs) (g.delegateDone host v) := by
  unfold Instance.delegateDone
  split
  · exact unwind_moved (g := g.endDelegation) host h _
  · exact storeResume_moved (g := g.endDelegation) host h v

theorem delegateResult_moved (result : Value) :
    Gives (Moved host fs) (g.delegateResult host result) := by
  refine .bind fun heap => ?_
  split
  · exact .pure (.kept h rfl)
  · cases malformed? heap result with
    | some e => exact .pure .failed
    | none =>
      dsimp only
      split
      · exact delegateDone_moved host h _
      · exact .pure (.kept h rfl)

theorem delegateMissing_moved (iterator : Value) (m : Method) (v : Value) :
    Gives (Moved host fs) (g.delegateMissing host iterator m v) := by
  cases m with
  | next | ret => exact unwind_moved host h _
  | throw => exact after_moved host h _ fun _ => .bind fun _ => unwind_moved host h _

theorem passOn_moved (m : Method) (v : Value) : Gives (Moved host fs) (g.passOn host m v) := by
  unfold Instance.passOn
  cases g.delegation with
  | none => exact storeResume_moved host h v
  | some d =>
    dsimp only
    cases d.native with
    | some inner => exact .pure (.kept h rfl)
    | none =>
      refine .bind fun r => ?_
      rcases r with c | _ | result
      · exact complete_moved (g := g.endDelegation) host h c
      · exact delegateMissing_moved (g := g.endDelegation) host h _ m v
      · refine delegateResult_moved host ?_ result
        exact h

theorem startDelegation_moved (iterable : Value) :
    Gives (Moved host fs) (g.startDelegation host iterable) := by
  refine .bind fun _ => after_moved host h _ fun _ => .bind fun _ => passOn_moved host ?_ _ _
  exact h

theorem bindElement_moved (v : Value) : Gives (Moved host fs) (g.bindElement host v) := by
  unfold Instance.bindElement
  split
  · exact .bind fun scope =>
      after_moved (g := g.pushScope scope) host h _ fun _ => .pure (.kept h rfl)
  · exact .pure (.kept h rfl)

theorem iteratorResult_moved (result : Value) :
    Gives (Moved host fs) (g.iteratorResult host result) := by
  refine .bind fun heap => ?_
  cases malformed? heap result with
  | some e => exact .pure .failed
  | none =>
    dsimp only
    split
    · split
      · exact .pure (.kept h rfl)
      · exact .pure (.kept h rfl)
    · split
      · exact .pure (.kept h rfl)
      · exact bindElement_moved host h _

theorem iteratorThrew_moved {f : Frame} {outer : List Frame} {record : IteratorRecord}
    (hfs : fs = f :: outer) (hk : f.kind = .iterator record) (s : Signal) :
    Gives (Moved host fs) (g.popFrame.unwind host s) := by
  intro w t w' ht
  have hd := unwind_delivered s w t w' ht
  simp only [Instance.popFrame, h, hfs, List.tail_cons] at hd
  exact .abandoned hfs hk hd

theorem moveNext_moved (hh : host.Proper) (isAsync : Bool) :
    Gives (Moved host fs) (g.moveNext host isAsync) := by
  unfold Instance.moveNext
  cases hit : g.iterator? with
  | none => exact .bind fun _ => unwind_moved host h _
  | some record =>
    have hcall : (record.callNext host []).OnlyThrows := (callNext_related hh.related record []).2
    refine .attempt_bind hcall (fun result => ?_) fun c hc => ?_
    · dsimp only
      split
      · exact .pure (.kept h rfl)
      · exact iteratorResult_moved host h result
    · obtain ⟨f, outer, hfs, hk⟩ : ∃ f outer, fs = f :: outer ∧ f.kind = .iterator record := by
        unfold Instance.iterator? at hit
        split at hit
        · cases hit
          exact ⟨_, _, h.symm.trans ‹_›, rfl⟩
        · cases hit
      cases c with
      | throw v => exact iteratorThrew_moved host h hfs hk _
      | fatal e => exact .pure .failed
      | ret | brk | cont => cases hc

end Delegation

/-- The end of a protected region: the map rules out that a finally block is cut short. -/
theorem exitTry_moved (hM : M.Maps plan) (hg : g.At plan M (M g.ip)) {next : Nat} {close : Bool}
    (hi : plan.get? g.ip = some (.exitTry next close)) (hh : host.Proper) :
    Gives (Moved host g.frames) (g.exitTry host next close) := by
  obtain ⟨s, o, hip, hs, hstage, -⟩ := hM.fits _ _ hi
  have hst := hg.stacked
  rw [hip] at hst
  cases s with
  | scope | loop => cases hs
  | region o' onThrow onExit stage =>
    obtain ⟨phase, rest, hfs, rfl, -, -⟩ := hst.of_region
    simp only [Instance.exitTry, hfs]
    cases phase with
    | finalizer => exact absurd rfl hstage
    | body | handler =>
      cases onExit with
      | none => exact .pure (.exited rfl rfl rfl rfl)
      | some target => exact .pure (.finalized rfl rfl (by rintro ⟨⟩) rfl rfl)
  | iterator o' =>
    obtain ⟨record, rest, hfs, -⟩ := hst.of_iterator
    simp only [Instance.exitTry, hfs]
    split
    · have hclose : (closeIterator host record.iterator false).OnlyThrows :=
        (closeIterator_related hh.related record.iterator false).2
      refine .attempt_bind hclose (fun _ => .pure (.exited rfl rfl rfl rfl)) fun c hc => ?_
      cases c with
      | throw v => exact fun w t w' ht => .abandoned rfl rfl (unwind_delivered (.throw v) w t w' ht)
      | fatal e => exact .pure .failed
      | ret | brk | cont => cases hc
    · exact .pure (.exited rfl rfl rfl rfl)

theorem bindCatch_moved (h : g.frames = fs) (param : Option Pattern) (next : Nat) :
    Gives (Moved host fs) (g.bindCatch host param next) := by
  refine .bind fun scope => ?_
  cases param with
  | none => exact .pure (.kept h rfl)
  | some p =>
    refine after_moved host ?_ _ fun _ => .pure (.kept h rfl)
    exact h

theorem dispatch_moved (hM : M.Maps plan) (hg : g.At plan M (M g.ip)) (hh : host.Proper) {i : Instr}
    (hi : plan.get? g.ip = some i) (hend : ∀ next, i ≠ .endFinally next) :
    Gives (Moved host g.frames) (g.dispatch host i) := by
  cases i with
  | evaluate | yield | await | branch => exact after_moved host rfl _ fun _ => .pure (.kept rfl rfl)
  | yieldStar => exact after_moved host rfl _ fun _ => startDelegation_moved host rfl _
  | store => exact storeResume_moved host rfl _
  | jump | popScope | enterLoop | exitLoop => exact .pure (.kept rfl rfl)
  | enterTry => exact .pure (.pushed rfl)
  | exitTry => exact exitTry_moved host hM hg hi hh
  | bindCatch => exact bindCatch_moved host rfl _ _
  | endFinally next => exact absurd rfl (hend next)
  | pushScope =>
    exact .bind fun scope => after_moved (g := g.pushScope scope) host rfl _ fun _ =>
      .pure (.kept rfl rfl)
  | copyScope =>
    refine .bind fun scope => .pure (.kept ?_ rfl)
    show (g.replaceScope scope).frames = g.frames
    unfold Instance.replaceScope
    split <;> rfl
  | brk | cont => exact jump_moved host rfl _ _
  | openIterator => exact after_moved host rfl _ fun record => .pure (.pushed rfl)
  | moveNext => exact moveNext_moved host rfl hh _
  | ret | throw => exact after_moved host rfl _ fun _ => unwind_moved host rfl _

theorem endFinally_spec (hM : M.Maps plan) (hg : g.At plan M (M g.ip)) {next : Nat}
    (hi : plan.get? g.ip = some (.endFinally next)) :
    ∃ f outer onThrow onExit pending, g.frames = f :: outer ∧
      f.kind = .region onThrow onExit (.finalizer pending) ∧
      (∀ s, pending = some s → Gives (Delivered host s outer) (g.endFinally host next)) ∧
      (pending = none → g.endFinally host next = pure (.goOn (g.popFrame.goto next))) := by
  obtain ⟨o, onThrow, onExit, hip, -⟩ := hM.fits _ _ hi
  have hst := hg.stacked
  rw [hip] at hst
  obtain ⟨phase, rest, hfs, hstage, -, -⟩ := hst.of_region
  match phase with
  | .body | .handler => cases hstage
  | .finalizer pending =>
    refine ⟨_, rest, onThrow, onExit, pending, hfs, rfl, ?_, ?_⟩
    · rintro s rfl w t w' ht
      have hend : g.endFinally host next = g.popFrame.unwind host s := by
        simp [Instance.endFinally, hfs, Frame.pending?]
      rw [hend] at ht
      have hd := unwind_delivered s w t w' ht
      simpa [Instance.popFrame, hfs] using hd
    · rintro rfl
      simp [Instance.endFinally, hfs, Frame.pending?]

theorem settled_moved {awaiting : Option AwaitKind} (hM : M.Maps plan) (hg : g.At plan M (M g.ip))
    (hresult : awaiting = some .result → ∃ kind pattern body exit isAsync,
      plan.get? g.ip = some (.moveNext kind pattern body exit isAsync)) (s : Settlement) :
    Gives (Moved host g.frames) (g.settled host awaiting s) := by
  cases s with
  | fulfilled v =>
    match awaiting with
    | some .delegate => exact delegateResult_moved host rfl v
    | some .result => exact iteratorResult_moved host rfl v
    | some .element => exact bindElement_moved host rfl v
    | some .value | none => exact storeResume_moved host rfl v
  | rejected v =>
    match awaiting with
    | some .delegate => exact passOn_moved host rfl _ v
    | some .result =>
      obtain ⟨_, _, _, _, _, hi⟩ := hresult rfl
      obtain ⟨record, m, n, outer, -, hframes, -⟩ := moveNext_frames hM hg hi
      exact iteratorThrew_moved host rfl hframes rfl _
    | some .element | some .value | none => exact unwind_moved host rfl _

theorem resumed_moved (hM : M.Maps plan) (hg : g.Rests plan M) (a : Action) :
    Gives (Moved host g.frames) (g.resumed host a) := by
  have hframes : ({ g with awaiting := none } : Instance).frames = g.frames := rfl
  cases a with
  | settled s =>
    exact settled_moved (g := { g with awaiting := none }) host hM ⟨hg.plan_eq, rfl, hg.stacked⟩
      hg.result s
  | delegateDone v => exact delegateDone_moved host hframes v
  | delegateThrew v =>
    refine unwind_moved host ?_ _
    rfl
  | next v => exact passOn_moved host hframes .next v
  | throw v | ret v =>
    unfold Instance.resumed
    dsimp only
    split
    · exact passOn_moved host hframes _ v
    · exact unwind_moved host hframes _

end Steps

end Resumable
